import Mathlib.Data.List.Basic
import Mathlib.Tactic.Ring

/-! # Fixed-size buffers

A buffer is a list whose length never changes. `copyInto` clips at the end of the
target and `slice` clips at the end of the source, as in-place byte buffers do.
Every fact is derived from the value of each operation at one position. -/
namespace ByteBuffer

variable {α : Type*}

def slice (b : List α) (lo hi : ℕ) : List α := (b.take hi).drop lo

def copyInto (dst : List α) (pos : ℕ) (src : List α) : List α :=
  dst.take pos ++ src.take (dst.length - pos) ++ dst.drop (pos + src.length)

def fillFrom (b : List α) (pos : ℕ) (v : α) : List α :=
  b.take pos ++ List.replicate (b.length - pos) v

/-- The `i`-th of consecutive blocks of `n` elements. -/
def block (b : List α) (n i : ℕ) : List α := slice b (i * n) (i * n + n)

theorem getElem?_slice (b : List α) (lo hi j : ℕ) :
    (slice b lo hi)[j]? = if lo + j < hi then b[lo + j]? else none := by
  simp [slice, List.getElem?_drop, List.getElem?_take]

@[simp] theorem length_slice (b : List α) (lo hi : ℕ) :
    (slice b lo hi).length = min hi b.length - lo := by
  simp [slice]

@[simp] theorem length_copyInto (dst : List α) (pos : ℕ) (src : List α) :
    (copyInto dst pos src).length = dst.length := by
  simp [copyInto]
  omega

@[simp] theorem length_fillFrom (b : List α) (pos : ℕ) (v : α) :
    (fillFrom b pos v).length = b.length := by
  simp [fillFrom]
  omega

theorem length_block {b : List α} {n i : ℕ} (h : (i + 1) * n ≤ b.length) :
    (block b n i).length = n := by
  rw [Nat.add_mul] at h
  simp [block]
  omega

theorem getElem?_copyInto (dst : List α) (pos : ℕ) (src : List α) (j : ℕ)
    (h : pos + src.length ≤ dst.length) :
    (copyInto dst pos src)[j]? =
      if pos ≤ j ∧ j < pos + src.length then src[j - pos]? else dst[j]? := by
  have hp : min pos dst.length = pos := by omega
  have hs : min (dst.length - pos) src.length = src.length := by omega
  simp only [copyInto, List.append_assoc, List.getElem?_append, List.length_take,
    List.getElem?_take, List.getElem?_drop, hp, hs]
  split_ifs with h1 h2 h3 h4 h5 <;> try omega
  · rfl
  · rfl
  · congr 1; omega

theorem getElem?_fillFrom (b : List α) (pos : ℕ) (v : α) (j : ℕ) (h : pos ≤ b.length) :
    (fillFrom b pos v)[j]? =
      if j < pos then b[j]? else if j < b.length then some v else none := by
  have hp : min pos b.length = pos := by omega
  simp only [fillFrom, List.getElem?_append, List.length_take, List.getElem?_take,
    List.getElem?_replicate, hp]
  split_ifs <;> first | rfl | omega

theorem copyInto_copyInto_append {b s t : List α} {pos : ℕ}
    (h : pos + (s.length + t.length) ≤ b.length) :
    copyInto (copyInto b pos s) (pos + s.length) t = copyInto b pos (s ++ t) := by
  apply List.ext_getElem?
  intro j
  rw [getElem?_copyInto _ _ _ _ (by simp; omega), getElem?_copyInto _ _ _ _ (by omega),
    getElem?_copyInto _ _ _ _ (by simp; omega), List.getElem?_append, List.length_append]
  split_ifs <;> first | omega | rfl | (congr 1; omega)

/-- Fields that follow each other fill a buffer from its beginning. -/
theorem copyInto_zero_append {b fields src : List α} {pos : ℕ} (hpos : fields.length = pos)
    (h : pos + src.length ≤ b.length) :
    copyInto (copyInto b 0 fields) pos src = copyInto b 0 (fields ++ src) := by
  have hjoin := @copyInto_copyInto_append _ b fields src 0 (by omega)
  rw [Nat.zero_add, hpos] at hjoin
  exact hjoin

theorem copyInto_whole {b src : List α} (h : src.length = b.length) : copyInto b 0 src = src := by
  simp [copyInto, ← h]

@[simp] theorem copyInto_nil (b : List α) (pos : ℕ) : copyInto b pos [] = b := by
  simp [copyInto]

theorem slice_eq_slice {b e : List α} {lo hi : ℕ}
    (h : ∀ j, lo ≤ j → j < hi → b[j]? = e[j]?) : slice b lo hi = slice e lo hi := by
  apply List.ext_getElem?
  intro j
  rw [getElem?_slice, getElem?_slice]
  split_ifs with hj
  · exact h _ (by omega) hj
  · rfl

theorem slice_copyInto_disjoint {dst src : List α} {pos lo hi : ℕ}
    (h : pos + src.length ≤ dst.length) (hd : hi ≤ pos ∨ pos + src.length ≤ lo) :
    slice (copyInto dst pos src) lo hi = slice dst lo hi := by
  apply slice_eq_slice
  intro j hlo hhi
  rw [getElem?_copyInto _ _ _ _ h, if_neg (by omega)]

theorem slice_copyInto_self {dst src : List α} {pos : ℕ}
    (h : pos + src.length ≤ dst.length) :
    slice (copyInto dst pos src) pos (pos + src.length) = src := by
  apply List.ext_getElem?
  intro j
  rw [getElem?_slice, getElem?_copyInto _ _ _ _ h]
  split_ifs with h1 h2
  · congr 1; omega
  · omega
  · exact (List.getElem?_eq_none (by omega)).symm

theorem slice_copyInto_within {dst src : List α} {pos lo hi : ℕ}
    (h : pos + src.length ≤ dst.length) (hlo : pos ≤ lo) (hhi : hi ≤ pos + src.length) :
    slice (copyInto dst pos src) lo hi = slice src (lo - pos) (hi - pos) := by
  apply List.ext_getElem?
  intro j
  rw [getElem?_slice, getElem?_slice, getElem?_copyInto _ _ _ _ h]
  split_ifs <;> first | omega | rfl | (congr 1; omega)

theorem slice_slice (b : List α) (lo hi lo' hi' : ℕ) (h : lo + hi' ≤ hi) :
    slice (slice b lo hi) lo' hi' = slice b (lo + lo') (lo + hi') := by
  apply List.ext_getElem?
  intro j
  rw [getElem?_slice, getElem?_slice, getElem?_slice]
  split_ifs <;> first | omega | rfl | (congr 1; omega)

theorem slice_append_slice (b : List α) {lo mid hi : ℕ} (h₁ : lo ≤ mid) (h₂ : mid ≤ hi)
    (hb : mid ≤ b.length) : slice b lo mid ++ slice b mid hi = slice b lo hi := by
  apply List.ext_getElem?
  intro j
  rw [List.getElem?_append, getElem?_slice, getElem?_slice, getElem?_slice, length_slice]
  split_ifs <;> first | omega | rfl | (congr 1; omega)

theorem slice_append_left {b c : List α} {lo hi : ℕ} (h : hi ≤ b.length) :
    slice (b ++ c) lo hi = slice b lo hi := by
  apply slice_eq_slice
  intro j _ hj
  exact List.getElem?_append_left (by omega)

theorem slice_append_right {b c : List α} {lo hi : ℕ} (h : b.length ≤ lo) :
    slice (b ++ c) lo hi = slice c (lo - b.length) (hi - b.length) := by
  apply List.ext_getElem?
  intro j
  rw [getElem?_slice, getElem?_slice, List.getElem?_append]
  split_ifs <;> first | omega | rfl | (congr 1; omega)

@[simp] theorem slice_self (b : List α) (lo : ℕ) : slice b lo lo = [] := by
  simp [slice]

theorem slice_eq_nil_of_le {b : List α} {lo hi : ℕ} (h : hi ≤ lo) : slice b lo hi = [] := by
  apply List.eq_nil_of_length_eq_zero
  simp
  omega

theorem slice_clip {b : List α} {lo hi : ℕ} (h : b.length ≤ hi) :
    slice b lo hi = slice b lo b.length := by
  simp [slice, List.take_of_length_le h]

theorem slice_zero_length (b : List α) : slice b 0 b.length = b := by
  simp [slice]

/-- A field ends where the ones after it begin. -/
theorem slice_middle {before field : List α} (after : List α) {lo hi : ℕ}
    (hlo : before.length = lo) (hhi : lo + field.length = hi) :
    slice (before ++ field ++ after) lo hi = field := by
  subst hlo hhi
  rw [slice_append_left (by simp), slice_append_right le_rfl, Nat.sub_self,
    Nat.add_sub_cancel_left, slice_zero_length]

theorem slice_zero (b : List α) (hi : ℕ) : slice b 0 hi = b.take hi := by
  simp [slice]

theorem block_slice (b : List α) {n i lo hi : ℕ} (h : lo + (i + 1) * n ≤ hi) :
    block (slice b lo hi) n i = slice b (lo + i * n) (lo + i * n + n) := by
  rw [Nat.add_mul] at h
  rw [block, slice_slice _ _ _ _ _ (by omega), Nat.add_assoc]

theorem block_clip (b : List α) {n i k : ℕ} (hi : i < k) :
    block (slice b 0 (k * n)) n i = block b n i := by
  have hk := Nat.mul_le_mul_right n (show i + 1 ≤ k from hi)
  rw [block_slice _ (by omega), Nat.zero_add, block]

theorem block_copyInto_self {dst src : List α} {n i : ℕ}
    (hn : src.length = n) (h : (i + 1) * n ≤ dst.length) :
    block (copyInto dst (i * n) src) n i = src := by
  subst hn
  rw [Nat.add_mul] at h
  exact slice_copyInto_self (by omega)

theorem block_copyInto_ne {dst src : List α} {n i j : ℕ}
    (hn : src.length = n) (h : (i + 1) * n ≤ dst.length) (hij : j ≠ i) :
    block (copyInto dst (i * n) src) n j = block dst n j := by
  subst hn
  have hs : (i + 1) * src.length = i * src.length + src.length := by ring
  apply slice_copyInto_disjoint (by omega)
  rcases Nat.lt_or_gt_of_ne hij with hlt | hgt
  · have := Nat.mul_le_mul_right src.length (show j + 1 ≤ i from hlt)
    rw [Nat.add_mul] at this
    omega
  · have := Nat.mul_le_mul_right src.length (show i + 1 ≤ j from hgt)
    omega

/-- A range is determined by the blocks that overlap it. -/
theorem slice_eq_of_overlapping_blocks {b c : List α} {n lo hi : ℕ} (hn : 0 < n)
    (h : ∀ i, i * n < hi → lo < i * n + n → block b n i = block c n i) :
    slice b lo hi = slice c lo hi := by
  apply slice_eq_slice
  intro j hlo hhi
  have hm := Nat.mod_lt j hn
  have hd := Nat.div_add_mod' j n
  have hb := congrArg (fun l => l[j % n]?) (h (j / n) (by omega) (by omega))
  simp only [block, getElem?_slice] at hb
  rw [if_pos (by omega), if_pos (by omega), hd] at hb
  exact hb

/-- A buffer prefix is determined by its blocks. -/
theorem slice_eq_of_blocks {b c : List α} {n k : ℕ}
    (h : ∀ i, i < k → block b n i = block c n i) :
    slice b 0 (k * n) = slice c 0 (k * n) := by
  rcases Nat.eq_zero_or_pos n with rfl | hn
  · simp
  · exact slice_eq_of_overlapping_blocks hn fun i hi _ => h i (Nat.lt_of_mul_lt_mul_right hi)

end ByteBuffer
