import Strubs.ByteBuffer
import Mathlib.Data.Finset.Card
import Mathlib.Data.Finset.Range

/-! # In-place systematic erasure codecs

A codec works on a buffer of `k + m` equal shards: the first `k` hold the data and the
last `m` the redundancy. Shard sets are 32-bit flag words. The laws speak only about
which shards a call may change and what any `k` correct shards determine. -/
namespace ErasureCode

open ByteBuffer

/-- A 32-bit shift takes its count modulo 32. -/
def flag (i : ℕ) : BitVec 32 := 1#32 <<< (i % 32)

def flags (is : List ℕ) : BitVec 32 := is.foldl (fun w i => w ||| flag i) 0#32

theorem getLsbD_flag {i j : ℕ} (hi : i < 32) (hj : j < 32) :
    (flag j).getLsbD i = decide (i = j) := by
  simp only [flag, BitVec.getLsbD_shiftLeft, BitVec.getLsbD_one, Nat.mod_eq_of_lt hj]
  by_cases h : i = j
  · subst h; simp [hi]
  · by_cases hl : i < j
    · simp [hl, h]
    · have : i - j ≠ 0 := by omega
      simp [this, h]

private theorem getLsbD_flags_from (w : BitVec 32) {i : ℕ} (hi : i < 32) (is : List ℕ)
    (his : ∀ j ∈ is, j < 32) :
    (is.foldl (fun w i => w ||| flag i) w).getLsbD i = (w.getLsbD i || decide (i ∈ is)) := by
  induction is generalizing w with
  | nil => simp
  | cons j js ih =>
    simp only [List.foldl_cons]
    rw [ih _ fun x hx => his x (List.mem_cons_of_mem _ hx), BitVec.getLsbD_or,
      getLsbD_flag hi (his j List.mem_cons_self)]
    simp [Bool.or_assoc, List.mem_cons]

theorem getLsbD_flags {i : ℕ} (hi : i < 32) {is : List ℕ} (his : ∀ j ∈ is, j < 32) :
    (flags is).getLsbD i = decide (i ∈ is) := by
  simp [flags, getLsbD_flags_from _ hi is his]

/-- `create` says which shapes the codec accepts. `encode` takes the source and target
sets, the buffer, the offset and size of its data region and of its redundancy region,
and returns the buffer's new content. `none` is a call that throws. -/
structure Codec where
  create : ℕ → ℕ → Bool
  encode : (k m : ℕ) → (sources targets : BitVec 32) → (buffer : List UInt8) →
    (bufferOffset bufferSize parityOffset paritySize : ℕ) → Option (List UInt8)

namespace Codec

variable (c : Codec) (k m : ℕ)

def dataFlags : BitVec 32 := flags (List.range k)
def parityFlags : BitVec 32 := flags (List.range' k m)

/-- The call on a buffer whose shards have `n` bytes each. -/
def call (n : ℕ) (sources targets : BitVec 32) (buffer : List UInt8) : Option (List UInt8) :=
  c.encode k m sources targets buffer 0 (n * k) (n * k) (n * m)

/-- The buffer after the call. One that throws has not touched it. -/
def run (n : ℕ) (sources targets : BitVec 32) (buffer : List UInt8) : List UInt8 :=
  (c.call k m n sources targets buffer).getD buffer

/-- Producing the redundancy leaves the data region as it was, and throws on shards of no
bytes only. -/
structure KeepsData : Prop where
  taken : ∀ n buffer, 8 ∣ n → (k + m) * n ≤ buffer.length →
    ((c.call k m n (dataFlags k) (parityFlags k m) buffer).isSome ↔ 0 < n)
  length_run : ∀ n buffer, (k + m) * n ≤ buffer.length →
    (c.run k m n (dataFlags k) (parityFlags k m) buffer).length = buffer.length
  keeps : ∀ n buffer, (k + m) * n ≤ buffer.length →
    slice (c.run k m n (dataFlags k) (parityFlags k m) buffer) 0 (k * n) =
      slice buffer 0 (k * n)

/-- The buffer of all shards that belongs to a data region. -/
def codeword (n : ℕ) (data : List UInt8) : List UInt8 :=
  c.run k m n (dataFlags k) (parityFlags k m) (data ++ List.replicate (m * n) 0)

/-- The `i`-th shard that belongs to a data region: a data block, or its redundancy. -/
def shard (n : ℕ) (data : List UInt8) (i : ℕ) : List UInt8 :=
  if i < k then block data n i else block (c.codeword k m n data) n i

theorem shard_data {n : ℕ} {data : List UInt8} {i : ℕ} (h : i < k) :
    c.shard k m n data i = block data n i := if_pos h

/-- Exactly `k` shards of one codeword among the sources determine every target. A call for a
target of some bytes does not throw. -/
structure Recovers : Prop where
  flag_width : k + m ≤ 32
  redundant : 0 < m
  taken : ∀ n sources targets buffer, 8 ∣ n → (k + m) * n ≤ buffer.length →
    sources &&& targets = 0#32 →
    ((Finset.range (k + m)).filter fun i => sources.getLsbD i = true).card = k →
    (∃ t, t < k + m ∧ targets.getLsbD t = true) →
    ((c.call k m n sources targets buffer).isSome ↔ 0 < n)
  length_run : ∀ n sources targets buffer, (k + m) * n ≤ buffer.length →
    (c.run k m n sources targets buffer).length = buffer.length
  keeps : ∀ n sources targets buffer i, (k + m) * n ≤ buffer.length → i < k + m →
    targets.getLsbD i = false →
    block (c.run k m n sources targets buffer) n i = block buffer n i
  recovers : ∀ n sources targets buffer data, 8 ∣ n → data.length = k * n →
    (k + m) * n ≤ buffer.length → sources &&& targets = 0#32 →
    ((Finset.range (k + m)).filter fun i => sources.getLsbD i = true).card = k →
    (∀ i, i < k + m → sources.getLsbD i = true →
      block buffer n i = c.shard k m n data i) →
    ∀ t, t < k + m → targets.getLsbD t = true →
      block (c.run k m n sources targets buffer) n t = c.shard k m n data t

/-- The redundancy is a function of the data region. -/
def RedundancyOfData : Prop :=
  ∀ n buffer buffer', (k + m) * n ≤ buffer.length → (k + m) * n ≤ buffer'.length →
    slice buffer 0 (k * n) = slice buffer' 0 (k * n) → ∀ i, i < k + m →
    block (c.run k m n (dataFlags k) (parityFlags k m) buffer) n i =
      block (c.run k m n (dataFlags k) (parityFlags k m) buffer') n i

/-- Every shape that `create` accepts obeys the laws of an erasure code. -/
def Lawful : Prop := ∀ k m, c.create k m = true → c.Recovers k m

variable {c k m}

theorem mem_dataFlags (h : k + m ≤ 32) {i : ℕ} (hi : i < 32) :
    (dataFlags k).getLsbD i = decide (i < k) := by
  rw [dataFlags, getLsbD_flags hi]
  · simp
  · intro j hj; have := List.mem_range.mp hj; omega

theorem mem_parityFlags (h : k + m ≤ 32) {i : ℕ} (hi : i < 32) :
    (parityFlags k m).getLsbD i = decide (k ≤ i ∧ i < k + m) := by
  rw [parityFlags, getLsbD_flags hi]
  · simp
  · intro j hj; have := (List.mem_range'_1.mp hj).2; omega

theorem data_parity_disjoint (h : k + m ≤ 32) :
    dataFlags k &&& parityFlags k m = 0#32 := by
  apply BitVec.eq_of_getLsbD_eq
  intro i hi
  rw [BitVec.getLsbD_and, mem_dataFlags h hi, mem_parityFlags h hi]
  simp only [BitVec.getLsbD_zero, Bool.and_eq_false_iff, decide_eq_false_iff_not]
  omega

theorem card_dataFlags (h : k + m ≤ 32) :
    ((Finset.range (k + m)).filter fun i => (dataFlags k).getLsbD i = true).card = k := by
  have : ((Finset.range (k + m)).filter fun i => (dataFlags k).getLsbD i = true) =
      Finset.range k := by
    ext i
    simp only [Finset.mem_filter, Finset.mem_range]
    constructor
    · rintro ⟨hi, hd⟩
      rw [mem_dataFlags h (by omega)] at hd
      exact of_decide_eq_true hd
    · intro hi
      exact ⟨by omega, by rw [mem_dataFlags h (by omega)]; exact decide_eq_true hi⟩
  rw [this, Finset.card_range]

theorem Recovers.keepsData (h : c.Recovers k m) : c.KeepsData k m := by
  have hw := h.flag_width
  have hm := h.redundant
  refine ⟨fun n buffer hn hb => ?_, fun n buffer hb => h.length_run _ _ _ _ hb,
    fun n buffer hb => slice_eq_of_blocks fun i hi => ?_⟩
  · refine h.taken n _ _ buffer hn hb (data_parity_disjoint hw) (card_dataFlags hw)
      ⟨k, by omega, ?_⟩
    rw [mem_parityFlags hw (by omega)]
    exact decide_eq_true (by omega)
  · apply h.keeps _ _ _ _ _ hb (by omega)
    rw [mem_parityFlags hw (by omega)]
    exact decide_eq_false (by omega)

/-- Recomputing the redundancy of any buffer depends on its data region alone. -/
theorem Recovers.run_parity (h : c.Recovers k m) {n : ℕ} {buffer data : List UInt8}
    (hn : 8 ∣ n) (hb : (k + m) * n ≤ buffer.length) (hd : data = slice buffer 0 (k * n))
    {i : ℕ} (hi : i < k + m) :
    block (c.run k m n (dataFlags k) (parityFlags k m) buffer) n i =
      c.shard k m n data i := by
  have hw := h.flag_width
  have hkn : k * n ≤ buffer.length := by
    have := Nat.mul_le_mul_right n (Nat.le_add_right k m)
    omega
  have hblock : ∀ j, j < k → block buffer n j = block data n j := by
    intro j hj
    rw [hd, block_clip _ hj]
  by_cases hik : i < k
  · rw [c.shard_data k m hik, ← hblock i hik]
    apply h.keeps _ _ _ _ _ hb hi
    rw [mem_parityFlags hw (by omega)]
    exact decide_eq_false (by omega)
  · apply h.recovers n _ _ buffer data hn _ hb (data_parity_disjoint hw) (card_dataFlags hw)
    · intro j hj hs
      rw [mem_dataFlags hw (by omega)] at hs
      have hjk := of_decide_eq_true hs
      rw [c.shard_data k m hjk, hblock j hjk]
    · exact hi
    · rw [mem_parityFlags hw (by omega)]
      exact decide_eq_true (by omega)
    · rw [hd, length_slice]; omega

end Codec

/-- One data shard and one copy of it: the parity of a single shard is the shard. -/
def mirror : Codec where
  create k m := k == 1 && m == 1
  encode _ _ sources targets buffer _ bufferSize _ _ :=
    if bufferSize = 0 then none
    else if sources.getLsbD 0 && targets.getLsbD 1 then
      some (copyInto buffer bufferSize (slice buffer 0 bufferSize))
    else if sources.getLsbD 1 && targets.getLsbD 0 then
      some (copyInto buffer 0 (slice buffer bufferSize (2 * bufferSize)))
    else some buffer

private theorem mirror_call (n : ℕ) (sources targets : BitVec 32) (buffer : List UInt8) :
    (mirror.call 1 1 n sources targets buffer).isSome ↔ 0 < n := by
  simp only [Codec.call, mirror, Nat.mul_one]
  split_ifs with hn <;> simp [Nat.pos_iff_ne_zero, hn]

private theorem mirror_run (n : ℕ) (sources targets : BitVec 32) (buffer : List UInt8) :
    mirror.run 1 1 n sources targets buffer =
      if sources.getLsbD 0 && targets.getLsbD 1 then
        copyInto buffer (1 * n) (block buffer n 0)
      else if sources.getLsbD 1 && targets.getLsbD 0 then
        copyInto buffer (0 * n) (block buffer n 1)
      else buffer := by
  simp only [Codec.run, Codec.call, mirror, block, Nat.mul_one, Nat.one_mul, Nat.zero_mul,
    Nat.zero_add, Nat.two_mul]
  by_cases hn : n = 0
  · subst hn
    simp [slice_self, copyInto_nil]
  · rw [if_neg hn]
    split_ifs <;> rfl

private theorem mirror_shard {n : ℕ} {data : List UInt8} (hd : data.length = 1 * n) {i : ℕ}
    (hi : i < 1 + 1) : mirror.shard 1 1 n data i = block data n 0 := by
  have hfit : (data ++ List.replicate (1 * n) (0 : UInt8)).length = 2 * n := by simp; omega
  have hfront : block (data ++ List.replicate (1 * n) 0) n 0 = block data n 0 :=
    slice_append_left (by omega)
  rcases (show i = 0 ∨ i = 1 by omega) with rfl | rfl
  · exact Codec.shard_data _ _ _ Nat.zero_lt_one
  · rw [Codec.shard, if_neg (by omega), Codec.codeword, mirror_run, if_pos (by decide), hfront]
    exact block_copyInto_self (length_block (by omega)) (by omega)

theorem mirror_lawful : mirror.Lawful := by
  intro k m hcreate
  obtain ⟨rfl, rfl⟩ : k = 1 ∧ m = 1 := by simpa [mirror] using hcreate
  refine ⟨by omega, Nat.one_pos, fun n sources targets buffer _ _ _ _ _ =>
    mirror_call n sources targets buffer, ?_, ?_, ?_⟩
  · intro n sources targets buffer _
    rw [mirror_run]
    split_ifs <;> simp
  · intro n sources targets buffer i hb hi ht
    have h0 : (block buffer n 0).length = n := length_block (by omega)
    have h1 : (block buffer n 1).length = n := length_block (by omega)
    rw [mirror_run]
    split_ifs with hs hs'
    · refine block_copyInto_ne h0 (by omega) ?_
      rintro rfl
      rw [ht, Bool.and_false] at hs
      cases hs
    · refine block_copyInto_ne h1 (by omega) ?_
      rintro rfl
      rw [ht, Bool.and_false] at hs'
      cases hs'
    · rfl
  · intro n sources targets buffer data _ hd hb hdisj hcard hcorrect t ht htarget
    have h0 : (block buffer n 0).length = n := length_block (by omega)
    have h1 : (block buffer n 1).length = n := length_block (by omega)
    have hnot : ∀ i, sources.getLsbD i = true → targets.getLsbD i = true → False := by
      intro i hs ht
      have hbit := congrArg (·.getLsbD i) hdisj
      simp [hs, ht] at hbit
    obtain ⟨s, hs⟩ : ((Finset.range (1 + 1)).filter fun i => sources.getLsbD i = true).Nonempty :=
      Finset.card_pos.mp (by omega)
    obtain ⟨hs2, hsource⟩ := Finset.mem_filter.mp hs
    have hs2 := Finset.mem_range.mp hs2
    have hval := hcorrect s hs2 hsource
    rw [mirror_shard hd hs2] at hval
    rw [mirror_shard hd ht, mirror_run, ← hval]
    rcases (show s = 0 ∧ t = 1 ∨ s = 1 ∧ t = 0 by
      have : s ≠ t := by
        rintro rfl
        exact hnot _ hsource htarget
      omega) with ⟨rfl, rfl⟩ | ⟨rfl, rfl⟩
    · rw [hsource, htarget, Bool.true_and, if_pos rfl]
      exact block_copyInto_self h0 (by omega)
    · have hs0 : sources.getLsbD 0 = false := by
        by_contra hs0
        exact hnot 0 (by simpa using hs0) htarget
      rw [hs0, hsource, htarget, Bool.false_and, if_neg Bool.false_ne_true, Bool.true_and,
        if_pos rfl]
      exact block_copyInto_self h1 (by omega)

/-- One data shard and any number of copies of it, made from the first shard there is. -/
def replicas : Codec where
  create k m := k == 1 && 0 < m && m ≤ 31
  encode _ m sources targets buffer _ bufferSize _ _ :=
    if bufferSize = 0 then none
    else
      let source := ((List.range (1 + m)).find? (sources.getLsbD ·)).getD 0
      some ((List.range (1 + m)).foldl (fun b target =>
        if targets.getLsbD target then copyInto b (target * bufferSize)
          (block buffer bufferSize source) else b) buffer)

private theorem foldl_copyInto {n : ℕ} {shard : List UInt8} (hshard : shard.length = n)
    (chosen : ℕ → Bool) {buffer : List UInt8} {targets : List ℕ}
    (hfit : ∀ t ∈ targets, (t + 1) * n ≤ buffer.length) (i : ℕ) :
    (targets.foldl (fun b t => if chosen t then copyInto b (t * n) shard else b) buffer).length =
      buffer.length ∧
    block (targets.foldl (fun b t => if chosen t then copyInto b (t * n) shard else b) buffer) n i =
      if i ∈ targets ∧ chosen i then shard else block buffer n i := by
  induction targets generalizing buffer with
  | nil => simp
  | cons t rest ih =>
    have hlen : (if chosen t then copyInto buffer (t * n) shard else buffer).length =
        buffer.length := by
      split_ifs
      · exact length_copyInto _ _ _
      · rfl
    have hrest : ∀ u ∈ rest, (u + 1) * n ≤
        (if chosen t then copyInto buffer (t * n) shard else buffer).length := by
      rw [hlen]
      exact fun u hu => hfit u (List.mem_cons_of_mem _ hu)
    obtain ⟨hlen', hblock⟩ := ih hrest
    rw [List.foldl_cons]
    refine ⟨hlen'.trans hlen, hblock.trans ?_⟩
    have ht := hfit t List.mem_cons_self
    by_cases hi : i ∈ rest ∧ chosen i
    · rw [if_pos hi, if_pos ⟨List.mem_cons_of_mem _ hi.1, hi.2⟩]
    · rw [if_neg hi]
      by_cases hchosen : i = t ∧ chosen i
      · obtain ⟨rfl, hc⟩ := hchosen
        rw [if_pos hc, if_pos ⟨List.mem_cons_self, hc⟩, block_copyInto_self hshard ht]
      · have hsame : block (if chosen t then copyInto buffer (t * n) shard else buffer) n i =
            block buffer n i := by
          by_cases hc : chosen t
          · rw [if_pos hc]
            exact block_copyInto_ne hshard ht fun hit => hchosen ⟨hit, hit ▸ hc⟩
          · rw [if_neg hc]
        rw [hsame, if_neg]
        rintro ⟨hmem, hc⟩
        rcases List.mem_cons.mp hmem with hit | hmem
        · exact hchosen ⟨hit, hc⟩
        · exact hi ⟨hmem, hc⟩

private theorem replicas_run {m n : ℕ} {sources targets : BitVec 32} {buffer : List UInt8} {s : ℕ}
    (hb : (1 + m) * n ≤ buffer.length)
    (hs : ((List.range (1 + m)).find? (sources.getLsbD ·)).getD 0 = s) (hlt : s < 1 + m) (i : ℕ) :
    (replicas.run 1 m n sources targets buffer).length = buffer.length ∧
    block (replicas.run 1 m n sources targets buffer) n i =
      if i < 1 + m ∧ targets.getLsbD i then block buffer n s else block buffer n i := by
  have hfit : ∀ t, t < 1 + m → (t + 1) * n ≤ buffer.length :=
    fun t ht => (Nat.mul_le_mul_right n ht).trans hb
  have hfold := foldl_copyInto (length_block (hfit s hlt)) targets.getLsbD
    (fun t ht => hfit t (List.mem_range.mp ht)) i
  by_cases hn : n = 0
  · subst hn
    simp [Codec.run, Codec.call, replicas, block, slice_self]
  · rw [Codec.run, Codec.call, replicas, Nat.mul_one]
    simp only [hn, if_false, hs, List.mem_range, Option.getD_some] at hfold ⊢
    exact hfold

theorem replicas_lawful : replicas.Lawful := by
  intro k m hcreate
  obtain ⟨⟨rfl, hpos⟩, hm⟩ : (k = 1 ∧ 0 < m) ∧ m ≤ 31 := by simpa [replicas] using hcreate
  have hsource : ∀ sources : BitVec 32,
      ((List.range (1 + m)).find? (sources.getLsbD ·)).getD 0 < 1 + m := by
    intro sources
    cases hfind : (List.range (1 + m)).find? (sources.getLsbD ·) with
    | none => exact Nat.lt_add_right m Nat.one_pos
    | some s => exact List.mem_range.mp (List.mem_of_find?_eq_some hfind)
  have hshard : ∀ {n : ℕ} {data : List UInt8}, data.length = 1 * n → ∀ i < 1 + m,
      replicas.shard 1 m n data i = block data n 0 := by
    intro n data hd i hi
    have hfirst : ((List.range (1 + m)).find? ((Codec.dataFlags 1).getLsbD ·)).getD 0 = 0 := by
      rw [Nat.add_comm, List.range_succ_eq_map]
      rfl
    have hfit : (1 + m) * n ≤ (data ++ List.replicate (m * n) (0 : UInt8)).length := by
      rw [List.length_append, List.length_replicate, Nat.add_mul, hd]
    have hfront : block (data ++ List.replicate (m * n) 0) n 0 = block data n 0 :=
      slice_append_left (by omega)
    by_cases h0 : i < 1
    · rw [Codec.shard_data _ _ _ h0, Nat.lt_one_iff.mp h0]
    · have hflag : (Codec.parityFlags 1 m).getLsbD i = true := by
        rw [Codec.mem_parityFlags (by omega) (by omega)]
        exact decide_eq_true ⟨by omega, hi⟩
      rw [Codec.shard, if_neg h0, Codec.codeword, (replicas_run hfit hfirst (by omega) i).2,
        if_pos ⟨hi, hflag⟩, hfront]
  refine ⟨by omega, hpos, ?_, ?_, ?_, ?_⟩
  · intro n sources targets buffer _ _ _ _ _
    simp only [Codec.call, replicas, Nat.mul_one]
    split_ifs with hn <;> simp [Nat.pos_iff_ne_zero, hn]
  · intro n sources targets buffer hb
    exact (replicas_run hb rfl (hsource sources) 0).1
  · intro n sources targets buffer i hb hi ht
    rw [(replicas_run hb rfl (hsource sources) i).2, if_neg (by rw [ht]; simp)]
  · intro n sources targets buffer data _ hd hb _ hcard hcorrect t ht htarget
    obtain ⟨s, hs⟩ : ((Finset.range (1 + m)).filter fun i => sources.getLsbD i = true).Nonempty :=
      Finset.card_pos.mp (by omega)
    obtain ⟨hlt, hflag⟩ := Finset.mem_filter.mp hs
    cases hfind : (List.range (1 + m)).find? (sources.getLsbD ·) with
    | none =>
      exact absurd hflag (List.find?_eq_none.mp hfind s
        (List.mem_range.mpr (Finset.mem_range.mp hlt)))
    | some s' =>
      have hlt' := List.mem_range.mp (List.mem_of_find?_eq_some hfind)
      have hrun := (@replicas_run m n sources targets buffer s' hb (by rw [hfind]; rfl) hlt' t).2
      rw [hrun, if_pos ⟨ht, htarget⟩, hcorrect s' hlt' (List.find?_some hfind), hshard hd s' hlt',
        hshard hd t ht]

end ErasureCode
