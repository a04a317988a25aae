import Strubs.ByteBuffer
import Strubs.MessageDigest
import Strubs.NewlineLog

/-! # Journal segments

A volume's journal directory holds numbered segments, each a log of lines. A segment is
rolled back to its last complete line before it is opened for appending, a rejected batch
is cut off again, and a directory is seeded from another one only where the shorter of two
copies is a prefix of the longer. Every system call may fail, also after its effect. -/
namespace JournalSegments

open ByteBuffer MessageDigest NewlineLog

def newline : UInt8 := 10

def chunkSize : ℕ := 64 * 1024

def compareSize : ℕ := 1024 * 1024

def lineageProbeBytes : ℕ := 4 * 1024 * 1024

/-- The segments in the order in which the directory is read, and their bytes. -/
structure Directory where
  names : List ℕ
  nodup : names.Nodup
  content : ℕ → Bytes

theorem nodup_firstSegment : [0].Nodup := by decide

/-- A call that fails before it has had its effect, or after it. -/
inductive Fault where
  | before
  | after
  deriving DecidableEq, Repr

namespace Directory

def empty : Directory := ⟨[], List.nodup_nil, fun _ => []⟩

def read (d : Directory) (n : ℕ) : Option Bytes :=
  if n ∈ d.names then some (d.content n) else none

def write (d : Directory) (n : ℕ) (bytes : Bytes) : Directory where
  names := if n ∈ d.names then d.names else d.names ++ [n]
  nodup := by
    split
    · exact d.nodup
    · next h => simpa [List.nodup_append, d.nodup] using fun a ha => ne_of_mem_of_not_mem ha h
  content := Function.update d.content n bytes

def lines (d : Directory) (n : ℕ) : List Bytes :=
  match d.read n with
  | some bytes => completeLines newline bytes
  | none => []

/-- The lines of the segments up to `top`, in order. -/
def history (d : Directory) (top : ℕ) : List Bytes :=
  (List.range (top + 1)).flatMap d.lines

end Directory

/-- Walks backwards, a chunk at a time, to the last newline before `stop`. -/
def lastNewline (size : ℕ) (bytes : Bytes) : ℕ → ℕ → Option ℕ
  | 0, _ => none
  | fuel + 1, stop =>
    if stop = 0 then none
    else
      let start := stop - size
      let chunk := slice bytes start stop
      match chunk.reverse.findIdx? (· = newline) with
      | some back => some (start + (chunk.length - 1 - back))
      | none => lastNewline size bytes fuel start

/-- Where the last complete line ends: all of the segment may be torn. -/
def completeLength (bytes : Bytes) : ℕ :=
  match lastNewline chunkSize bytes bytes.length bytes.length with
  | some i => i + 1
  | none => 0

def rollBackTornTail (fault : Option Fault) (d : Directory) (n : ℕ) : Bool × Directory :=
  match fault, d.read n with
  | some .before, _ => (false, d)
  | _, none => (true, d)
  | fault, some bytes =>
    if completeLength bytes = bytes.length then (true, d)
    else (fault.isNone, d.write n (bytes.take (completeLength bytes)))

def truncateSegmentTo (fault : Option Fault) (d : Directory) (n bytes : ℕ) :
    Bool × Directory :=
  match fault, d.read n with
  | some .before, _ => (false, d)
  | _, none => (true, d)
  | fault, some content =>
    if content.length ≤ bytes then (true, d)
    else (fault.isNone, d.write n (content.take bytes))

/-- The size of a segment that is opened for appending. It is created when it is not there. -/
def openSegment (rollback opening : Option Fault) (d : Directory) (n : ℕ) :
    Option ℕ × Directory :=
  match rollBackTornTail rollback d n with
  | (false, d) => (none, d)
  | (true, d) =>
    match opening with
    | some .before => (none, d)
    | opening =>
      let d := match d.read n with
        | some _ => d
        | none => d.write n []
      (if opening.isNone then some (d.content n).length else none, d)

/-- The first `length` bytes of both, a buffer at a time. -/
def agreeFrom (size : ℕ) (a b : Bytes) (length : ℕ) : ℕ → ℕ → Bool
  | 0, _ => true
  | fuel + 1, offset =>
    if offset < length then
      let want := min size (length - offset)
      let readA := slice a offset (offset + want)
      let readB := slice b offset (offset + want)
      if readA.length ≠ want ∨ readB.length ≠ want then false
      else if readA ≠ readB then false
      else agreeFrom size a b length fuel (offset + want)
    else true

def agreeOnPrefix (a b : Bytes) (length : ℕ) : Bool :=
  agreeFrom compareSize a b length length 0

def lowestShared (a b : Directory) : Option ℕ :=
  (a.names.filter (· ∈ b.names)).mergeSort.head?

/-- Whether two directories look like one history, by the lowest segment they share. -/
def sameLineage (a b : Directory) : Bool :=
  match lowestShared a b with
  | none => false
  | some n =>
    agreeOnPrefix (a.content n) (b.content n)
      (min (min (a.content n).length (b.content n).length) lineageProbeBytes)

inductive CopyError where
  | io
  | diverged (segment : ℕ)
  | noSegments
  deriving DecidableEq, Repr

/-- `stat` is a failure to look at the copy that is there, which is taken for its absence;
`copy` a failure before anything is copied, or one that leaves that many bytes. -/
structure CopyFaults where
  stat : ℕ → Bool
  copy : ℕ → Option (Option ℕ)

def copySegment (faults : CopyFaults) (src : Directory) (dst : Directory) (n : ℕ) :
    Except CopyError Unit × Directory :=
  let there := if faults.stat n then none else dst.read n
  let copying : Except CopyError Unit × Directory :=
    match faults.copy n with
    | some none => (.error .io, dst)
    | some (some written) => (.error .io, dst.write n ((src.content n).take written))
    | none => (.ok (), dst.write n (src.content n))
  match there with
  | none => copying
  | some content =>
    let shared := min (src.content n).length content.length
    if !agreeOnPrefix (src.content n) content shared then (.error (.diverged n), dst)
    else if (src.content n).length ≤ content.length then
      (if (faults.copy n).isNone then .ok () else .error .io, dst)
    else copying

def copyAll (faults : CopyFaults) (src : Directory) :
    List ℕ → Directory → Except CopyError Unit × Directory
  | [], dst => (.ok (), dst)
  | n :: names, dst =>
    match copySegment faults src dst n with
    | (.error e, dst) => (.error e, dst)
    | (.ok _, dst) => copyAll faults src names dst

def copySegments (faults : CopyFaults) (src dst : Directory) :
    Except CopyError Unit × Directory :=
  match src.names.mergeSort with
  | [] => (.error .noSegments, dst)
  | names => copyAll faults src names dst


namespace Directory

variable (d : Directory) (n m : ℕ) (bytes : Bytes)

@[simp] theorem mem_names_write : m ∈ (d.write n bytes).names ↔ m = n ∨ m ∈ d.names := by
  simp only [write]
  split <;> simp <;> grind

@[simp] theorem read_write : (d.write n bytes).read m = if m = n then some bytes else d.read m := by
  simp only [read, mem_names_write]
  by_cases h : m = n <;> simp [h, write]

theorem read_eq_some_iff : d.read n = some bytes ↔ n ∈ d.names ∧ d.content n = bytes := by
  simp [read]

theorem read_of_mem {d : Directory} {n : ℕ} (h : n ∈ d.names) : d.read n = some (d.content n) :=
  if_pos h

end Directory

/-- A copy that holds at least the lines of each segment holds the whole history. -/
theorem history_sublist {d d' : Directory} (h : ∀ n, (d.lines n).Sublist (d'.lines n))
    {top top' : ℕ} (htop : top ≤ top') : (d.history top).Sublist (d'.history top') := by
  have hsame : (d.history top).Sublist (d'.history top) := by
    simp only [Directory.history]
    generalize List.range (top + 1) = numbers
    induction numbers with
    | nil => simp
    | cons n numbers ih => simpa using (h n).append ih
  refine hsame.trans ?_
  obtain ⟨k, rfl⟩ := Nat.exists_eq_add_of_le htop
  simp only [Directory.history]
  rw [show top + k + 1 = (top + 1) + k by omega, List.range_add (n := top + 1),
    List.flatMap_append]
  exact List.sublist_append_left _ _

/-- The last newline of a chunk, by its distance from the chunk's end. -/
theorem lastIndexOf_spec {chunk : Bytes} {back : ℕ}
    (h : chunk.reverse.findIdx? (· = newline) = some back) :
    back < chunk.length ∧ chunk[chunk.length - 1 - back]? = some newline ∧
      ∀ j, chunk.length - 1 - back < j → chunk[j]? ≠ some newline := by
  obtain ⟨hback, hfound, hnone⟩ := List.findIdx?_eq_some_iff_getElem.mp h
  rw [List.length_reverse] at hback
  refine ⟨hback, ?_, ?_⟩
  · rw [List.getElem_reverse, decide_eq_true_eq] at hfound
    rw [List.getElem?_eq_getElem (by omega), hfound]
  · intro j hj hnl
    obtain ⟨hlt, hnl⟩ := List.getElem?_eq_some_iff.mp hnl
    have h := hnone (chunk.length - 1 - j) (by omega)
    rw [List.getElem_reverse, decide_eq_true_eq] at h
    apply h
    have hj' : chunk.length - 1 - (chunk.length - 1 - j) = j := by omega
    simpa [hj'] using hnl

theorem not_mem_slice {bytes : Bytes} {lo hi : ℕ}
    (h : ∀ j, lo ≤ j → j < hi → bytes[j]? ≠ some newline) : newline ∉ slice bytes lo hi := by
  intro hmem
  obtain ⟨j, hj⟩ := List.mem_iff_getElem?.mp hmem
  rw [getElem?_slice] at hj
  split at hj
  · exact h (lo + j) (by omega) (by omega) hj
  · cases hj

/-- What `lastNewline` finds is a newline, and there is none between it and the end. -/
theorem lastNewline_spec {size : ℕ} (hpos : 0 < size) (bytes : Bytes) (fuel stop : ℕ)
    (hfuel : stop ≤ fuel) (hstop : stop ≤ bytes.length) :
    match lastNewline size bytes fuel stop with
    | none => ∀ j < stop, bytes[j]? ≠ some newline
    | some i => i < stop ∧ bytes[i]? = some newline ∧
      ∀ j, i < j → j < stop → bytes[j]? ≠ some newline := by
  induction fuel generalizing stop with
  | zero =>
    intro j hj
    omega
  | succ fuel ih =>
    by_cases hzero : stop = 0
    · simp [lastNewline, hzero]
    · simp only [lastNewline, if_neg hzero]
      have hlen : (slice bytes (stop - size) stop).length = stop - (stop - size) := by
        rw [length_slice]
        omega
      have hget : ∀ j, stop - size ≤ j → j < stop →
          (slice bytes (stop - size) stop)[j - (stop - size)]? = bytes[j]? := by
        intro j hlo hhi
        rw [getElem?_slice, if_pos (by omega)]
        congr 1
        omega
      cases hfound : (slice bytes (stop - size) stop).reverse.findIdx? (· = newline) with
      | some back =>
        obtain ⟨hback, hnl, hafter⟩ := lastIndexOf_spec hfound
        simp only
        refine ⟨by omega, ?_, ?_⟩
        · rw [← hget _ (by omega) (by omega)]
          simpa using hnl
        · intro j hlo hhi
          rw [← hget j (by omega) hhi]
          exact hafter _ (by omega)
      | none =>
        have hnone : ∀ j, stop - size ≤ j → j < stop → bytes[j]? ≠ some newline := by
          intro j hlo hhi hnl
          rw [← hget j hlo hhi] at hnl
          have hmem := List.mem_of_getElem? hnl
          rw [List.findIdx?_eq_none_iff] at hfound
          simpa using hfound newline (List.mem_reverse.mpr hmem)
        have ih := ih (stop - size) (by omega) (by omega)
        simp only
        generalize lastNewline size bytes fuel (stop - size) = found at ih ⊢
        cases found with
        | none =>
          intro j hj
          by_cases hlo : stop - size ≤ j
          · exact hnone j hlo hj
          · exact ih j (by omega)
        | some i =>
          refine ⟨by have := ih.1; omega, ih.2.1, ?_⟩
          intro j hi hj
          by_cases hlo : stop - size ≤ j
          · exact hnone j hlo hj
          · exact ih.2.2 j hi (by omega)

/-- The segment is rolled back to exactly its last complete line. -/
theorem take_completeLength (bytes : Bytes) :
    bytes.take (completeLength bytes) = complete newline bytes := by
  rw [completeLength]
  have h := (@lastNewline_spec chunkSize) (by norm_num [chunkSize]) bytes bytes.length
    bytes.length le_rfl le_rfl
  generalize lastNewline chunkSize bytes bytes.length bytes.length = found at h ⊢
  cases found with
  | none =>
    have hnone : newline ∉ bytes := by
      intro hmem
      obtain ⟨j, hj⟩ := List.mem_iff_getElem?.mp hmem
      exact h j (List.getElem?_eq_some_iff.mp hj).1 hj
    simpa using (complete_append (atBoundary_nil newline) hnone).symm
  | some i =>
    obtain ⟨hi, hnl, hafter⟩ := h
    have hboundary : AtBoundary newline (bytes.take (i + 1)) := by
      rw [List.take_succ_eq_append_getElem hi, (List.getElem?_eq_some_iff.mp hnl).2]
      exact atBoundary_concat _
    have htail : newline ∉ bytes.drop (i + 1) := by
      have := (@not_mem_slice bytes (i + 1) bytes.length)
        fun j hlo hhi => hafter j hlo hhi
      rwa [slice, List.take_length] at this
    rw [← complete_append hboundary htail, List.take_append_drop]


/-- A copy with the same lines, in the same segments or more. -/
structure SameLines (d d' : Directory) : Prop where
  names : d.names ⊆ d'.names
  lines : ∀ n, d'.lines n = d.lines n

theorem SameLines.refl (d : Directory) : SameLines d d := ⟨List.Subset.refl _, fun _ => rfl⟩

theorem SameLines.trans {a b c : Directory} (h : SameLines a b) (h' : SameLines b c) :
    SameLines a c :=
  ⟨List.Subset.trans h.names h'.names, fun n => (h'.lines n).trans (h.lines n)⟩

theorem sameLines_write {d : Directory} {n : ℕ} {bytes : Bytes}
    (h : completeLines newline bytes = d.lines n) : SameLines d (d.write n bytes) := by
  refine ⟨fun m hm => by simp [hm], fun m => ?_⟩
  by_cases hm : m = n
  · subst hm
    simpa [Directory.lines] using h
  · simp [Directory.lines, hm]

/-- A roll back removes a torn record and nothing else, or nothing. -/
theorem rollBackTornTail_cases (fault : Option Fault) (d : Directory) (n : ℕ) :
    (rollBackTornTail fault d n).2 = d ∧ ((rollBackTornTail fault d n).1 →
      ∀ bytes, d.read n = some bytes → AtBoundary newline bytes) ∨
    ∃ bytes, d.read n = some bytes ∧
      (rollBackTornTail fault d n).2 = d.write n (complete newline bytes) := by
  rcases hread : d.read n with _ | bytes
  · left
    rcases fault with _ | (_ | _) <;> simp [rollBackTornTail, hread]
  · have hcomplete := take_completeLength bytes
    simp only [rollBackTornTail, hread]
    by_cases hk : completeLength bytes = bytes.length
    · left
      have hbytes : AtBoundary newline bytes := by
        rw [hk, List.take_length] at hcomplete
        exact hcomplete ▸ atBoundary_complete bytes
      rcases fault with _ | (_ | _) <;> simp [hk, hbytes]
    · rcases fault with _ | (_ | _)
      · right
        exact ⟨bytes, rfl, by simp [hk, hcomplete]⟩
      · left
        simp
      · right
        exact ⟨bytes, rfl, by simp [hk, hcomplete]⟩

theorem rollBackTornTail_sameLines (fault : Option Fault) (d : Directory) (n : ℕ) :
    SameLines d (rollBackTornTail fault d n).2 := by
  rcases rollBackTornTail_cases fault d n with ⟨h, _⟩ | ⟨bytes, hread, h⟩
  · rw [h]
    exact .refl d
  · rw [h]
    apply sameLines_write
    simp [Directory.lines, hread]

theorem rollBackTornTail_boundary {fault : Option Fault} {d : Directory} {n : ℕ}
    (hok : (rollBackTornTail fault d n).1) {bytes : Bytes}
    (h : (rollBackTornTail fault d n).2.read n = some bytes) : AtBoundary newline bytes := by
  rcases rollBackTornTail_cases fault d n with ⟨heq, hb⟩ | ⟨bytes', hread, heq⟩
  · rw [heq] at h
    exact hb hok bytes h
  · rw [heq, Directory.read_write, if_pos rfl] at h
    exact Option.some.inj h ▸ atBoundary_complete bytes'

/-- No record is cut in half. -/
def EndsLine (bytes : Bytes) : Prop := bytes = [] ∨ bytes.getLast? = some newline

/-- Of what a segment begins with, the longest part that cuts no record in half. -/
structure LongestWhole (bytes whole : Bytes) : Prop where
  initial : whole <+: bytes
  endsLine : EndsLine whole
  longest : ∀ p, p <+: bytes → EndsLine p → p.length ≤ whole.length

/-- A newline with none after it. -/
structure IsLastNewline (bytes : Bytes) (i : ℕ) : Prop where
  newline : bytes[i]? = some newline
  last : ∀ j, i < j → bytes[j]? ≠ some JournalSegments.newline

/-- What a roll back leaves of a segment, when no call fails. -/
structure RollsBack (d : Directory) (n : ℕ) (bytes : Bytes) : Prop where
  rolled : ∃ whole, LongestWhole bytes whole ∧
    rollBackTornTail none d n = (true, d.write n whole)
  unchanged : EndsLine bytes → rollBackTornTail none d n = (true, d)
  idempotent : rollBackTornTail none (rollBackTornTail none d n).2 n = rollBackTornTail none d n
  scan : ∀ fuel ≥ bytes.length, ∀ i,
    lastNewline chunkSize bytes fuel bytes.length = some i ↔ IsLastNewline bytes i

theorem longestWhole_complete (bytes : Bytes) : LongestWhole bytes (complete newline bytes) where
  initial := complete_prefix bytes
  endsLine := atBoundary_iff.mp (atBoundary_complete bytes)
  longest _ hp hends := (prefix_complete (atBoundary_iff.mpr hends) hp).length_le

/-- The walk may take any number of steps more than it needs, and the blocks any size. -/
theorem lastNewline_eq_some_iff {size : ℕ} (hpos : 0 < size) {bytes : Bytes} {fuel : ℕ}
    (hfuel : bytes.length ≤ fuel) {i : ℕ} :
    lastNewline size bytes fuel bytes.length = some i ↔ IsLastNewline bytes i := by
  have h := lastNewline_spec hpos bytes fuel bytes.length hfuel le_rfl
  generalize lastNewline size bytes fuel bytes.length = found at h
  have hinside : ∀ {j}, bytes[j]? = some newline → j < bytes.length := fun hj =>
    (List.getElem?_eq_some_iff.mp hj).1
  cases found with
  | none =>
    constructor
    · intro hfound
      cases hfound
    · intro hlast
      exact absurd hlast.newline (h i (hinside hlast.newline))
  | some k =>
    obtain ⟨hk, hnl, hafter⟩ := h
    have hkLast : IsLastNewline bytes k := ⟨hnl, fun j hj hjnl => hafter j hj (hinside hjnl) hjnl⟩
    constructor
    · intro hfound
      exact Option.some.inj hfound ▸ hkLast
    · intro hlast
      rcases Nat.lt_trichotomy i k with hlt | rfl | hlt
      · exact absurd hnl (hlast.last k hlt)
      · rfl
      · exact absurd hlast.newline (hkLast.last i hlt)

theorem write_of_read {d : Directory} {n : ℕ} {bytes : Bytes} (h : d.read n = some bytes) :
    d.write n bytes = d := by
  obtain ⟨names, nodup, content⟩ := d
  simp only [Directory.read] at h
  split at h
  · next hmem =>
    obtain rfl := Option.some.inj h
    simp [Directory.write, hmem]
  · cases h

theorem rollBackTornTail_eq {d : Directory} {n : ℕ} {bytes : Bytes}
    (h : d.read n = some bytes) :
    rollBackTornTail none d n = (true, d.write n (complete newline bytes)) := by
  have hcomplete := take_completeLength bytes
  simp only [rollBackTornTail, h]
  by_cases hwhole : completeLength bytes = bytes.length
  · rw [hwhole, List.take_length] at hcomplete
    rw [if_pos hwhole, ← hcomplete, write_of_read h]
  · rw [if_neg hwhole, hcomplete]
    rfl

/-- A segment is rolled back to the longest part that ends with a newline, wherever the blocks
of the walk begin. -/
theorem rollBackTornTail_longest {d : Directory} {n : ℕ} {bytes : Bytes}
    (h : d.read n = some bytes) : RollsBack d n bytes where
  rolled := ⟨complete newline bytes, longestWhole_complete bytes, rollBackTornTail_eq h⟩
  unchanged hends := by
    rw [rollBackTornTail_eq h, complete_of_atBoundary (atBoundary_iff.mpr hends), write_of_read h]
  idempotent := by
    have hrolled : (d.write n (complete newline bytes)).read n =
        some (complete newline bytes) := by
      rw [Directory.read_write, if_pos rfl]
    rw [rollBackTornTail_eq h, rollBackTornTail_eq hrolled,
      complete_of_atBoundary (atBoundary_complete bytes), write_of_read hrolled]
  scan _ hfuel _ := lastNewline_eq_some_iff (by norm_num [chunkSize]) hfuel

/-- A record is torn after one that is whole. -/
def tornSegment : Directory := Directory.empty.write 0 [97, newline, 98]

theorem rollBackTornTail_torn : tornSegment.read 0 = some [97, newline, 98] ∧
    RollsBack tornSegment 0 [97, newline, 98] := by
  have hread : tornSegment.read 0 = some [97, newline, 98] := by decide
  exact ⟨hread, rollBackTornTail_longest hread⟩

/-- Opening a segment loses no line and takes no other segment with it. -/
theorem openSegment_sameLines (rollback opening : Option Fault) (d : Directory) (n : ℕ) :
    SameLines d (openSegment rollback opening d n).2 := by
  have h := rollBackTornTail_sameLines rollback d n
  simp only [openSegment]
  generalize rollBackTornTail rollback d n = rolled at h
  obtain ⟨ok, d₁⟩ := rolled
  cases ok with
  | false => exact h
  | true =>
    have hcreate : SameLines d₁ (match d₁.read n with
        | some _ => d₁
        | none => d₁.write n []) := by
      cases hread : d₁.read n with
      | some bytes => exact .refl d₁
      | none => exact sameLines_write (by simp [Directory.lines, hread])
    rcases opening with _ | (_ | _)
    · exact h.trans hcreate
    · exact h
    · exact h.trans hcreate

/-- A segment that was opened ends at a boundary, and its size is known. -/
theorem openSegment_some {rollback opening : Option Fault} {d d' : Directory} {n size : ℕ}
    (h : openSegment rollback opening d n = (some size, d')) :
    n ∈ d'.names ∧ size = (d'.content n).length ∧ AtBoundary newline (d'.content n) := by
  have hb := (@rollBackTornTail_boundary rollback d n)
  simp only [openSegment] at h
  generalize rollBackTornTail rollback d n = rolled at h hb
  obtain ⟨ok, d₁⟩ := rolled
  cases ok with
  | false => cases h
  | true =>
    rcases opening with _ | (_ | _)
    · cases hread : d₁.read n with
      | some bytes =>
        have hbytes := hb rfl hread
        simp only [hread, Option.isNone_none, ↓reduceIte, Prod.mk.injEq, Option.some.injEq] at h
        obtain ⟨rfl, rfl⟩ := h
        obtain ⟨hmem, rfl⟩ := (Directory.read_eq_some_iff _ _ _).mp hread
        exact ⟨hmem, rfl, hbytes⟩
      | none =>
        simp only [hread, Option.isNone_none, ↓reduceIte, Prod.mk.injEq, Option.some.injEq] at h
        obtain ⟨rfl, rfl⟩ := h
        have hcontent : (d₁.write n []).content n = [] := by simp [Directory.write]
        refine ⟨by simp, rfl, ?_⟩
        rw [hcontent]
        exact atBoundary_nil newline
    · cases h
    · simp at h

theorem truncateSegmentTo_other (fault : Option Fault) (d : Directory) (n bytes : ℕ) {m : ℕ}
    (hm : m ≠ n) : (truncateSegmentTo fault d n bytes).2.read m = d.read m := by
  rcases hread : d.read n with _ | content <;> rcases fault with _ | (_ | _) <;>
    simp only [truncateSegmentTo, hread]
  all_goals split <;> simp [hm]

/-- A truncation that succeeds leaves at most the bytes it was asked to keep. -/
theorem truncateSegmentTo_ok {fault : Option Fault} {d : Directory} {n bytes : ℕ}
    (h : (truncateSegmentTo fault d n bytes).1) :
    (truncateSegmentTo fault d n bytes).2.read n = (d.read n).map (·.take bytes) := by
  rcases hread : d.read n with _ | content
  · rcases fault with _ | (_ | _) <;> simp [truncateSegmentTo, hread]
  · rcases fault with _ | (_ | _)
    · simp only [truncateSegmentTo, hread, Option.isNone_none]
      split
      · next hle => simp [hread, List.take_of_length_le hle]
      · simp
    · simp [truncateSegmentTo] at h
    · simp only [truncateSegmentTo, hread, Option.isNone_some] at h ⊢
      split
      · next hle => simp [hread, List.take_of_length_le hle]
      · next hgt => simp [hgt] at h

theorem agreeFrom_iff {size : ℕ} (hpos : 0 < size) (a b : Bytes) (length fuel offset : ℕ)
    (hfuel : length ≤ fuel + offset) : agreeFrom size a b length fuel offset ↔
      (offset < length → length ≤ a.length ∧ length ≤ b.length ∧
        slice a offset length = slice b offset length) := by
  induction fuel generalizing offset with
  | zero => simp [agreeFrom]; omega
  | succ fuel ih =>
    simp only [agreeFrom]
    by_cases hlt : offset < length
    · obtain ⟨want, hwant⟩ : ∃ want, want = min size (length - offset) := ⟨_, rfl⟩
      have ih := ih (offset + want) (by omega)
      simp only [hlt, ↓reduceIte, ← hwant, length_slice, forall_const]
      by_cases hshort : min (offset + want) a.length - offset ≠ want ∨
          min (offset + want) b.length - offset ≠ want
      · rw [if_pos hshort]
        simp only [Bool.false_eq_true, false_iff]
        omega
      · have hsplit : ∀ c : Bytes, min (offset + want) c.length - offset = want →
            slice c offset length =
              slice c offset (offset + want) ++ slice c (offset + want) length := fun c hc =>
          (slice_append_slice c (by omega) (by omega) (by omega)).symm
        rw [if_neg hshort, hsplit a (by omega), hsplit b (by omega)]
        by_cases hne : slice a offset (offset + want) = slice b offset (offset + want)
        · simp only [hne, ne_eq, not_true_eq_false, ↓reduceIte, ih, List.append_cancel_left_eq]
          by_cases hend : offset + want < length
          · simp [hend]
          · have hempty : ∀ c : Bytes, slice c (offset + want) length = [] := fun c =>
              slice_eq_nil_of_le (by omega)
            simp only [hend, false_implies, hempty, and_true, true_iff]
            omega
        · simp only [ne_eq, hne, not_false_eq_true, ↓reduceIte, Bool.false_eq_true, false_iff]
          intro h
          exact hne (List.append_inj h.2.2 (by rw [length_slice, length_slice]; omega)).1
    · simp [hlt]

theorem agreeOnPrefix_iff (a b : Bytes) (length : ℕ) : agreeOnPrefix a b length ↔
    length ≤ a.length ∧ length ≤ b.length ∧ a.take length = b.take length := by
  rw [agreeOnPrefix, agreeFrom_iff (by norm_num [compareSize]) a b length length 0 (by omega),
    slice_zero, slice_zero]
  cases length with
  | zero => simp
  | succ n => simp

theorem lowestShared_eq_some_iff (a b : Directory) (n : ℕ) : lowestShared a b = some n ↔
    n ∈ a.names ∧ n ∈ b.names ∧ ∀ m ∈ a.names, m ∈ b.names → n ≤ m := by
  have hperm := List.mergeSort_perm (a.names.filter (· ∈ b.names)) (fun m n => decide (m ≤ n))
  have hsorted := (@List.pairwise_mergeSort _ (fun m n : ℕ => decide (m ≤ n)))
    (fun a b c => by simp only [decide_eq_true_eq]; omega)
    (fun a b => by simp only [Bool.or_eq_true, decide_eq_true_eq]; omega)
    (a.names.filter (· ∈ b.names))
  have hmem : ∀ m, m ∈ (a.names.filter (· ∈ b.names)).mergeSort ↔
      m ∈ a.names ∧ m ∈ b.names := fun m => by simp [hperm.mem_iff]
  simp only [lowestShared]
  generalize (a.names.filter (· ∈ b.names)).mergeSort = sorted at hsorted hmem
  cases sorted with
  | nil =>
    simp only [List.not_mem_nil, false_iff] at hmem
    simp only [List.head?_nil, reduceCtorEq, false_iff]
    exact fun h => hmem n ⟨h.1, h.2.1⟩
  | cons k rest =>
    simp only [List.head?_cons, Option.some.injEq]
    have hk := (hmem k).mp (by simp)
    have hleast : ∀ m ∈ a.names, m ∈ b.names → k ≤ m := by
      intro m ha hb
      rcases List.mem_cons.mp ((hmem m).mpr ⟨ha, hb⟩) with rfl | hm
      · exact le_rfl
      · simpa using List.rel_of_pairwise_cons hsorted hm
    constructor
    · rintro rfl
      exact ⟨hk.1, hk.2, hleast⟩
    · rintro ⟨ha, hb, hn⟩
      exact le_antisymm (hleast n ha hb) (hn k hk.1 hk.2)

/-- The copies agree as far as both go and the probe reads. -/
def AgreeOnProbe (a b : Bytes) : Prop :=
  a.take (min (min a.length b.length) lineageProbeBytes) =
    b.take (min (min a.length b.length) lineageProbeBytes)

/-- What agrees as far as it is compared, and is compared to the end of one of the two, is a
prefix of the other. -/
theorem AgreeOnProbe.comparable {a b : Bytes} (h : AgreeOnProbe a b)
    (hprobe : min a.length b.length ≤ lineageProbeBytes) : a <+: b ∨ b <+: a := by
  rw [AgreeOnProbe, min_eq_left hprobe] at h
  rcases le_total a.length b.length with hle | hle
  · left
    rw [min_eq_left hle, List.take_length] at h
    exact List.prefix_iff_eq_take.mpr h
  · right
    rw [min_eq_right hle, List.take_length] at h
    exact List.prefix_iff_eq_take.mpr h.symm

theorem sameLineage_iff (a b : Directory) : sameLineage a b ↔
    ∃ n, lowestShared a b = some n ∧ AgreeOnProbe (a.content n) (b.content n) := by
  simp only [sameLineage, AgreeOnProbe]
  cases lowestShared a b with
  | none => simp
  | some n =>
    simp only [agreeOnPrefix_iff, Option.some.injEq, exists_eq_left']
    constructor
    · exact fun h => h.2.2
    · exact fun h => ⟨by omega, by omega, h⟩

theorem lowestShared_comm (a b : Directory) : lowestShared a b = lowestShared b a := by
  apply Option.ext
  intro n
  rw [lowestShared_eq_some_iff, lowestShared_eq_some_iff]
  grind

theorem sameLineage_symm {a b : Directory} (h : sameLineage a b) : sameLineage b a := by
  obtain ⟨n, hn, hagree⟩ := (sameLineage_iff a b).mp h
  refine (sameLineage_iff b a).mpr ⟨n, lowestShared_comm a b ▸ hn, ?_⟩
  rw [AgreeOnProbe, min_comm (b.content n).length]
  exact hagree.symm

theorem sameLineage_self {a : Directory} (h : a.names ≠ []) : sameLineage a a := by
  have hsome : (lowestShared a a).isSome := by
    have : (a.names.filter (· ∈ a.names)).mergeSort ≠ [] := by
      rw [Ne, ← List.length_eq_zero_iff, List.length_mergeSort, List.length_eq_zero_iff]
      simpa using List.exists_mem_of_ne_nil _ h
    simpa [lowestShared] using this
  obtain ⟨n, hn⟩ := Option.isSome_iff_exists.mp hsome
  exact (sameLineage_iff a a).mpr ⟨n, hn, rfl⟩

theorem copySegment_other (faults : CopyFaults) (src dst : Directory) {n m : ℕ} (hm : m ≠ n) :
    (copySegment faults src dst n).2.read m = dst.read m := by
  have hcopying : (match faults.copy n with
      | some none => ((.error .io, dst) : Except CopyError Unit × Directory)
      | some (some written) => (.error .io, dst.write n ((src.content n).take written))
      | none => (.ok (), dst.write n (src.content n))).2.read m = dst.read m := by
    split <;> simp [hm]
  simp only [copySegment]
  split
  · exact hcopying
  · split
    · rfl
    · split
      · rfl
      · exact hcopying

theorem copySegment_ok {faults : CopyFaults} {src dst dst' : Directory} {n : ℕ}
    (h : copySegment faults src dst n = (.ok (), dst')) :
    n ∈ dst'.names ∧ src.content n <+: dst'.content n := by
  have hcopying : (match faults.copy n with
      | some none => ((.error .io, dst) : Except CopyError Unit × Directory)
      | some (some written) => (.error .io, dst.write n ((src.content n).take written))
      | none => (.ok (), dst.write n (src.content n))) = (.ok (), dst') →
      n ∈ dst'.names ∧ src.content n <+: dst'.content n := by
    intro h
    split at h
    · cases h
    · cases h
    · cases h
      refine ⟨by simp, ?_⟩
      simp [Directory.write]
  simp only [copySegment] at h
  split at h
  · exact hcopying h
  · next content hthere =>
    split at h
    · cases h
    · next hagree =>
      split at h
      · next hle =>
        obtain rfl : dst = dst' := (Prod.mk.inj h).2
        have hread : dst.read n = some content := by
          split at hthere
          · cases hthere
          · exact hthere
        obtain ⟨hmem, rfl⟩ := (Directory.read_eq_some_iff _ _ _).mp hread
        refine ⟨hmem, ?_⟩
        rw [Bool.not_eq_true', Bool.not_eq_false, agreeOnPrefix_iff, min_eq_left hle,
          List.take_length] at hagree
        exact List.prefix_iff_eq_take.mpr hagree.2.2
      · exact hcopying h

theorem copyAll_spec (faults : CopyFaults) (src : Directory) (names : List ℕ) (dst : Directory) :
    (∀ m ∉ names, (copyAll faults src names dst).2.read m = dst.read m) ∧
    ((copyAll faults src names dst).1 = .ok () → ∀ n,
      n ∈ names ∨ n ∈ dst.names ∧ src.content n <+: dst.content n →
      n ∈ (copyAll faults src names dst).2.names ∧
        src.content n <+: (copyAll faults src names dst).2.content n) := by
  induction names generalizing dst with
  | nil => simp [copyAll]
  | cons k names ih =>
    have hother := fun m (hm : m ≠ k) => copySegment_other faults src dst hm
    have hok := fun dst' => (@copySegment_ok faults src dst dst' k)
    simp only [copyAll]
    generalize copySegment faults src dst k = copied at hother hok
    obtain ⟨result, dst'⟩ := copied
    cases result with
    | error e =>
      exact ⟨fun m hm => hother m fun h => hm (h ▸ List.mem_cons_self), fun h => by cases h⟩
    | ok _ =>
      obtain ⟨ih₁, ih₂⟩ := ih dst'
      constructor
      · intro m hm
        rw [List.mem_cons, not_or] at hm
        exact (ih₁ m hm.2).trans (hother m hm.1)
      · intro hall n hn
        apply ih₂ hall
        by_cases hk : n = k
        · subst hk
          exact .inr (hok dst' rfl)
        · rcases hn with hn | hn
          · exact .inl ((List.mem_cons.mp hn).resolve_left hk)
          · have hread := hother n hk
            rw [Directory.read_of_mem hn.1, Directory.read_eq_some_iff] at hread
            exact .inr ⟨hread.1, hread.2 ▸ hn.2⟩

theorem copySegments_other (faults : CopyFaults) (src dst : Directory) {m : ℕ}
    (hm : m ∉ src.names) : (copySegments faults src dst).2.read m = dst.read m := by
  simp only [copySegments]
  split
  · rfl
  · apply (copyAll_spec faults src _ dst).1
    simpa using hm

/-- A directory that has every segment of another one, as far as it goes there. -/
def Covers (d d' : Directory) : Prop :=
  ∀ n ∈ d.names, n ∈ d'.names ∧ d.content n <+: d'.content n

theorem Covers.lines {d d' : Directory} (h : Covers d d') (n : ℕ) :
    (d.lines n).Sublist (d'.lines n) := by
  by_cases hn : n ∈ d.names
  · obtain ⟨hmem, hpre⟩ := h n hn
    simp only [Directory.lines, Directory.read_of_mem hn, Directory.read_of_mem hmem]
    exact (completeLines_mono hpre).sublist
  · simp [Directory.lines, Directory.read, hn]

/-- A seed that succeeds gives the target at least the source's history. -/
theorem copySegments_ok {faults : CopyFaults} {src dst : Directory}
    (h : (copySegments faults src dst).1 = .ok ()) :
    Covers src (copySegments faults src dst).2 := by
  intro n hn
  simp only [copySegments] at h ⊢
  split at h
  · cases h
  · exact (copyAll_spec faults src _ dst).2 h n (.inl (by simpa using hn))

end JournalSegments
