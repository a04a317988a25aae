import Strubs.InsertionMap
import Strubs.NamespaceRecord
import Mathlib.Data.List.Sort
import Mathlib.Data.Prod.Lex
import Mathlib.Data.Nat.Basic

/-! # An object's record, from its slices

The headers of the slices vote on what the object looks like. A slice on a disk that does not
answer is unknown, which is neither there nor gone. -/
namespace RecordSynthesis

open InsertionMap NamespaceRecord

def maxSlices : ℕ := 32

structure Shape where
  size : ℕ
  dataSliceCount : ℕ
  paritySliceCount : ℕ
  chunkSize : ℕ
  deriving DecidableEq, Repr

def Shape.total (s : Shape) : ℕ := s.dataSliceCount + s.paritySliceCount

/-- The fields of a header, before they are checked. -/
structure HeaderFields where
  id : Text
  size : ℤ
  dataSliceCount : ℕ
  paritySliceCount : ℕ
  sliceIndex : ℕ
  chunkSize : ℤ
  deriving DecidableEq

/-- What is found where a slice should be. -/
inductive SliceContents where
  | absent
  | unopenable
  | unreadable
  | short
  | noMagic
  | fields (h : HeaderFields)
  deriving DecidableEq

structure SliceHeader where
  id : Text
  shape : Shape
  sliceIndex : ℕ
  deriving DecidableEq

inductive HeaderRead where
  | ok (header : SliceHeader)
  | absent
  | corrupt
  | unreadable
  deriving DecidableEq

/-- A header whose checksum does not match is as good as another one, if it makes sense and
the file's name says the same slice. -/
def checkHeader (fromName : ℕ) (h : HeaderFields) : HeaderRead :=
  if h.dataSliceCount < 1 then .corrupt
  else if h.dataSliceCount + h.paritySliceCount > maxSlices then .corrupt
  else if h.sliceIndex ≥ h.dataSliceCount + h.paritySliceCount then .corrupt
  else if h.chunkSize ≤ 0 ∨ h.size < 0 then .corrupt
  else if fromName ≠ h.sliceIndex then .corrupt
  else
    .ok ⟨h.id, ⟨h.size.toNat, h.dataSliceCount, h.paritySliceCount, h.chunkSize.toNat⟩,
      h.sliceIndex⟩

def readSliceHeaderResult (fromName : ℕ) : SliceContents → HeaderRead
  | .absent => .absent
  | .unopenable => .unreadable
  | .unreadable => .unreadable
  | .short => .corrupt
  | .noMagic => .corrupt
  | .fields h => checkHeader fromName h

/-- Where the index found each slice first, as the volume's id and one more. Zero is nowhere. -/
abbrev Slots := Vector ℕ maxSlices

def slot (slots : Slots) (i : ℕ) : ℕ := (slots[i]?).getD 0

structure Geometry where
  dataSlices : ℕ
  paritySlices : ℕ
  deriving DecidableEq

/-- The record the database would have held. Without a header there is no size. -/
structure SynthesisedRecord where
  id : Text
  size : Option ℕ
  chunkSize : Option ℕ
  dataVolumes : List ℕ
  parityVolumes : List ℕ
  deriving DecidableEq

inductive Reason where
  | ok
  | belowQuorum
  | uncorroboratedGeometry
  | indeterminate
  deriving DecidableEq, Repr

structure Synthesised where
  record : Option SynthesisedRecord
  recoverable : Bool
  found : ℕ
  needed : ℕ
  unknown : ℕ
  reason : Reason
  deriving DecidableEq

/-- The votes for one shape: the disks that vouch for it, and its slices. -/
structure Tally where
  header : SliceHeader
  volumes : List ℕ
  slices : ℕ
  deriving DecidableEq

def Tally.rank (t : Tally) : ℕ ×ₗ ℕ := toLex (t.volumes.length, t.slices)

section Synthesis

variable (id : Text) (mounted : ℕ → Bool) (contents : ℕ → ℕ → SliceContents)

def present (slots : Slots) : List ℕ := (List.range maxSlices).filter (slot slots · ≠ 0)

/-- The copy of a slice that the index knows. -/
def readIndexed (slots : Slots) (i : ℕ) : HeaderRead :=
  if slot slots i = 0 ∨ ¬mounted (slot slots i - 1) then .absent
  else readSliceHeaderResult i (contents (slot slots i - 1) i)

def usable : HeaderRead → Option SliceHeader
  | .ok h => if h.id = id then some h else none
  | _ => none

def header (slots : Slots) (i : ℕ) : Option SliceHeader :=
  usable id (readIndexed mounted contents slots i)

/-- The indexed copy of the slice can be read with this shape. -/
def backs (slots : Slots) (shape : Shape) (i : ℕ) : Bool :=
  (header id mounted contents slots i).any (·.shape = shape)

def Tally.vote (t : Tally) (volume : ℕ) : Tally :=
  { t with volumes := t.volumes.insert volume, slices := t.slices + 1 }

def vote (slots : Slots) (votes : Table Shape Tally) (i : ℕ) : Table Shape Tally :=
  match header id mounted contents slots i with
  | none => votes
  | some h =>
    votes.set h.shape (((votes.get h.shape).getD ⟨h, [], 0⟩).vote (slot slots i - 1))

def countVotes (slots : Slots) : Table Shape Tally :=
  (present slots).foldl (vote id mounted contents slots) Table.empty

def readable (slots : Slots) : ℕ :=
  (present slots).countP fun i => (header id mounted contents slots i).isSome

def unreadableSlices (slots : Slots) : List ℕ :=
  (present slots).filter fun i => readIndexed mounted contents slots i = .unreadable

def volumeOr (slots : Slots) (placeholder i : ℕ) : ℕ :=
  if slot slots i = 0 then placeholder else slot slots i - 1

def volumesFrom (slots : Slots) (placeholder start count : ℕ) : List ℕ :=
  (List.range count).map fun i => volumeOr slots placeholder (start + i)

/-- Not one header could be read. Whether the slices that are unknown could reach a quorum is
judged by the fleet's geometry. -/
def synthesiseUnread (slots : Slots) (placeholder : ℕ) (fleetGeometry : Option Geometry) :
    Option Synthesised :=
  let unknown := unreadableSlices mounted contents slots
  if unknown = [] then none
  else
    match fleetGeometry with
    | none => some ⟨none, false, 0, 0, unknown.length, .indeterminate⟩
    | some g =>
      if g.dataSlices ≤ (unknown.filter (· < g.dataSlices + g.paritySlices)).length then
        some ⟨some ⟨id, none, none, volumesFrom slots placeholder 0 g.dataSlices,
          volumesFrom slots placeholder g.dataSlices g.paritySlices⟩, false, 0, g.dataSlices,
          unknown.length, .indeterminate⟩
      else none

/-- What looking for the other copies of slices has brought up. -/
structure Rescue where
  found : ℕ
  unknown : List ℕ
  volumes : List ℕ
  deriving DecidableEq

/-- The first volume with a good copy, and whether a volume before it did not answer. -/
def findCopy (shape : Shape) (already : Option ℕ) (i : ℕ) : List ℕ → Option ℕ × Bool
  | [] => (none, false)
  | p :: platters =>
    if some p = already then findCopy shape already i platters
    else
      match readSliceHeaderResult i (contents p i) with
      | .unreadable => ((findCopy shape already i platters).1, true)
      | .ok h =>
        if h.id = id ∧ h.shape = shape then (some p, false)
        else findCopy shape already i platters
      | .absent => findCopy shape already i platters
      | .corrupt => findCopy shape already i platters

def rescueSlice (slots : Slots) (platters : List ℕ) (shape : Shape) (r : Rescue) (i : ℕ) : Rescue :=
  if shape.dataSliceCount ≤ r.found then r
  else if backs id mounted contents slots shape i then r
  else
    let already := if slot slots i = 0 then none else some (slot slots i - 1)
    match findCopy id contents shape already i platters with
    | (some p, _) => ⟨r.found + 1, r.unknown.filter (· ≠ i), r.volumes.set i p⟩
    | (none, true) => { r with unknown := r.unknown.insert i }
    | (none, false) => r

def rescue (slots : Slots) (platters : List ℕ) (shape : Shape) (r : Rescue) : Rescue :=
  (List.range shape.total).foldl (rescueSlice id mounted contents slots platters shape) r

/-- The verdict on an object whose shape is settled. -/
def judge (shape : Shape) (r : Rescue) : Synthesised :=
  let corroborated := 2 ≤ r.found
  let recoverable := corroborated ∧ shape.dataSliceCount ≤ r.found
  let unknownInGeometry := (r.unknown.filter (· < shape.total)).length
  let indeterminate := ¬recoverable ∧ 0 < unknownInGeometry ∧
    shape.dataSliceCount ≤ r.found + unknownInGeometry
  { record := some ⟨id, some shape.size, some shape.chunkSize,
      r.volumes.take shape.dataSliceCount, r.volumes.drop shape.dataSliceCount⟩
    recoverable := recoverable
    found := r.found
    needed := shape.dataSliceCount
    unknown := unknownInGeometry
    reason := if recoverable then .ok
      else if indeterminate then .indeterminate
      else if corroborated then .belowQuorum
      else .uncorroboratedGeometry }

def synthesiseShape (slots : Slots) (placeholder : ℕ) (platters : Option (List ℕ)) (shape : Shape)
    (slices : ℕ) : Synthesised :=
  let r : Rescue := ⟨slices, unreadableSlices mounted contents slots,
    volumesFrom slots placeholder 0 shape.total⟩
  match platters with
  | none => judge id shape r
  | some platters =>
    if 2 ≤ slices ∧ shape.dataSliceCount ≤ slices then judge id shape r
    else judge id shape (rescue id mounted contents slots platters shape r)

/-- The shapes, the one that most disks vouch for first. -/
def rankVotes (votes : Table Shape Tally) : List (Shape × Tally) :=
  votes.entries.insertionSort fun a b => b.2.rank ≤ a.2.rank

def synthesiseRecordFromIndex (slots : Option Slots) (placeholder : ℕ)
    (platters : Option (List ℕ)) (fleetGeometry : Option Geometry) : Option Synthesised :=
  match slots with
  | none => none
  | some slots =>
    if readable id mounted contents slots = 0 then
      synthesiseUnread id mounted contents slots placeholder fleetGeometry
    else
      match rankVotes (countVotes id mounted contents slots) with
      | [] => none
      | (shape, winner) :: rest =>
        -- a tie is the absence of an answer
        if rest.head?.any (·.2.rank = winner.rank) then none
        else if winner.slices < 2 ∧ 1 < readable id mounted contents slots then none
        else some (synthesiseShape id mounted contents slots placeholder platters shape
          winner.slices)

end Synthesis

/-! ## The vote -/

section Vote

variable {id : Text} {mounted : ℕ → Bool} {contents : ℕ → ℕ → SliceContents}

theorem checkHeader_ok {fromName : ℕ} {h : HeaderFields} {header : SliceHeader}
    (hok : checkHeader fromName h = .ok header) :
    fromName < header.shape.total ∧ header.shape.total ≤ maxSlices ∧
      0 < header.shape.dataSliceCount := by
  unfold checkHeader at hok
  split_ifs at hok with h1 h2 h3 h4 h5
  cases hok
  simp only [Shape.total]
  omega

theorem readSliceHeaderResult_ok {fromName : ℕ} {c : SliceContents} {header : SliceHeader}
    (hok : readSliceHeaderResult fromName c = .ok header) :
    fromName < header.shape.total ∧ header.shape.total ≤ maxSlices ∧
      0 < header.shape.dataSliceCount := by
  cases c with
  | fields h => exact checkHeader_ok hok
  | _ => cases hok

variable (id mounted contents)

/-- The slices whose indexed copy can be read with this shape. -/
def backers (slots : Slots) (s : Shape) : List ℕ :=
  (present slots).filter (backs id mounted contents slots s)

/-- How many disks vouch for a shape, and with how many slices. -/
def standing (slots : Slots) (s : Shape) : ℕ ×ₗ ℕ :=
  toLex (((backers id mounted contents slots s).map (slot slots · - 1)).dedup.length,
    (backers id mounted contents slots s).length)

/-- More disks vouch for this shape than for any other, or as many with more slices. -/
def Leads (slots : Slots) (s : Shape) : Prop :=
  backers id mounted contents slots s ≠ [] ∧
    ∀ s', s' ≠ s → backers id mounted contents slots s' ≠ [] →
      standing id mounted contents slots s' < standing id mounted contents slots s

variable {id mounted contents}

theorem header_eq_some {slots : Slots} {i : ℕ} {h : SliceHeader} :
    header id mounted contents slots i = some h ↔
      slot slots i ≠ 0 ∧ mounted (slot slots i - 1) ∧
        readSliceHeaderResult i (contents (slot slots i - 1) i) = .ok h ∧ h.id = id := by
  unfold header usable readIndexed
  by_cases hslot : slot slots i = 0 ∨ ¬mounted (slot slots i - 1)
  · simp only [hslot, if_true, reduceCtorEq, false_iff]
    tauto
  · rw [if_neg hslot]
    push Not at hslot
    cases hread : readSliceHeaderResult i (contents (slot slots i - 1) i) with
    | ok h' =>
      simp only [hslot, ne_eq, not_false_eq_true, true_and, HeaderRead.ok.injEq]
      by_cases hid : h'.id = id
      · simp only [hid, if_true, Option.some.injEq]
        constructor
        · rintro rfl
          exact ⟨rfl, hid⟩
        · exact fun h => h.1
      · simp only [hid, if_false, reduceCtorEq, false_iff, not_and]
        rintro rfl
        exact hid
    | _ => simp

theorem mem_present {slots : Slots} {i : ℕ} : i ∈ present slots ↔ slot slots i ≠ 0 := by
  simp only [present, List.mem_filter, List.mem_range, decide_eq_true_eq, and_iff_right_iff_imp]
  intro hslot
  by_contra hge
  apply hslot
  simp [slot, Vector.getElem?_eq_none (Nat.le_of_not_lt hge)]

/-- A slice that backs a shape is one of its slices. -/
theorem lt_total_of_backs {slots : Slots} {s : Shape} {i : ℕ}
    (h : backs id mounted contents slots s i) :
    i < s.total ∧ s.total ≤ maxSlices ∧ 0 < s.dataSliceCount := by
  unfold backs at h
  cases hheader : header id mounted contents slots i with
  | none => simp [hheader] at h
  | some hd =>
    obtain ⟨_, _, hread, _⟩ := header_eq_some.mp hheader
    obtain rfl : hd.shape = s := by simpa [hheader] using h
    exact readSliceHeaderResult_ok hread

theorem present_of_backs {slots : Slots} {s : Shape} {i : ℕ}
    (h : backs id mounted contents slots s i) : i ∈ present slots := by
  unfold backs at h
  cases hheader : header id mounted contents slots i with
  | none => simp [hheader] at h
  | some hd => exact mem_present.mpr (header_eq_some.mp hheader).1

theorem length_backers {slots : Slots} {s : Shape} :
    (backers id mounted contents slots s).length =
      (List.range s.total).countP (backs id mounted contents slots s) := by
  rw [List.countP_eq_length_filter]
  refine List.Perm.length_eq ((List.perm_ext_iff_of_nodup
    ((List.nodup_range.filter _).filter _) (List.nodup_range.filter _)).mpr fun i => ?_)
  constructor
  · intro h
    have hback := (List.mem_filter.mp h).2
    exact List.mem_filter.mpr ⟨List.mem_range.mpr (lt_total_of_backs hback).1, hback⟩
  · intro h
    have hback := (List.mem_filter.mp h).2
    exact List.mem_filter.mpr ⟨present_of_backs hback, hback⟩

variable (id mounted contents) in
/-- The votes of some slices for one shape. -/
structure Counted (slots : Slots) (s : Shape) (l : List ℕ) (t : Tally) : Prop where
  cast : l.filter (backs id mounted contents slots s) ≠ []
  slices : t.slices = (l.filter (backs id mounted contents slots s)).length
  nodup : t.volumes.Nodup
  volumes : ∀ v, v ∈ t.volumes ↔
    v ∈ (l.filter (backs id mounted contents slots s)).map (slot slots · - 1)

theorem Counted.vote {slots : Slots} {s : Shape} {l : List ℕ} {t : Tally} {i : ℕ}
    (hi : backs id mounted contents slots s i)
    (hslices : t.slices = (l.filter (backs id mounted contents slots s)).length)
    (hnodup : t.volumes.Nodup)
    (hvolumes : ∀ v, v ∈ t.volumes ↔
      v ∈ (l.filter (backs id mounted contents slots s)).map (slot slots · - 1)) :
    Counted id mounted contents slots s (l ++ [i])
      (t.vote (slot slots i - 1)) := by
  have hfilter : (l ++ [i]).filter (backs id mounted contents slots s) =
      l.filter (backs id mounted contents slots s) ++ [i] := by simp [hi]
  refine ⟨by simp [hfilter], by simp [hfilter, Tally.vote, hslices], hnodup.insert, fun v => ?_⟩
  rw [hfilter, List.map_append, List.mem_append, ← hvolumes, Tally.vote, List.mem_insert_iff]
  simp [or_comm]

theorem foldl_vote (slots : Slots) (l : List ℕ) (s : Shape) :
    match (l.foldl (vote id mounted contents slots) Table.empty).get s with
    | none => l.filter (backs id mounted contents slots s) = []
    | some t => Counted id mounted contents slots s l t := by
  induction l using List.reverseRecOn with
  | nil => rfl
  | append_singleton l i ih =>
    rw [List.foldl_append, List.foldl_cons, List.foldl_nil]
    generalize l.foldl (vote id mounted contents slots) Table.empty = votes at ih ⊢
    have hother : ¬backs id mounted contents slots s i →
        (l ++ [i]).filter (backs id mounted contents slots s) =
          l.filter (backs id mounted contents slots s) := fun hi => by simp [hi]
    unfold vote
    cases hheader : header id mounted contents slots i with
    | none =>
      have hi : ¬backs id mounted contents slots s i := by simp [backs, hheader]
      cases hget : votes.get s with
      | none => simpa [hget, hother hi] using ih
      | some t =>
        simp only [hget] at ih ⊢
        exact ⟨hother hi ▸ ih.cast, hother hi ▸ ih.slices, ih.nodup, hother hi ▸ ih.volumes⟩
    | some h =>
      simp only
      by_cases hs : s = h.shape
      · have hi : backs id mounted contents slots s i := by simp [backs, hheader, hs]
        rw [← hs, get_set_self]
        cases hget : votes.get s with
        | none =>
          simp only [hget] at ih
          exact Counted.vote hi (by simp [ih]) (by simp) (by simp [ih])
        | some t =>
          simp only [hget] at ih
          exact Counted.vote hi ih.slices ih.nodup ih.volumes
      · have hi : ¬backs id mounted contents slots s i := by simp [backs, hheader, Ne.symm hs]
        rw [get_set_ne _ _ hs]
        cases hget : votes.get s with
        | none => simpa [hget, hother hi] using ih
        | some t =>
          simp only [hget] at ih ⊢
          exact ⟨hother hi ▸ ih.cast, hother hi ▸ ih.slices, ih.nodup, hother hi ▸ ih.volumes⟩

theorem countVotes_get_eq_none {slots : Slots} {s : Shape} :
    (countVotes id mounted contents slots).get s = none ↔
      backers id mounted contents slots s = [] := by
  have h := @foldl_vote id mounted contents slots (present slots) s
  unfold countVotes
  cases hget : ((present slots).foldl (vote id mounted contents slots) Table.empty).get s with
  | none =>
    simp only [hget] at h
    simpa [backers] using h
  | some t =>
    simp only [hget] at h
    simpa [backers] using h.cast

theorem countVotes_rank {slots : Slots} {s : Shape} {t : Tally}
    (hget : (countVotes id mounted contents slots).get s = some t) :
    t.rank = standing id mounted contents slots s ∧
      t.slices = (backers id mounted contents slots s).length := by
  have h := @foldl_vote id mounted contents slots (present slots) s
  unfold countVotes at hget
  simp only [hget] at h
  refine ⟨?_, h.slices⟩
  have hperm : t.volumes.Perm
      ((backers id mounted contents slots s).map (slot slots · - 1)).dedup := by
    refine (List.perm_ext_iff_of_nodup h.nodup (List.nodup_dedup _)).mpr fun v => ?_
    rw [List.mem_dedup, h.volumes]
    rfl
  rw [Tally.rank, standing, hperm.length_eq, h.slices]
  rfl

end Vote

section Leader

variable {id : Text} {mounted : ℕ → Bool} {contents : ℕ → ℕ → SliceContents} {slots : Slots}

theorem rankVotes_sorted (votes : Table Shape Tally) :
    (rankVotes votes).Pairwise fun a b => b.2.rank ≤ a.2.rank := by
  have : Std.Total fun a b : Shape × Tally => b.2.rank ≤ a.2.rank :=
    ⟨fun a b => le_total b.2.rank a.2.rank⟩
  have : IsTrans (Shape × Tally) fun a b => b.2.rank ≤ a.2.rank :=
    ⟨fun _ _ _ hab hbc => hbc.trans hab⟩
  exact List.pairwise_insertionSort _ _

theorem mem_rankVotes {s : Shape} {t : Tally} :
    (s, t) ∈ rankVotes (countVotes id mounted contents slots) ↔
      (countVotes id mounted contents slots).get s = some t := by
  rw [rankVotes, List.mem_insertionSort, get_eq_some_iff]

theorem readable_eq_zero_iff :
    readable id mounted contents slots = 0 ↔
      ∀ i ∈ present slots, header id mounted contents slots i = none := by
  simp [readable]

theorem header_shape_backs {i : ℕ} (hi : i ∈ present slots) {h : SliceHeader}
    (hheader : header id mounted contents slots i = some h) :
    i ∈ backers id mounted contents slots h.shape :=
  List.mem_filter.mpr ⟨hi, by simp [backs, hheader]⟩

theorem rankVotes_ne_nil (h : readable id mounted contents slots ≠ 0) :
    rankVotes (countVotes id mounted contents slots) ≠ [] := by
  intro hnil
  apply h
  rw [readable_eq_zero_iff]
  intro i hi
  by_contra hne
  obtain ⟨hd, hheader⟩ := Option.ne_none_iff_exists'.mp hne
  cases hget : (countVotes id mounted contents slots).get hd.shape with
  | none =>
    have := header_shape_backs hi hheader
    rw [countVotes_get_eq_none.mp hget] at this
    cases this
  | some t =>
    have := mem_rankVotes.mpr hget
    rw [hnil] at this
    cases this

/-- The first of the shapes leads, unless the second one ties with it. -/
theorem leads_iff_no_tie {s : Shape} {t : Tally} {rest : List (Shape × Tally)}
    (hranked : rankVotes (countVotes id mounted contents slots) = (s, t) :: rest) :
    (¬rest.head?.any (·.2.rank = t.rank)) ↔ Leads id mounted contents slots s := by
  have hsorted := rankVotes_sorted (countVotes id mounted contents slots)
  have hnodup : ((rankVotes (countVotes id mounted contents slots)).map Prod.fst).Nodup :=
    ((List.perm_insertionSort _ _).map _).nodup_iff.mpr
      (countVotes id mounted contents slots).nodup
  rw [hranked] at hsorted hnodup
  obtain ⟨hfirst, hrest⟩ := List.pairwise_cons.mp hsorted
  have hmem : ∀ s' t', (s', t') ∈ (s, t) :: rest ↔
      (countVotes id mounted contents slots).get s' = some t' :=
    fun s' t' => hranked ▸ mem_rankVotes
  have hget := (hmem s t).mp List.mem_cons_self
  have hne : ∀ e ∈ rest, e.1 ≠ s := by
    intro e he heq
    have hmap := List.mem_map_of_mem (f := Prod.fst) he
    rw [heq] at hmap
    exact (List.nodup_cons.mp hnodup).1 hmap
  constructor
  · intro htie
    refine ⟨fun hnil => ?_, fun s' hs' hcast => ?_⟩
    · rw [countVotes_get_eq_none.mpr hnil] at hget
      cases hget
    · cases hget' : (countVotes id mounted contents slots).get s' with
      | none => exact absurd (countVotes_get_eq_none.mp hget') hcast
      | some t' =>
        have hin : (s', t') ∈ rest :=
          (List.mem_cons.mp ((hmem s' t').mpr hget')).resolve_left
            fun heq => hs' (congrArg Prod.fst heq)
        rw [← (countVotes_rank hget).1, ← (countVotes_rank hget').1]
        refine lt_of_le_of_ne (hfirst _ hin) fun heq => htie ?_
        cases rest with
        | nil => cases hin
        | cons e rest =>
          have hle : t'.rank ≤ e.2.rank := by
            rcases List.mem_cons.mp hin with rfl | hin
            · exact le_refl _
            · exact (List.pairwise_cons.mp hrest).1 _ hin
          have : e.2.rank = t.rank :=
            le_antisymm (hfirst e List.mem_cons_self) (heq ▸ hle)
          simp [this]
  · rintro ⟨_, hleads⟩ htie
    cases rest with
    | nil => simp at htie
    | cons e rest =>
      obtain ⟨s', t'⟩ := e
      have hget' := (hmem s' t').mp (List.mem_cons_of_mem _ List.mem_cons_self)
      have hcast : backers id mounted contents slots s' ≠ [] := fun hnil => by
        rw [countVotes_get_eq_none.mpr hnil] at hget'
        cases hget'
      have hlt := hleads s' (hne _ List.mem_cons_self) hcast
      rw [← (countVotes_rank hget).1, ← (countVotes_rank hget').1] at hlt
      exact absurd (by simpa using htie) hlt.ne

theorem Leads.unique {s s' : Shape} (h : Leads id mounted contents slots s)
    (h' : Leads id mounted contents slots s') : s = s' := by
  by_contra hne
  exact lt_asymm (h.2 s' (Ne.symm hne) h'.1) (h'.2 s hne h.1)

theorem Leads.first {s s' : Shape} {t : Tally} {rest : List (Shape × Tally)}
    (h : Leads id mounted contents slots s)
    (hranked : rankVotes (countVotes id mounted contents slots) = (s', t) :: rest) : s' = s := by
  by_contra hne
  have hget := mem_rankVotes.mp (hranked ▸ List.mem_cons_self : (s', t) ∈
    rankVotes (countVotes id mounted contents slots))
  have hcast : backers id mounted contents slots s' ≠ [] := fun hnil => by
    rw [countVotes_get_eq_none.mpr hnil] at hget
    cases hget
  have hlt := h.2 s' hne hcast
  cases hget' : (countVotes id mounted contents slots).get s with
  | none => exact h.1 (countVotes_get_eq_none.mp hget')
  | some t' =>
    have hin : (s, t') ∈ (s', t) :: rest := hranked ▸ mem_rankVotes.mpr hget'
    have hsorted := rankVotes_sorted (countVotes id mounted contents slots)
    rw [hranked] at hsorted
    rw [← (countVotes_rank hget).1, ← (countVotes_rank hget').1] at hlt
    rcases List.mem_cons.mp hin with heq | hin
    · exact hne (congrArg Prod.fst heq).symm
    · exact absurd ((List.pairwise_cons.mp hsorted).1 _ hin) (not_le_of_gt hlt)

/-- A leader with one slice is the only shape there is. -/
theorem Leads.readable_of_single {s : Shape} (h : Leads id mounted contents slots s)
    (hsingle : (backers id mounted contents slots s).length < 2) :
    readable id mounted contents slots < 2 := by
  have hall : ∀ i ∈ present slots, (header id mounted contents slots i).isSome →
      i ∈ backers id mounted contents slots s := by
    intro i hi hsome
    obtain ⟨hd, hheader⟩ := Option.isSome_iff_exists.mp hsome
    have hback := header_shape_backs hi hheader
    by_cases hs : hd.shape = s
    · exact hs ▸ hback
    · have hlt := h.2 _ hs (List.ne_nil_of_mem hback)
      exfalso
      have hdedup : ∀ l : List ℕ, l ≠ [] → 0 < l.dedup.length := fun l hl => by
        rw [List.length_pos_iff]
        simpa using hl
      have hpos := hdedup _ (List.map_eq_nil_iff.not.mpr (List.ne_nil_of_mem hback) :
        (backers id mounted contents slots hd.shape).map (slot slots · - 1) ≠ [])
      have hlen := List.length_pos_of_mem hback
      have hle := (List.dedup_sublist
        ((backers id mounted contents slots s).map (slot slots · - 1))).length_le
      rw [List.length_map] at hle
      rw [standing, standing, Prod.Lex.toLex_lt_toLex] at hlt
      simp only at hlt
      omega
  calc readable id mounted contents slots
      = ((present slots).filter fun i => (header id mounted contents slots i).isSome).length :=
        List.countP_eq_length_filter
    _ ≤ (backers id mounted contents slots s).length := by
        refine List.Subperm.length_le (List.subperm_of_subset ?_ fun i hi => ?_)
        · exact (List.nodup_range.filter _).filter _
        · obtain ⟨hi, hsome⟩ := List.mem_filter.mp hi
          exact hall i hi hsome
    _ < 2 := hsingle

variable {placeholder : ℕ} {platters : Option (List ℕ)} {fleetGeometry : Option Geometry}

/-- The object has the shape that leads. -/
theorem synthesise_of_leads {s : Shape} (h : Leads id mounted contents slots s) :
    synthesiseRecordFromIndex id mounted contents (some slots) placeholder platters fleetGeometry =
      some (synthesiseShape id mounted contents slots placeholder platters s
        (backers id mounted contents slots s).length) := by
  have hreadable : readable id mounted contents slots ≠ 0 := by
    rw [Ne, readable_eq_zero_iff]
    intro hnone
    obtain ⟨i, hi⟩ := List.exists_mem_of_ne_nil _ h.1
    obtain ⟨hi, hback⟩ := List.mem_filter.mp hi
    simp [backs, hnone i hi] at hback
  unfold synthesiseRecordFromIndex
  simp only [hreadable, if_false]
  cases hranked : rankVotes (countVotes id mounted contents slots) with
  | nil => exact absurd hranked (rankVotes_ne_nil hreadable)
  | cons e rest =>
    obtain ⟨s', t⟩ := e
    obtain rfl := h.first hranked
    have hget : (countVotes id mounted contents slots).get s' = some t :=
      mem_rankVotes.mp (hranked ▸ List.mem_cons_self)
    simp only
    rw [if_neg ((leads_iff_no_tie hranked).mpr h), (countVotes_rank hget).2, if_neg]
    intro hsingle
    exact absurd (h.readable_of_single hsingle.1) (by omega)

/-- Headers that are split say nothing about the object. -/
theorem synthesise_of_split (hreadable : readable id mounted contents slots ≠ 0)
    (hsplit : ∀ s, ¬Leads id mounted contents slots s) :
    synthesiseRecordFromIndex id mounted contents (some slots) placeholder platters fleetGeometry =
      none := by
  unfold synthesiseRecordFromIndex
  simp only [hreadable, if_false]
  cases hranked : rankVotes (countVotes id mounted contents slots) with
  | nil => rfl
  | cons e rest =>
    by_cases htie : rest.head?.any (·.2.rank = e.2.rank)
    · simp only [htie, if_true]
    · exact absurd ((leads_iff_no_tie hranked).mp htie) (hsplit e.1)

end Leader

/-! ## The other copies -/

section Copies

variable (id : Text) (contents : ℕ → ℕ → SliceContents)

def mountedOn (platters : List ℕ) (v : ℕ) : Bool := v ∈ platters

def goodAt (s : Shape) (i p : ℕ) : Bool :=
  match readSliceHeaderResult i (contents p i) with
  | .ok h => h.id = id ∧ h.shape = s
  | _ => false

def silentAt (i p : ℕ) : Bool := readSliceHeaderResult i (contents p i) = .unreadable

/-- Some disk has a copy of the slice that can be read with this shape. -/
def good (platters : List ℕ) (s : Shape) (i : ℕ) : Bool := platters.any (goodAt id contents s i)

/-- Some disk that should have a copy of the slice does not answer. -/
def silent (platters : List ℕ) (i : ℕ) : Bool := platters.any (silentAt contents i)

/-- The slices that can be read, or may be readable on a disk that does not answer. -/
def reach (platters : List ℕ) (s : Shape) : ℕ :=
  ((List.range s.total).filter fun i =>
    good id contents platters s i || silent contents platters i).length

variable {id contents} {platters : List ℕ} {slots : Slots} {s : Shape}

theorem findCopy_fst {already : Option ℕ} {i : ℕ} :
    (findCopy id contents s already i platters).1.isSome ↔
      ∃ p ∈ platters, some p ≠ already ∧ goodAt id contents s i p := by
  induction platters with
  | nil => simp [findCopy]
  | cons p platters ih =>
    unfold findCopy
    by_cases hp : some p = already
    · simp [hp, ih]
    · simp only [hp, if_false]
      have hgood : goodAt id contents s i p =
        match readSliceHeaderResult i (contents p i) with
        | .ok h => decide (h.id = id ∧ h.shape = s)
        | _ => false := rfl
      cases hread : readSliceHeaderResult i (contents p i) with
      | ok h =>
        simp only [hread] at hgood
        by_cases hok : h.id = id ∧ h.shape = s
        · simp [hok, hp, hgood]
        · simp [hok, ih, hgood]
      | absent => simp [hread, ih, hgood]
      | corrupt => simp [hread, ih, hgood]
      | unreadable => simp [hread, ih, hgood]

theorem findCopy_snd {already : Option ℕ} {i : ℕ}
    (hnone : (findCopy id contents s already i platters).1 = none) :
    (findCopy id contents s already i platters).2 ↔
      ∃ p ∈ platters, some p ≠ already ∧ silentAt contents i p := by
  induction platters with
  | nil => simp [findCopy]
  | cons p platters ih =>
    unfold findCopy at hnone ⊢
    by_cases hp : some p = already
    · simp only [hp, if_true] at hnone ⊢
      simp [ih hnone, hp]
    · simp only [hp, if_false] at hnone ⊢
      cases hread : readSliceHeaderResult i (contents p i) with
      | ok h =>
        simp only [hread] at hnone ⊢
        by_cases hok : h.id = id ∧ h.shape = s
        · simp [hok] at hnone
        · simp only [hok, if_false] at hnone ⊢
          simp [ih hnone, silentAt, hread]
      | absent =>
        simp only [hread] at hnone ⊢
        simp [ih hnone, silentAt, hread]
      | corrupt =>
        simp only [hread] at hnone ⊢
        simp [ih hnone, silentAt, hread]
      | unreadable =>
        simp [silentAt, hread, hp]

theorem backs_iff {i : ℕ} :
    backs id (mountedOn platters) contents slots s i ↔
      ∃ p ∈ platters, slot slots i = p + 1 ∧ goodAt id contents s i p := by
  unfold backs
  constructor
  · intro h
    cases hheader : header id (mountedOn platters) contents slots i with
    | none => simp [hheader] at h
    | some hd =>
      obtain ⟨hslot, hmounted, hread, hid⟩ := header_eq_some.mp hheader
      refine ⟨slot slots i - 1, by simpa [mountedOn] using hmounted, by omega, ?_⟩
      simp only [hheader, Option.any_some, decide_eq_true_eq] at h
      simp [goodAt, hread, hid, h]
  · rintro ⟨p, hp, hslot, hgood⟩
    unfold goodAt at hgood
    split at hgood
    · next hd hread =>
      obtain ⟨hid, hshape⟩ := of_decide_eq_true hgood
      have hheader : header id (mountedOn platters) contents slots i = some hd :=
        header_eq_some.mpr ⟨by omega, by simpa [hslot, mountedOn] using hp,
          by simpa [hslot] using hread, hid⟩
      simp [hheader, hshape]
    · cases hgood

theorem mem_unreadableSlices {i : ℕ} :
    i ∈ unreadableSlices (mountedOn platters) contents slots ↔
      ∃ p ∈ platters, slot slots i = p + 1 ∧ silentAt contents i p := by
  simp only [unreadableSlices, List.mem_filter, mem_present, decide_eq_true_eq]
  unfold readIndexed
  constructor
  · rintro ⟨hslot, hread⟩
    split at hread
    · cases hread
    · next hmounted =>
      push Not at hmounted
      exact ⟨slot slots i - 1, by simpa [mountedOn] using hmounted.2, by omega,
        by simpa [silentAt] using hread⟩
  · rintro ⟨p, hp, hslot, hsilent⟩
    refine ⟨by omega, ?_⟩
    rw [if_neg (by simp [hslot, mountedOn, hp])]
    simpa [silentAt, hslot] using hsilent

/-- Looking for a copy of a slice whose indexed copy is no good finds one if there is one. -/
theorem good_iff_findCopy {i : ℕ} (hback : ¬backs id (mountedOn platters) contents slots s i) :
    (findCopy id contents s (if slot slots i = 0 then none else some (slot slots i - 1)) i
      platters).1.isSome ↔ good id contents platters s i := by
  rw [findCopy_fst, good, List.any_eq_true]
  refine exists_congr fun p => and_congr_right fun hp => and_iff_right_of_imp fun hgood heq => ?_
  split at heq
  · cases heq
  · next hslot =>
    apply hback
    rw [backs_iff]
    exact ⟨p, hp, by have := Option.some.inj heq; omega, hgood⟩

theorem silent_iff_findCopy {i : ℕ}
    (hnone : (findCopy id contents s (if slot slots i = 0 then none else some (slot slots i - 1)) i
      platters).1 = none) :
    silent contents platters i ↔
      i ∈ unreadableSlices (mountedOn platters) contents slots ∨
        (findCopy id contents s (if slot slots i = 0 then none else some (slot slots i - 1)) i
          platters).2 := by
  rw [findCopy_snd hnone, mem_unreadableSlices, silent, List.any_eq_true]
  constructor
  · rintro ⟨p, hp, hsilent⟩
    by_cases heq : slot slots i = p + 1
    · exact .inl ⟨p, hp, heq, hsilent⟩
    · refine .inr ⟨p, hp, fun h => heq ?_, hsilent⟩
      split at h
      · cases h
      · have := Option.some.inj h
        omega
  · rintro (⟨p, hp, _, hsilent⟩ | ⟨p, hp, _, hsilent⟩)
    · exact ⟨p, hp, hsilent⟩
    · exact ⟨p, hp, hsilent⟩

theorem good_of_backs {i : ℕ} (h : backs id (mountedOn platters) contents slots s i) :
    good id contents platters s i := by
  obtain ⟨p, hp, _, hgood⟩ := backs_iff.mp h
  exact List.any_eq_true.mpr ⟨p, hp, hgood⟩

end Copies

/-! ## The verdict -/

section Verdict

variable {id : Text} {contents : ℕ → ℕ → SliceContents} {platters : List ℕ} {slots : Slots}
  {s : Shape}

/-- The slices below `k` whose indexed copy is no good and that have a good one elsewhere. -/
def rescuable (id : Text) (contents : ℕ → ℕ → SliceContents) (platters : List ℕ) (slots : Slots)
    (s : Shape) (k : ℕ) : ℕ :=
  (List.range k).countP fun i =>
    !backs id (mountedOn platters) contents slots s i && good id contents platters s i

theorem rescuable_succ (k : ℕ) :
    rescuable id contents platters slots s (k + 1) = rescuable id contents platters slots s k +
      if !backs id (mountedOn platters) contents slots s k && good id contents platters s k then 1
      else 0 := by
  simp [rescuable, List.range_succ, List.countP_append, List.countP_singleton]

/-- What is known after the slices below `k` have been looked for, as long as there are too
few. -/
structure Searched (id : Text) (contents : ℕ → ℕ → SliceContents) (platters : List ℕ)
    (slots : Slots) (s : Shape) (k : ℕ) (unknown : List ℕ) : Prop where
  nodup : unknown.Nodup
  mem : ∀ i, i ∈ unknown ↔
    if i < k then ¬good id contents platters s i ∧ silent contents platters i
    else i ∈ unreadableSlices (mountedOn platters) contents slots

theorem Searched.start : Searched id contents platters slots s 0
    (unreadableSlices (mountedOn platters) contents slots) :=
  ⟨(List.nodup_range.filter _).filter _, fun i => by simp⟩

theorem unreadable_not_backs {i : ℕ}
    (h : i ∈ unreadableSlices (mountedOn platters) contents slots) :
    ¬backs id (mountedOn platters) contents slots s i := by
  intro hback
  obtain ⟨p, _, hslot, hsilent⟩ := mem_unreadableSlices.mp h
  obtain ⟨q, _, hslot', hgood⟩ := backs_iff.mp hback
  obtain rfl : q = p := by omega
  unfold goodAt at hgood
  have hread : readSliceHeaderResult i (contents q i) = .unreadable := of_decide_eq_true hsilent
  simp [hread] at hgood

theorem Searched.succ {k : ℕ} {unknown unknown' : List ℕ}
    (h : Searched id contents platters slots s k unknown) (hnodup : unknown'.Nodup)
    (hother : ∀ i, i ≠ k → (i ∈ unknown' ↔ i ∈ unknown))
    (hk : k ∈ unknown' ↔ ¬good id contents platters s k ∧ silent contents platters k) :
    Searched id contents platters slots s (k + 1) unknown' := by
  refine ⟨hnodup, fun i => ?_⟩
  by_cases hi : i = k
  · rw [hi, if_pos (Nat.lt_succ_self k)]
    exact hk
  · rw [hother i hi, h.mem]
    by_cases hlt : i < k
    · rw [if_pos hlt, if_pos (by omega)]
    · rw [if_neg hlt, if_neg (by omega)]

theorem rescueSlice_spec {r : Rescue} {k : ℕ} (hfound : r.found < s.dataSliceCount)
    (h : Searched id contents platters slots s k r.unknown) :
    (rescueSlice id (mountedOn platters) contents slots platters s r k).found = r.found +
      (if !backs id (mountedOn platters) contents slots s k && good id contents platters s k then 1
        else 0) ∧
      Searched id contents platters slots s (k + 1)
        (rescueSlice id (mountedOn platters) contents slots platters s r k).unknown := by
  have hk : k ∈ r.unknown ↔ k ∈ unreadableSlices (mountedOn platters) contents slots := by
    rw [h.mem, if_neg (Nat.lt_irrefl k)]
  unfold rescueSlice
  rw [if_neg (Nat.not_le_of_lt hfound)]
  by_cases hback : backs id (mountedOn platters) contents slots s k
  · have hgood := good_of_backs hback
    rw [if_pos hback]
    refine ⟨by simp [hback], h.succ h.nodup (fun i _ => Iff.rfl) ?_⟩
    rw [hk]
    exact ⟨fun hmem => absurd hback (unreadable_not_backs hmem), fun hmem => absurd hgood hmem.1⟩
  · rw [if_neg hback]
    have hcopy := good_iff_findCopy hback
    dsimp only
    cases hfind : findCopy id contents s
        (if slot slots k = 0 then none else some (slot slots k - 1)) k platters with
    | mk copy saw =>
      rw [hfind] at hcopy
      cases copy with
      | some p =>
        have hgood : good id contents platters s k := hcopy.mp rfl
        refine ⟨by simp [hback, hgood], h.succ (h.nodup.filter _) (fun i hi => by simp [hi]) ?_⟩
        simp [hgood]
      | none =>
        have hgood : ¬good id contents platters s k := fun hgood => by simpa using hcopy.mpr hgood
        have hsilent := @silent_iff_findCopy id contents platters slots s k (by rw [hfind])
        rw [hfind] at hsilent
        cases saw with
        | true =>
          refine ⟨by simp [hgood], h.succ h.nodup.insert
            (fun i hi => by simp [List.mem_insert_iff, hi]) ?_⟩
          simpa [hgood] using hsilent
        | false =>
          refine ⟨by simp [hgood], h.succ h.nodup (fun i _ => Iff.rfl) ?_⟩
          rw [hk]
          simpa [hgood] using hsilent.symm

/-- The search stops when it has found as many slices as it needs. -/
theorem rescue_spec {r : Rescue} (hfound : r.found < s.dataSliceCount)
    (hunknown : r.unknown = unreadableSlices (mountedOn platters) contents slots) (k : ℕ) :
    let r' := (List.range k).foldl
      (rescueSlice id (mountedOn platters) contents slots platters s) r
    r'.found = min s.dataSliceCount (r.found + rescuable id contents platters slots s k) ∧
      (r'.found < s.dataSliceCount → Searched id contents platters slots s k r'.unknown) := by
  induction k with
  | zero =>
    refine ⟨?_, fun _ => hunknown ▸ Searched.start⟩
    simp only [List.range_zero, List.foldl_nil, rescuable, List.countP_nil]
    omega
  | succ k ih =>
    rw [List.range_succ, List.foldl_append, List.foldl_cons, List.foldl_nil, rescuable_succ]
    generalize (List.range k).foldl
      (rescueSlice id (mountedOn platters) contents slots platters s) r = r' at ih ⊢
    obtain ⟨hcount, hsearched⟩ := ih
    have hone : (if !backs id (mountedOn platters) contents slots s k &&
        good id contents platters s k then 1 else 0) ≤ 1 := by split <;> omega
    by_cases hlt : r'.found < s.dataSliceCount
    · obtain ⟨hnext, hmem⟩ := rescueSlice_spec hlt (hsearched hlt)
      refine ⟨?_, fun _ => hmem⟩
      rw [hnext]
      rw [hcount] at hlt ⊢
      generalize (if !backs id (mountedOn platters) contents slots s k &&
        good id contents platters s k then 1 else 0) = one at hone ⊢
      omega
    · have hsame : rescueSlice id (mountedOn platters) contents slots platters s r' k = r' :=
        if_pos (Nat.le_of_not_lt hlt)
      rw [hsame]
      exact ⟨by omega, fun h => absurd h hlt⟩

theorem reach_eq :
    reach id contents platters s =
      (List.range s.total).countP (good id contents platters s) +
        (List.range s.total).countP fun i =>
          !good id contents platters s i && silent contents platters i := by
  rw [reach, ← List.countP_eq_length_filter]
  generalize List.range s.total = l
  induction l with
  | nil => rfl
  | cons i l ih =>
    simp only [List.countP_cons, ih]
    cases good id contents platters s i <;> cases silent contents platters i <;>
      simp <;> omega

/-- The slices with a good copy are those whose indexed copy is good and those with another
one. -/
theorem countP_good :
    (List.range s.total).countP (good id contents platters s) =
      (backers id (mountedOn platters) contents slots s).length +
        rescuable id contents platters slots s s.total := by
  rw [length_backers, rescuable]
  generalize List.range s.total = l
  induction l with
  | nil => rfl
  | cons i l ih =>
    simp only [List.countP_cons, ih]
    cases hback : backs id (mountedOn platters) contents slots s i with
    | true =>
      simp [good_of_backs hback]
      omega
    | false =>
      cases good id contents platters s i with
      | true => simp; omega
      | false => simp

/-- The object is called recoverable, or it is left open whether it is. -/
def Synthesised.Favourable (v : Synthesised) : Prop := v.recoverable ∨ v.reason = .indeterminate

theorem judge_favourable (r : Rescue) :
    (judge id s r).Favourable ↔ (2 ≤ r.found ∧ s.dataSliceCount ≤ r.found) ∨
      0 < (r.unknown.filter (· < s.total)).length ∧
        s.dataSliceCount ≤ r.found + (r.unknown.filter (· < s.total)).length := by
  unfold Synthesised.Favourable judge
  by_cases hrecoverable : 2 ≤ r.found ∧ s.dataSliceCount ≤ r.found
  · simp [hrecoverable]
  · simp only [hrecoverable, decide_false, Bool.false_eq_true, if_false, not_false_eq_true,
      true_and, false_or]
    by_cases hind : 0 < (r.unknown.filter (· < s.total)).length ∧
        s.dataSliceCount ≤ r.found + (r.unknown.filter (· < s.total)).length
    · simp only [hind, and_self, if_true]
    · simp only [hind, if_false, iff_false]
      split <;> simp

theorem Searched.length_unknown {unknown : List ℕ}
    (h : Searched id contents platters slots s s.total unknown) :
    (unknown.filter (· < s.total)).length = (List.range s.total).countP fun i =>
      !good id contents platters s i && silent contents platters i := by
  rw [List.countP_eq_length_filter]
  refine List.Perm.length_eq ((List.perm_ext_iff_of_nodup (h.nodup.filter _)
    (List.nodup_range.filter _)).mpr fun i => ?_)
  simp only [List.mem_filter, List.mem_range, h.mem, decide_eq_true_eq, Bool.and_eq_true,
    Bool.not_eq_true']
  constructor
  · rintro ⟨hmem, hlt⟩
    rw [if_pos hlt] at hmem
    exact ⟨hlt, by simpa using hmem.1, hmem.2⟩
  · rintro ⟨hlt, hgood, hsilent⟩
    exact ⟨by rw [if_pos hlt]; exact ⟨by simp [hgood], hsilent⟩, hlt⟩

/-- The verdict on an object of a settled shape. A shape with one data slice whose only
header is not corroborated is believed only as far as the index itself has a silent slice. -/
theorem synthesiseShape_favourable_iff {placeholder : ℕ}
    (hcast : backers id (mountedOn platters) contents slots s ≠ []) :
    (synthesiseShape id (mountedOn platters) contents slots placeholder (some platters) s
      (backers id (mountedOn platters) contents slots s).length).Favourable ↔
      s.dataSliceCount ≤ reach id contents platters s ∧
        (2 ≤ s.dataSliceCount ∨ 2 ≤ (backers id (mountedOn platters) contents slots s).length ∨
          ∃ i ∈ unreadableSlices (mountedOn platters) contents slots, i < s.total) := by
  obtain ⟨i, hi⟩ := List.exists_mem_of_ne_nil _ hcast
  obtain ⟨_, _, hpos⟩ := lt_total_of_backs (List.mem_filter.mp hi).2
  have hn := List.length_pos_of_mem hi
  have hreach := @reach_eq id contents platters s
  have hgood := @countP_good id contents platters slots s
  unfold synthesiseShape
  simp only
  generalize hcount : (backers id (mountedOn platters) contents slots s).length = n at hn hgood ⊢
  by_cases hquorum : 2 ≤ n ∧ s.dataSliceCount ≤ n
  · rw [if_pos hquorum, judge_favourable]
    exact iff_of_true (.inl hquorum) ⟨by omega, .inr (.inl hquorum.1)⟩
  · rw [if_neg hquorum, judge_favourable]
    unfold rescue
    by_cases hlt : n < s.dataSliceCount
    · obtain ⟨hfound, hsearched⟩ := @rescue_spec id contents platters slots s
        ⟨n, unreadableSlices (mountedOn platters) contents slots,
          volumesFrom slots placeholder 0 s.total⟩ hlt rfl s.total
      generalize (List.range s.total).foldl
        (rescueSlice id (mountedOn platters) contents slots platters s) _ = r at hfound hsearched ⊢
      by_cases hdone : r.found < s.dataSliceCount
      · have hunknown := (hsearched hdone).length_unknown
        simp only at hfound
        omega
      · simp only at hfound
        omega
    · have hsame : (List.range s.total).foldl
          (rescueSlice id (mountedOn platters) contents slots platters s)
          ⟨n, unreadableSlices (mountedOn platters) contents slots,
            volumesFrom slots placeholder 0 s.total⟩ =
          ⟨n, unreadableSlices (mountedOn platters) contents slots,
            volumesFrom slots placeholder 0 s.total⟩ := by
        generalize List.range s.total = l
        induction l with
        | nil => rfl
        | cons i l ih =>
          rw [List.foldl_cons, rescueSlice, if_pos (Nat.le_of_not_lt hlt)]
          exact ih
      rw [hsame]
      have hsilent : 0 < ((unreadableSlices (mountedOn platters) contents slots).filter
          (· < s.total)).length ↔
          ∃ i ∈ unreadableSlices (mountedOn platters) contents slots, i < s.total := by
        rw [List.length_pos_iff_exists_mem]
        simp
      rw [← hsilent]
      simp only
      omega

end Verdict

section Unread

variable {id : Text} {mounted : ℕ → Bool} {contents : ℕ → ℕ → SliceContents} {slots : Slots}
  {placeholder : ℕ} {platters : Option (List ℕ)} {fleetGeometry : Option Geometry}

theorem synthesise_of_unread (h : readable id mounted contents slots = 0) :
    synthesiseRecordFromIndex id mounted contents (some slots) placeholder platters fleetGeometry =
      synthesiseUnread id mounted contents slots placeholder fleetGeometry := by
  simp [synthesiseRecordFromIndex, h]

/-- Without a header the silent slices have to reach the quorum of the fleet. -/
theorem synthesiseUnread_favourable_iff :
    (∃ v, synthesiseUnread id mounted contents slots placeholder fleetGeometry = some v ∧
      v.Favourable) ↔
      unreadableSlices mounted contents slots ≠ [] ∧ ∀ g ∈ fleetGeometry, g.dataSlices ≤
        ((unreadableSlices mounted contents slots).filter
          (· < g.dataSlices + g.paritySlices)).length := by
  unfold synthesiseUnread
  by_cases hnone : unreadableSlices mounted contents slots = []
  · simp [hnone]
  · simp only [hnone, if_false, ne_eq, not_false_eq_true, true_and]
    cases fleetGeometry with
    | none => simp [Synthesised.Favourable]
    | some g =>
      simp only [Option.mem_some_iff, forall_eq']
      by_cases hclear : g.dataSlices ≤ ((unreadableSlices mounted contents slots).filter
          (· < g.dataSlices + g.paritySlices)).length
      · simp [hclear, Synthesised.Favourable]
      · simp [hclear]

/-- There is a record whenever there is a geometry to write it with. -/
theorem record_of_favourable {g : Geometry} {v : Synthesised}
    (h : synthesiseRecordFromIndex id mounted contents (some slots) placeholder platters (some g) =
      some v) : v.record.isSome := by
  by_cases hreadable : readable id mounted contents slots = 0
  · rw [synthesise_of_unread hreadable] at h
    unfold synthesiseUnread at h
    dsimp only at h
    split_ifs at h
    cases h
    rfl
  · by_cases hleads : ∃ s, Leads id mounted contents slots s
    · obtain ⟨s, hs⟩ := hleads
      rw [synthesise_of_leads hs] at h
      cases h
      unfold synthesiseShape
      cases platters with
      | none => rfl
      | some platters =>
        simp only
        split <;> rfl
    · rw [synthesise_of_split hreadable (not_exists.mp hleads)] at h
      cases h

end Unread

end RecordSynthesis
