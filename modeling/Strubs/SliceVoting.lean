import Strubs.RecordSynthesis

/-! # When the vote makes an object recoverable

The search for other copies stops at the quorum, so what it leaves in the record is followed
slice by slice: whatever was counted stands at its own position. -/
namespace SliceVoting

open NamespaceRecord (Text)
open RecordSynthesis

section Search

variable (id : Text) (mounted : ℕ → Bool) (contents : ℕ → ℕ → SliceContents) (slots : Slots)
  (platters : List ℕ) (s : Shape)

def already (i : ℕ) : Option ℕ := if slot slots i = 0 then none else some (slot slots i - 1)

/-- A disk that the index does not name has a copy of the slice with this shape. -/
def elsewhere (i : ℕ) : Bool :=
  platters.any fun p => some p ≠ already slots i && goodAt id contents s i p

/-- The slices that agree on a shape. Other disks are asked when the indexed copies fall short. -/
def agreeing : List ℕ :=
  (List.range s.total).filter fun i => backs id mounted contents slots s i ||
    ((backers id mounted contents slots s).length < s.dataSliceCount &&
      elsewhere id contents slots platters s i)

variable {id mounted contents slots platters s}

/-- A good copy is a header of the object, of this shape and for this very slice. -/
theorem goodAt_iff {i p : ℕ} :
    goodAt id contents s i p ↔ readSliceHeaderResult i (contents p i) = .ok ⟨id, s, i⟩ := by
  have hindex : ∀ h, readSliceHeaderResult i (contents p i) = .ok h → h.sliceIndex = i := by
    intro h hread
    cases hc : contents p i with
    | fields f =>
      rw [hc] at hread
      simp only [readSliceHeaderResult, checkHeader] at hread
      split_ifs at hread with h1 h2 h3 h4 h5
      cases hread
      exact (not_not.mp h5).symm
    | _ => simp [hc, readSliceHeaderResult] at hread
  unfold goodAt
  cases hread : readSliceHeaderResult i (contents p i) with
  | ok h =>
    have := hindex h hread
    obtain ⟨hid, hshape, hslice⟩ := h
    simp_all
  | _ => simp

theorem goodAt_of_backs {i : ℕ} (h : backs id mounted contents slots s i) :
    slot slots i ≠ 0 ∧ goodAt id contents s i (slot slots i - 1) := by
  unfold backs at h
  cases hheader : header id mounted contents slots i with
  | none => simp [hheader] at h
  | some hd =>
    obtain ⟨hslot, _, hread, hid⟩ := header_eq_some.mp hheader
    refine ⟨hslot, ?_⟩
    simp only [hheader, Option.any_some, decide_eq_true_eq] at h
    simp [goodAt, hread, hid, h]

theorem findCopy_good {i p : ℕ} {already : Option ℕ}
    (h : (findCopy id contents s already i platters).1 = some p) : goodAt id contents s i p := by
  induction platters with
  | nil => simp [findCopy] at h
  | cons q platters ih =>
    unfold findCopy at h
    split_ifs at h with hq
    · exact ih h
    · cases hread : readSliceHeaderResult i (contents q i) with
      | ok hd =>
        simp only [hread] at h
        split_ifs at h with hok
        · obtain rfl := Option.some.inj h
          simp [goodAt, hread, hok]
        · exact ih h
      | unreadable => simp only [hread] at h; exact ih h
      | absent => simp only [hread] at h; exact ih h
      | corrupt => simp only [hread] at h; exact ih h

theorem findCopy_isSome_iff {i : ℕ} :
    (findCopy id contents s (already slots i) i platters).1.isSome ↔
      elsewhere id contents slots platters s i := by
  rw [findCopy_fst, elsewhere, List.any_eq_true]
  simp

variable (id contents s) in
/-- So many slices stand at their own positions, each on a disk that has a good copy of it. -/
def Stand (volumes : List ℕ) (n : ℕ) : Prop :=
  n ≤ (List.range s.total).countP fun i => (volumes[i]?).any (goodAt id contents s i)

theorem stand_of_positions {volumes l : List ℕ} (hnodup : l.Nodup)
    (hlen : volumes.length = s.total)
    (hl : ∀ i ∈ l, ∃ v, volumes[i]? = some v ∧ goodAt id contents s i v) :
    Stand id contents s volumes l.length := by
  rw [Stand, List.countP_eq_length_filter]
  refine List.Subperm.length_le (List.subperm_of_subset hnodup fun i hi => ?_)
  obtain ⟨v, hv, hgood⟩ := hl i hi
  have hlt := (List.getElem?_eq_some_iff.mp hv).1
  exact List.mem_filter.mpr ⟨List.mem_range.mpr (hlen ▸ hlt), by simp [hv, hgood]⟩

variable (id mounted contents slots platters s) in
/-- What the search has done with the slices below `k`, as long as it goes on. -/
structure Placed (n k : ℕ) (r : Rescue) : Prop where
  found : r.found = min s.dataSliceCount (n + (List.range k).countP fun i =>
    !backs id mounted contents slots s i && elsewhere id contents slots platters s i)
  length : r.volumes.length = s.total
  /-- Every slice that was counted stands at its own position. -/
  positions : ∃ l : List ℕ, l.Nodup ∧ l.length = r.found ∧
    ∀ i ∈ l, (i < k ∨ backs id mounted contents slots s i) ∧
      ∃ v, r.volumes[i]? = some v ∧ goodAt id contents s i v

theorem Placed.later {n k : ℕ} {r r' : Rescue}
    (h : Placed id mounted contents slots platters s n k r) (hfound : r'.found = r.found)
    (hvolumes : r'.volumes = r.volumes)
    (hcount : s.dataSliceCount ≤ r.found ∨ ¬(!backs id mounted contents slots s k &&
      elsewhere id contents slots platters s k)) :
    Placed id mounted contents slots platters s n (k + 1) r' := by
  obtain ⟨l, hnodup, hlen, hl⟩ := h.positions
  refine ⟨?_, by rw [hvolumes, h.length], l, hnodup, by rw [hfound, hlen], fun i hi => ?_⟩
  · have hf := h.found
    rw [hfound, List.range_succ, List.countP_append, List.countP_singleton]
    rcases hcount with hcount | hcount
    · split_ifs <;> omega
    · rw [if_neg hcount, Nat.add_zero, hf]
  · obtain ⟨hk, v, hv, hgood⟩ := hl i hi
    exact ⟨hk.imp_left Nat.lt_succ_of_lt, v, by rw [hvolumes, hv], hgood⟩

theorem rescueSlice_placed {n k : ℕ} {r : Rescue} (hk : k < s.total)
    (h : Placed id mounted contents slots platters s n k r) :
    Placed id mounted contents slots platters s n (k + 1)
      (rescueSlice id mounted contents slots platters s r k) := by
  unfold rescueSlice
  by_cases hdone : s.dataSliceCount ≤ r.found
  · rw [if_pos hdone]
    exact h.later rfl rfl (.inl hdone)
  rw [if_neg hdone]
  by_cases hback : backs id mounted contents slots s k
  · rw [if_pos hback]
    exact h.later rfl rfl (.inr (by simp [hback]))
  rw [if_neg hback]
  have hsome := @findCopy_isSome_iff id contents slots platters s k
  unfold already at hsome
  dsimp only
  cases hfind : findCopy id contents s
      (if slot slots k = 0 then none else some (slot slots k - 1)) k platters with
  | mk copy saw =>
    rw [hfind] at hsome
    cases copy with
    | none =>
      have helse : ¬elsewhere id contents slots platters s k := fun he => by
        simpa using hsome.mpr he
      cases saw with
      | true => exact h.later rfl rfl (.inr (by simp [helse]))
      | false => exact h.later rfl rfl (.inr (by simp [helse]))
    | some p =>
      have helse : elsewhere id contents slots platters s k := hsome.mp rfl
      have hgood : goodAt id contents s k p := findCopy_good (by rw [hfind])
      obtain ⟨l, hnodup, hlen, hl⟩ := h.positions
      have hfresh : k ∉ l := fun hmem => by
        rcases (hl k hmem).1 with hlt | hb
        · exact Nat.lt_irrefl k hlt
        · exact hback hb
      refine ⟨?_, by simp [h.length], k :: l, List.nodup_cons.mpr ⟨hfresh, hnodup⟩, by simp [hlen],
        fun i hi => ?_⟩
      · have hf := h.found
        rw [List.range_succ, List.countP_append, List.countP_singleton,
          if_pos (by simp [hback, helse])]
        simp only
        omega
      · rcases List.mem_cons.mp hi with rfl | hi
        · exact ⟨.inl (Nat.lt_succ_self _), p,
            List.getElem?_set_self (by rw [h.length]; exact hk), hgood⟩
        · obtain ⟨hlt, v, hv, hv'⟩ := hl i hi
          refine ⟨hlt.imp_left Nat.lt_succ_of_lt, v, ?_, hv'⟩
          simp only
          rw [List.getElem?_set_ne (by rintro rfl; exact hfresh hi), hv]

/-- A search for as many slices as the object has. -/
theorem rescue_placed {n : ℕ} {r : Rescue}
    (h : Placed id mounted contents slots platters s n 0 r) :
    Placed id mounted contents slots platters s n s.total
      (rescue id mounted contents slots platters s r) := by
  have hrun : ∀ k ≤ s.total, Placed id mounted contents slots platters s n k
      ((List.range k).foldl (rescueSlice id mounted contents slots platters s) r) := by
    intro k hk
    induction k with
    | zero => exact h
    | succ k ih =>
      rw [List.range_succ, List.foldl_append, List.foldl_cons, List.foldl_nil]
      exact rescueSlice_placed hk (ih (by omega))
  exact hrun s.total le_rfl

/-- The slices whose indexed copy is good are where the index says. -/
theorem volumesFrom_backers {placeholder i : ℕ} (hi : i ∈ backers id mounted contents slots s) :
    ∃ v, (volumesFrom slots placeholder 0 s.total)[i]? = some v ∧ goodAt id contents s i v := by
  have hback := (List.mem_filter.mp hi).2
  obtain ⟨hslot, hgood⟩ := goodAt_of_backs hback
  have hi' := (lt_total_of_backs hback).1
  exact ⟨slot slots i - 1, by simp [volumesFrom, volumeOr, hi', hslot], hgood⟩

theorem nodup_backers : (backers id mounted contents slots s).Nodup :=
  (List.nodup_range.filter _).filter _

theorem placed_start {placeholder : ℕ} {unknown : List ℕ}
    (hfew : (backers id mounted contents slots s).length ≤ s.dataSliceCount) :
    Placed id mounted contents slots platters s (backers id mounted contents slots s).length 0
      ⟨(backers id mounted contents slots s).length, unknown,
        volumesFrom slots placeholder 0 s.total⟩ :=
  ⟨by simpa using hfew, by simp [volumesFrom], _, nodup_backers, rfl, fun _ hi =>
    ⟨.inr (List.mem_filter.mp hi).2, volumesFrom_backers hi⟩⟩

theorem length_agreeing_of_quorum
    (h : s.dataSliceCount ≤ (backers id mounted contents slots s).length) :
    (agreeing id mounted contents slots platters s).length =
      (backers id mounted contents slots s).length := by
  rw [agreeing, ← List.countP_eq_length_filter, decide_eq_false (Nat.not_lt_of_le h),
    length_backers]
  simp

theorem length_agreeing_of_short
    (h : (backers id mounted contents slots s).length < s.dataSliceCount) :
    (agreeing id mounted contents slots platters s).length =
      (backers id mounted contents slots s).length + (List.range s.total).countP fun i =>
        !backs id mounted contents slots s i && elsewhere id contents slots platters s i := by
  rw [agreeing, ← List.countP_eq_length_filter, decide_eq_true h, length_backers]
  generalize List.range s.total = l
  induction l with
  | nil => rfl
  | cons i l ih =>
    simp only [List.countP_cons, ih]
    cases backs id mounted contents slots s i <;> simp <;> omega

/-- The verdict on a shape that needs two slices or more. -/
theorem synthesiseShape_spec {placeholder : ℕ} (hdata : 2 ≤ s.dataSliceCount) :
    ∃ r : Rescue, synthesiseShape id mounted contents slots placeholder (some platters) s
        (backers id mounted contents slots s).length = judge id s r ∧
      (s.dataSliceCount ≤ r.found ↔
        s.dataSliceCount ≤ (agreeing id mounted contents slots platters s).length) ∧
      r.volumes.length = s.total ∧ Stand id contents s r.volumes r.found := by
  unfold synthesiseShape
  dsimp only
  split_ifs with hquorum
  · refine ⟨_, rfl, ?_, by simp [volumesFrom], ?_⟩
    · rw [length_agreeing_of_quorum hquorum.2]
    · exact stand_of_positions nodup_backers (by simp [volumesFrom])
        fun _ hi => volumesFrom_backers hi
  · have hshort : (backers id mounted contents slots s).length < s.dataSliceCount := by omega
    have hplaced := @rescue_placed id mounted contents slots platters s _ _
      (@placed_start id mounted contents slots platters s placeholder
        (unreadableSlices mounted contents slots) hshort.le)
    obtain ⟨l, hnodup, hlen, hl⟩ := hplaced.positions
    refine ⟨_, rfl, ?_, hplaced.length, ?_⟩
    · rw [hplaced.found, length_agreeing_of_short hshort]
      omega
    · rw [← hlen]
      exact stand_of_positions hnodup hplaced.length fun i hi => (hl i hi).2

end Search

section Outcome

variable {id : Text} {mounted : ℕ → Bool} {contents : ℕ → ℕ → SliceContents} {slots : Slots}
  {placeholder : ℕ} {platters : List ℕ} {fleetGeometry : Option Geometry}

/-- Nothing but a shape that leads makes an object recoverable. -/
theorem leads_of_recoverable {platters : Option (List ℕ)} {v : Synthesised}
    (h : synthesiseRecordFromIndex id mounted contents (some slots) placeholder platters
      fleetGeometry = some v) (hv : v.recoverable) :
    ∃ s, Leads id mounted contents slots s := by
  by_contra hnone
  by_cases hreadable : readable id mounted contents slots = 0
  · rw [synthesise_of_unread hreadable] at h
    unfold synthesiseUnread at h
    dsimp only at h
    split_ifs at h with hunknown
    cases fleetGeometry with
    | none => cases h; cases hv
    | some g =>
      dsimp only at h
      split_ifs at h
      cases h
      cases hv
  · rw [synthesise_of_split hreadable (not_exists.mp hnone)] at h
    cases h

variable (contents) in
/-- A record of this shape, enough of whose positions name a disk with a header of the object,
of this shape and for the very slice. -/
structure Describes (s : Shape) (record : SynthesisedRecord) : Prop where
  size : record.size = some s.size
  chunk : record.chunkSize = some s.chunkSize
  data : record.dataVolumes.length = s.dataSliceCount
  parity : record.parityVolumes.length = s.paritySliceCount
  stand : s.dataSliceCount ≤ (List.range s.total).countP fun i =>
    (record.dataVolumes ++ record.parityVolumes)[i]?.any fun v =>
      readSliceHeaderResult i (contents v i) = .ok ⟨record.id, s, i⟩

/-- The vote decides, and the record is the winner's. -/
theorem recoverable_iff_vote
    (hdata : ∀ s, Leads id mounted contents slots s → 2 ≤ s.dataSliceCount) :
    ((∃ v, synthesiseRecordFromIndex id mounted contents (some slots) placeholder (some platters)
        fleetGeometry = some v ∧ v.recoverable) ↔
      ∃ s, Leads id mounted contents slots s ∧
        2 ≤ (agreeing id mounted contents slots platters s).length ∧
        s.dataSliceCount ≤ (agreeing id mounted contents slots platters s).length) ∧
    ∀ v, synthesiseRecordFromIndex id mounted contents (some slots) placeholder (some platters)
        fleetGeometry = some v → v.recoverable →
      ∃ s record, Leads id mounted contents slots s ∧ v.record = some record ∧ record.id = id ∧
        Describes contents s record := by
  have hverdict : ∀ s, Leads id mounted contents slots s → ∃ v,
      synthesiseRecordFromIndex id mounted contents (some slots) placeholder (some platters)
        fleetGeometry = some v ∧
      (v.recoverable ↔
        s.dataSliceCount ≤ (agreeing id mounted contents slots platters s).length) ∧
      (v.recoverable → ∃ record, v.record = some record ∧ record.id = id ∧
        Describes contents s record) := by
    intro s hs
    have htwo := hdata s hs
    obtain ⟨r, hr, hfound, hlen, hstand⟩ := @synthesiseShape_spec id mounted contents slots
      platters s placeholder htwo
    refine ⟨_, (synthesise_of_leads hs).trans (congrArg some hr), ?_, fun hok => ?_⟩
    · simp only [judge, decide_eq_true_eq]
      omega
    · have hquorum : s.dataSliceCount ≤ r.found := by
        simp only [judge, decide_eq_true_eq] at hok
        exact hok.2
      refine ⟨_, rfl, rfl, rfl, rfl, ?_, ?_, ?_⟩
      · simp only [List.length_take, hlen, Shape.total]
        omega
      · simp only [List.length_drop, hlen, Shape.total]
        omega
      · rw [List.take_append_drop]
        refine hquorum.trans (hstand.trans (List.countP_mono_left fun i _ hi => ?_))
        cases hv : r.volumes[i]? with
        | none => simp [hv] at hi
        | some v =>
          rw [hv] at hi
          exact decide_eq_true (goodAt_iff.mp hi)
  refine ⟨⟨?_, ?_⟩, ?_⟩
  · rintro ⟨v, hv, hok⟩
    obtain ⟨s, hs⟩ := leads_of_recoverable hv hok
    obtain ⟨v', hv', hiff, -⟩ := hverdict s hs
    obtain rfl : v' = v := Option.some.inj (hv'.symm.trans hv)
    have := hiff.mp hok
    exact ⟨s, hs, (hdata s hs).trans this, this⟩
  · rintro ⟨s, hs, -, hquorum⟩
    obtain ⟨v, hv, hiff, -⟩ := hverdict s hs
    exact ⟨v, hv, hiff.mpr hquorum⟩
  · intro v hv hok
    obtain ⟨s, hs⟩ := leads_of_recoverable hv hok
    obtain ⟨v', hv', -, hrecord⟩ := hverdict s hs
    obtain rfl : v' = v := Option.some.inj (hv'.symm.trans hv)
    obtain ⟨record, hrec, hid, hdesc⟩ := hrecord hok
    exact ⟨s, record, hs, hrec, hid, hdesc⟩

end Outcome

/-! Two data slices and one parity slice: the index knows a copy of the second slice that is cut
short, and a third disk has a good one. -/

def relocatedContents (v i : ℕ) : SliceContents :=
  if v = 1 ∧ i = 0 ∨ v = 3 ∧ i = 1 then .fields ⟨['a'], 100, 2, 1, i, 16384⟩
  else if v = 2 ∧ i = 1 then .short
  else .absent

def relocatedSlots : Slots := ((Vector.replicate maxSlices 0).set! 0 2).set! 1 3

theorem relocated_shape {v i : ℕ} {h : SliceHeader}
    (hread : readSliceHeaderResult i (relocatedContents v i) = .ok h) :
    h.shape = ⟨100, 2, 1, 16384⟩ := by
  unfold relocatedContents at hread
  split_ifs at hread
  · simp only [readSliceHeaderResult, checkHeader] at hread
    split_ifs at hread
    cases hread
    rfl
  · cases hread
  · cases hread

theorem relocated_recoverable : ∃ s,
    Leads ['a'] (mountedOn [1, 2, 3]) relocatedContents relocatedSlots s ∧
      2 ≤ (agreeing ['a'] (mountedOn [1, 2, 3]) relocatedContents relocatedSlots
        [1, 2, 3] s).length := by
  have hdata : ∀ s, Leads ['a'] (mountedOn [1, 2, 3]) relocatedContents relocatedSlots s →
      2 ≤ s.dataSliceCount := by
    intro s hs
    obtain ⟨i, hi⟩ := List.exists_mem_of_ne_nil _ hs.1
    obtain ⟨_, hgood⟩ := goodAt_of_backs (List.mem_filter.mp hi).2
    rw [← show (⟨['a'], s, i⟩ : SliceHeader).shape = s from rfl,
      relocated_shape (goodAt_iff.mp hgood)]
  have hrecoverable : (synthesiseRecordFromIndex ['a'] (mountedOn [1, 2, 3]) relocatedContents
      (some relocatedSlots) 1 (some [1, 2, 3]) none).any (·.recoverable) = true := by
    decide +kernel
  obtain ⟨v, hv⟩ := (Option.any_eq_true _ _).mp hrecoverable
  obtain ⟨s, hs, htwo, -⟩ := (recoverable_iff_vote hdata).1.mp ⟨v, hv⟩
  exact ⟨s, hs, htwo⟩

end SliceVoting
