import Mathlib.Data.List.Dedup
import Mathlib.Tactic.Ring
import Strubs.CursorPaging

/-! # What the scrub visits

The query for what was not verified since the scrub began, and the loop that pages through it.
A slice that was never verified has no time of its own. -/
namespace StaleObjects

open CursorPaging

inductive SliceKind where
  | data
  | parity
  deriving DecidableEq

/-- An array holds something. -/
structure Config where
  dataSliceCount : ℕ
  paritySliceCount : ℕ
  data_pos : 0 < dataSliceCount

def Config.sliceCount (config : Config) : SliceKind → ℕ
  | .data => config.dataSliceCount
  | .parity => config.paritySliceCount

structure SliceVerificationTimes where
  data : List (Option ℤ)
  parity : List (Option ℤ)
  deriving DecidableEq

structure ContentDocument where
  isFile : Bool
  dataVolumes : List ℕ
  parityVolumes : List ℕ
  sliceVerificationTimes : SliceVerificationTimes
  lastVerifiedAt : Option ℤ
  deriving DecidableEq

def ContentDocument.volumes (d : ContentDocument) : SliceKind → List ℕ
  | .data => d.dataVolumes
  | .parity => d.parityVolumes

def ContentDocument.verifiedAt (d : ContentDocument) (kind : SliceKind) (index : ℕ) : Option ℤ :=
  match kind with
  | .data => d.sliceVerificationTimes.data.getD index none
  | .parity => d.sliceVerificationTimes.parity.getD index none

variable {ι : Type*} [LinearOrder ι]

abbrev Collection (ι : Type*) := List (ι × ContentDocument)

def timestampIsStale (time : Option ℤ) (startedAt : ℤ) : Bool := time.all (· < startedAt)

/-- What is asked about one index. -/
def staleSliceCondition (startedAt : ℤ) (volumeIds : List ℕ) (kind : SliceKind) (index : ℕ)
    (d : ContentDocument) : Bool :=
  (d.volumes kind)[index]?.any (· ∈ volumeIds) &&
    (timestampIsStale (d.verifiedAt kind index) startedAt &&
      timestampIsStale d.lastVerifiedAt startedAt)

def buildStaleSliceConditions (config : Config) (startedAt : ℤ) (volumeIds : List ℕ) :
    List (ContentDocument → Bool) :=
  let uniqueVolumeIds := volumeIds.dedup
  if uniqueVolumeIds.isEmpty then []
  else
    (List.range config.dataSliceCount).map (staleSliceCondition startedAt uniqueVolumeIds .data) ++
      (List.range config.paritySliceCount).map
        (staleSliceCondition startedAt uniqueVolumeIds .parity)

/-- With no volumes the object's own time is all that is asked about. -/
def findObjectsNeedingVerification (config : Config) (startedAt : ℤ) (limit : ℕ)
    (volumeIds : List ℕ) (afterId : Option ι) (objects : Collection ι) : Collection ι :=
  let staleSliceConditions := buildStaleSliceConditions config startedAt volumeIds
  page limit afterId (objects.filter fun e => e.2.isFile &&
    if staleSliceConditions.isEmpty then timestampIsStale e.2.lastVerifiedAt startedAt
    else staleSliceConditions.any (· e.2))

def findObjectsOnVolumesNeedingVerification (config : Config) (startedAt : ℤ) (limit : ℕ)
    (volumeIds : List ℕ) (afterId : Option ι) (objects : Collection ι) : Collection ι :=
  let staleSliceConditions := buildStaleSliceConditions config startedAt volumeIds
  if staleSliceConditions.isEmpty then []
  else page limit afterId (objects.filter fun e => e.2.isFile && staleSliceConditions.any (· e.2))

/-- What a batch is read from: the volumes that can be verified and the objects, at that time. -/
structure Fetch (ι : Type*) where
  volumeIds : List ℕ
  objects : Collection ι
  ids : (objects.map Prod.fst).Nodup

def verifyBatchSize : ℕ := 25

def fetchBatch (config : Config) (startedAt : ℤ) (isTargetedRun : Bool) (cursorId : Option ι)
    (f : Fetch ι) : Collection ι :=
  if f.volumeIds.isEmpty then []
  else if isTargetedRun then
    findObjectsOnVolumesNeedingVerification config startedAt verifyBatchSize f.volumeIds cursorId
      f.objects
  else
    findObjectsNeedingVerification config startedAt verifyBatchSize f.volumeIds cursorId f.objects

/-- The objects that are verified, batch by batch, and whether the run was completed. A run that
is interrupted has no further batch. -/
def execute (config : Config) (startedAt : ℤ) (isTargetedRun : Bool) :
    Option ι → List (Fetch ι) → Collection ι × Bool
  | _, [] => ([], false)
  | cursorId, f :: later =>
    match fetchBatch config startedAt isTargetedRun cursorId f with
    | [] => ([], true)
    | e :: batch =>
      let last := (e :: batch).getLast (List.cons_ne_nil e batch)
      let rest := execute config startedAt isTargetedRun (some last.1) later
      (e :: batch ++ rest.1, rest.2)

/-! ## What is due -/

structure SliceDue (startedAt : ℤ) (volumeIds : List ℕ) (d : ContentDocument) (kind : SliceKind)
    (index : ℕ) : Prop where
  volume : ∃ v ∈ volumeIds, (d.volumes kind)[index]? = some v
  slice : ∀ t, d.verifiedAt kind index = some t → t < startedAt
  object : ∀ t, d.lastVerifiedAt = some t → t < startedAt

def Due (startedAt : ℤ) (volumeIds : List ℕ) (d : ContentDocument) : Prop :=
  ∃ kind index, SliceDue startedAt volumeIds d kind index

/-- Only slices that the configuration has no place for are due. -/
structure Beyond (config : Config) (startedAt : ℤ) (volumeIds : List ℕ) (d : ContentDocument) :
    Prop where
  isFile : d.isFile
  due : Due startedAt volumeIds d
  index : ∀ kind index, SliceDue startedAt volumeIds d kind index → config.sliceCount kind ≤ index

variable {config : Config} {startedAt : ℤ} {volumeIds : List ℕ} {objects : Collection ι}
  {d : ContentDocument} {kind : SliceKind} {index : ℕ}

theorem timestampIsStale_iff {time : Option ℤ} :
    timestampIsStale time startedAt ↔ ∀ t, time = some t → t < startedAt := by
  cases time <;> simp [timestampIsStale]

theorem staleSliceCondition_iff : staleSliceCondition startedAt volumeIds.dedup kind index d ↔
    SliceDue startedAt volumeIds d kind index := by
  simp only [staleSliceCondition, Bool.and_eq_true, timestampIsStale_iff, Option.any_eq_true,
    decide_eq_true_eq, List.mem_dedup]
  constructor
  · rintro ⟨⟨v, hv, hmem⟩, hslice, hobject⟩
    exact ⟨⟨v, hmem, hv⟩, hslice, hobject⟩
  · rintro ⟨⟨v, hmem, hv⟩, hslice, hobject⟩
    exact ⟨⟨v, hv, hmem⟩, hslice, hobject⟩

/-- What the conditions match is what is due at an index that is configured. -/
theorem any_buildStaleSliceConditions :
    (buildStaleSliceConditions config startedAt volumeIds).any (· d) ↔
      ∃ kind index, index < config.sliceCount kind ∧ SliceDue startedAt volumeIds d kind index := by
  rw [buildStaleSliceConditions]
  split
  · next hempty =>
    simp only [List.any_nil, Bool.false_eq_true, false_iff]
    rintro ⟨kind, index, _, hdue⟩
    obtain ⟨v, hv, _⟩ := hdue.volume
    rw [← List.mem_dedup, List.isEmpty_iff.mp hempty] at hv
    cases hv
  · simp only [List.any_append, List.any_map, Bool.or_eq_true, List.any_eq_true, List.mem_range,
      Function.comp_apply, staleSliceCondition_iff]
    constructor
    · rintro (⟨index, hlt, hdue⟩ | ⟨index, hlt, hdue⟩)
      · exact ⟨.data, index, hlt, hdue⟩
      · exact ⟨.parity, index, hlt, hdue⟩
    · rintro ⟨kind, index, hlt, hdue⟩
      cases kind with
      | data => exact .inl ⟨index, hlt, hdue⟩
      | parity => exact .inr ⟨index, hlt, hdue⟩

theorem any_iff_not_beyond (hfile : d.isFile) (hdue : Due startedAt volumeIds d) :
    (buildStaleSliceConditions config startedAt volumeIds).any (· d) ↔
      ¬Beyond config startedAt volumeIds d := by
  rw [any_buildStaleSliceConditions]
  constructor
  · rintro ⟨kind, index, hlt, h⟩ hbeyond
    exact absurd (hbeyond.index kind index h) (Nat.not_le.mpr hlt)
  · intro hbeyond
    by_contra hnone
    refine hbeyond ⟨hfile, hdue, fun kind index h => ?_⟩
    by_contra hlt
    exact hnone ⟨kind, index, Nat.not_le.mp hlt, h⟩

theorem due_of_any (h : (buildStaleSliceConditions config startedAt volumeIds).any (· d)) :
    Due startedAt volumeIds d := by
  obtain ⟨kind, index, _, hdue⟩ := any_buildStaleSliceConditions.mp h
  exact ⟨kind, index, hdue⟩

theorem buildStaleSliceConditions_ne (h : volumeIds ≠ []) :
    (buildStaleSliceConditions config startedAt volumeIds).isEmpty = false := by
  obtain ⟨v, hv⟩ := List.exists_mem_of_ne_nil _ h
  have hdedup : volumeIds.dedup.isEmpty = false :=
    List.isEmpty_eq_false_iff_exists_mem.mpr ⟨v, List.mem_dedup.mpr hv⟩
  simp [buildStaleSliceConditions, hdedup, Nat.ne_of_gt config.data_pos]

/-! ## Finding -/

/-- What a query matches, in no order. -/
def matched (config : Config) (startedAt : ℤ) (volumeIds : List ℕ) (objects : Collection ι) :
    Collection ι :=
  objects.filter fun e => e.2.isFile &&
    (buildStaleSliceConditions config startedAt volumeIds).any (· e.2)

theorem find_eq (h : volumeIds ≠ []) (limit : ℕ) (afterId : Option ι) :
    findObjectsNeedingVerification config startedAt limit volumeIds afterId objects =
      page limit afterId (matched config startedAt volumeIds objects) := by
  simp [findObjectsNeedingVerification, buildStaleSliceConditions_ne h, matched]

theorem findOnVolumes_eq (h : volumeIds ≠ []) (limit : ℕ) (afterId : Option ι) :
    findObjectsOnVolumesNeedingVerification config startedAt limit volumeIds afterId objects =
      page limit afterId (matched config startedAt volumeIds objects) := by
  simp [findObjectsOnVolumesNeedingVerification, buildStaleSliceConditions_ne h, matched]

omit [LinearOrder ι] in
theorem mem_matched {e : ι × ContentDocument} :
    e ∈ matched config startedAt volumeIds objects ↔
      e ∈ objects ∧ e.2.isFile ∧ Due startedAt volumeIds e.2 ∧
        ¬Beyond config startedAt volumeIds e.2 := by
  rw [matched, List.mem_filter, Bool.and_eq_true]
  constructor
  · rintro ⟨hmem, hfile, hany⟩
    have hdue := due_of_any hany
    exact ⟨hmem, hfile, hdue, (any_iff_not_beyond hfile hdue).mp hany⟩
  · rintro ⟨hmem, hfile, hdue, hbeyond⟩
    exact ⟨hmem, hfile, (any_iff_not_beyond hfile hdue).mpr hbeyond⟩

/-- With no cursor and no limit, both queries return the files that are due and no others. -/
def FindsDue (config : Config) (startedAt : ℤ) (volumeIds : List ℕ) (objects : Collection ι) :
    Prop :=
  ∀ e : ι × ContentDocument,
    (e ∈ findObjectsNeedingVerification config startedAt 0 volumeIds none objects ↔
      e ∈ objects ∧ e.2.isFile ∧ Due startedAt volumeIds e.2) ∧
    (e ∈ findObjectsOnVolumesNeedingVerification config startedAt 0 volumeIds none objects ↔
      e ∈ objects ∧ e.2.isFile ∧ Due startedAt volumeIds e.2)

theorem findsDue_iff (h : volumeIds ≠ []) : FindsDue config startedAt volumeIds objects ↔
    ∀ e ∈ objects, ¬Beyond config startedAt volumeIds e.2 := by
  simp only [FindsDue, find_eq h, findOnVolumes_eq h, mem_page_zero, mem_matched, and_self]
  constructor
  · intro hfinds e hmem hbeyond
    exact ((hfinds e).mpr ⟨hmem, hbeyond.isFile, hbeyond.due⟩).2.2.2 hbeyond
  · intro hnone e
    constructor
    · rintro ⟨hmem, hfile, hdue, _⟩
      exact ⟨hmem, hfile, hdue⟩
    · rintro ⟨hmem, hfile, hdue⟩
      exact ⟨hmem, hfile, hdue, hnone e hmem⟩

/-! ## Paging -/

theorem fetchBatch_eq (isTargetedRun : Bool) (cursorId : Option ι) (f : Fetch ι) :
    fetchBatch config startedAt isTargetedRun cursorId f =
      page verifyBatchSize cursorId (matched config startedAt f.volumeIds f.objects) := by
  rw [fetchBatch]
  split
  · next hempty =>
    have hconditions : buildStaleSliceConditions config startedAt f.volumeIds = [] := by
      simp [buildStaleSliceConditions, List.isEmpty_iff.mp hempty]
    simp [matched, hconditions, page, behind]
  · next hne =>
    have hne : f.volumeIds ≠ [] := by simpa using hne
    split
    · exact findOnVolumes_eq hne _ _
    · exact find_eq hne _ _

theorem execute_eq_run (isTargetedRun : Bool) (cursorId : Option ι) (fetches : List (Fetch ι)) :
    execute config startedAt isTargetedRun cursorId fetches =
      run verifyBatchSize cursorId
        (fetches.map fun f => matched config startedAt f.volumeIds f.objects) := by
  induction fetches generalizing cursorId with
  | nil => rfl
  | cons f later ih =>
    simp only [execute, List.map_cons, run, fetchBatch_eq, ih]
    cases page verifyBatchSize cursorId (matched config startedAt f.volumeIds f.objects) <;> rfl

/-- An object that is due, under any document, at every fetch until it is verified. -/
def StaysDue (config : Config) (startedAt : ℤ) (isTargetedRun : Bool) (cursorId : Option ι)
    (fetches : List (Fetch ι)) (x : ι) : Prop :=
  ∀ n (hn : n < fetches.length),
    x ∉ (execute config startedAt isTargetedRun cursorId (fetches.take n)).1.map Prod.fst →
      ∃ d, (x, d) ∈ fetches[n].objects ∧ d.isFile ∧ Due startedAt fetches[n].volumeIds d

/-- None of the objects is due at slices beyond the configuration alone. -/
def NoneBeyond (config : Config) (startedAt : ℤ) (fetches : List (Fetch ι)) : Prop :=
  ∀ f ∈ fetches, ∀ e ∈ f.objects, ¬Beyond config startedAt f.volumeIds e.2

/-- What stays due is verified exactly once. -/
def VisitsOnce (config : Config) (startedAt : ℤ) (fetches : List (Fetch ι)) : Prop :=
  ∀ (isTargetedRun : Bool) (cursorId : Option ι) (x : ι),
    (execute config startedAt isTargetedRun cursorId fetches).2 → cursorId.all (· < x) →
      StaysDue config startedAt isTargetedRun cursorId fetches x →
      ((execute config startedAt isTargetedRun cursorId fetches).1.map Prod.fst).count x = 1

variable {fetches : List (Fetch ι)}

omit [LinearOrder ι] in
theorem matched_ids {rows : Collection ι}
    (h : rows ∈ fetches.map fun f => matched config startedAt f.volumeIds f.objects) :
    (rows.map Prod.fst).Nodup := by
  obtain ⟨f, _, rfl⟩ := List.mem_map.mp h
  exact f.ids.sublist (List.filter_sublist.map _)

theorem visitsOnce (h : NoneBeyond config startedAt fetches) :
    VisitsOnce config startedAt fetches := by
  intro isTargetedRun cursorId x hcompleted hcursor hdue
  simp only [StaysDue, execute_eq_run] at hcompleted hdue ⊢
  apply count_run hcompleted fun rows => matched_ids
  · intro n hn hunread
    rw [List.length_map] at hn
    rw [← List.map_take] at hunread
    obtain ⟨d, hmem, hfile, hdue⟩ := hdue n hn hunread
    rw [List.getElem_map]
    refine List.mem_map.mpr ⟨(x, d), mem_matched.mpr ⟨hmem, hfile, hdue, ?_⟩, rfl⟩
    exact h _ (List.getElem_mem hn) _ hmem
  · exact hcursor

/-- A run comes to its end when it may fetch once more than there are objects. -/
theorem execute_completes (isTargetedRun : Bool) (cursorId : Option ι) {ids : Finset ι}
    (hids : ∀ f ∈ fetches, ∀ e ∈ f.objects, e.1 ∈ ids) (hlength : ids.card < fetches.length) :
    (execute config startedAt isTargetedRun cursorId fetches).2 := by
  rw [execute_eq_run]
  apply run_completes
  · intro rows hrows e he
    obtain ⟨f, hf, rfl⟩ := List.mem_map.mp hrows
    exact hids f hf e (List.mem_filter.mp he).1
  · rw [List.length_map]
    exact (Finset.card_le_card (Finset.filter_subset _ _)).trans_lt hlength

/-- A run that was interrupted has not visited anything twice either. -/
theorem execute_visits_le (isTargetedRun : Bool) (cursorId : Option ι) (x : ι) :
    ((execute config startedAt isTargetedRun cursorId fetches).1.map Prod.fst).count x ≤ 1 := by
  rw [execute_eq_run]
  exact count_run_le x fun rows => matched_ids

/-- The scrub finds what is due if and only if nothing is due at slices beyond the
configuration alone, and visits it once in every run where that stays so. -/
theorem scrub_complete (config : Config) (startedAt : ℤ) :
    (∀ (volumeIds : List ℕ) (objects : Collection ι), volumeIds ≠ [] →
      (FindsDue config startedAt volumeIds objects ↔
        ∀ e ∈ objects, ¬Beyond config startedAt volumeIds e.2)) ∧
    ∀ fetches : List (Fetch ι),
      (NoneBeyond config startedAt fetches → VisitsOnce config startedAt fetches) ∧
      ∀ (isTargetedRun : Bool) (cursorId : Option ι),
        (∀ x, ((execute config startedAt isTargetedRun cursorId fetches).1.map
          Prod.fst).count x ≤ 1) ∧
        ∀ ids : Finset ι, (∀ f ∈ fetches, ∀ e ∈ f.objects, e.1 ∈ ids) →
          ids.card < fetches.length →
            (execute config startedAt isTargetedRun cursorId fetches).2 := by
  constructor
  · intro volumeIds objects hne
    exact findsDue_iff hne
  · intro fetches
    refine ⟨visitsOnce, fun isTargetedRun cursorId => ⟨?_, fun ids hids hlength => ?_⟩⟩
    · exact execute_visits_le isTargetedRun cursorId
    · exact execute_completes isTargetedRun cursorId hids hlength

/-- Four data slices and two of parity. -/
def fourPlusTwo : Config := ⟨4, 2, by decide⟩

/-- Written when there were five data slices, and verified but for the last of them. -/
def wide : ContentDocument where
  isFile := true
  dataVolumes := [1, 2, 3, 4, 5]
  parityVolumes := [6, 7]
  sliceVerificationTimes := ⟨[some 20, some 20, some 20, some 20, none], [some 20, some 20]⟩
  lastVerifiedAt := some 5

def narrow : ContentDocument :=
  { wide with dataVolumes := [1, 2, 3, 5], sliceVerificationTimes := ⟨[], []⟩ }

theorem wide_overlooked : wide.isFile ∧ SliceDue 10 [5] wide .data 4 ∧
    (0, wide) ∉ findObjectsNeedingVerification fourPlusTwo 10 0 [5] none [(0, wide)] ∧
    (0, wide) ∉ findObjectsOnVolumesNeedingVerification fourPlusTwo 10 0 [5] none [(0, wide)] := by
  refine ⟨rfl, ⟨⟨5, by decide, rfl⟩, ?_, ?_⟩, by decide, by decide⟩
  · intro t ht
    cases ht
  · intro t ht
    cases ht
    decide

theorem scrub_complete_narrow :
    FindsDue fourPlusTwo 10 [5] [(0, narrow)] ∧
      VisitsOnce fourPlusTwo 10 [⟨[5], [(0, narrow)], by decide⟩, ⟨[5], [(0, narrow)], by decide⟩] ∧
      (execute fourPlusTwo 10 false none
        [⟨[5], [(0, narrow)], by decide⟩, ⟨[5], [(0, narrow)], by decide⟩]).2 := by
  have hnone : ¬Beyond fourPlusTwo 10 [5] narrow := by
    intro h
    have hdue : SliceDue 10 [5] narrow .data 3 := by
      refine ⟨⟨5, by decide, rfl⟩, ?_, ?_⟩
      · intro t ht
        cases ht
      · intro t ht
        cases ht
        decide
    exact absurd (h.index .data 3 hdue) (by decide)
  obtain ⟨hfinds, hvisits⟩ := @scrub_complete ℕ _ fourPlusTwo 10
  have hrun := hvisits [⟨[5], [(0, narrow)], by decide⟩, ⟨[5], [(0, narrow)], by decide⟩]
  refine ⟨(hfinds [5] [(0, narrow)] (by decide)).mpr (by simpa using hnone), ?_, ?_⟩
  · exact hrun.1 (by simpa [NoneBeyond] using hnone)
  · exact (hrun.2 false none).2 {0} (by simp) (by decide)

end StaleObjects
