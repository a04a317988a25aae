import Strubs.ManifestWriter
import Strubs.StateMachine
import Strubs.VerificationState

/-! # Merging verifications

Each verification goes by the record as it has read it, and writes all the errors and all the times
back. Verifications of different slices that come one after the other make one record in any order.
Those that overlap do not. -/
namespace VerificationMerge

open BootstrapManifest (Dates)
open InsertionMap StaleObjects StateMachine VerificationState
open NamespaceRecord (Text)

/-- A date as it is kept in a record. One that is invalid has no time. -/
inductive StoredDate where
  | missing
  | date (t : Option ℤ)
  | text (s : Text)
  deriving DecidableEq

def StoredDate.ofTime : Option ℤ → StoredDate
  | none => .missing
  | some t => .date (some t)

/-- An array that is missing is one that has nothing in it, and so is a map of errors. -/
structure StoredRecord where
  dataVolumes : List ℕ
  parityVolumes : List ℕ
  lastVerifiedAt : StoredDate
  sliceErrors : Table SliceKey SliceErrorInfo
  data : List StoredDate
  parity : List StoredDate

variable (dates : Dates)

def coerceDate : StoredDate → Option ℤ
  | .missing => none
  | .date t => t
  | .text s => dates.parse s

/-- What a verification makes of the dates. -/
def StoredRecord.read (r : StoredRecord) : VerificationRecord where
  dataVolumes := r.dataVolumes
  parityVolumes := r.parityVolumes
  lastVerifiedAt := coerceDate dates r.lastVerifiedAt
  sliceErrors := r.sliceErrors
  sliceVerificationTimes :=
    ⟨r.data.map (coerceDate dates), r.parity.map (coerceDate dates)⟩

/-- Writes an update. What it does not set stays. -/
def StoredRecord.write (update : ObjectVerificationStateUpdate) (r : StoredRecord) :
    StoredRecord :=
  { r with
    sliceErrors := update.sliceErrors
    data := update.sliceVerificationTimes.data.map .ofTime
    parity := update.sliceVerificationTimes.parity.map .ofTime
    lastVerifiedAt := match update.lastVerifiedAt with
      | some t => .date (some t)
      | none => r.lastVerifiedAt }

/-- What a verification has found: the slices that it has looked at, and the errors of those that
failed. -/
structure Findings where
  verifiedAt : ℤ
  processedSliceKeys : List SliceKey
  sliceErrors : Table SliceKey SliceErrorInfo
  processed : ∀ k, (sliceErrors.get k).isSome = true → k ∈ processedSliceKeys

def Findings.update (f : Findings) (r : StoredRecord) : ObjectVerificationStateUpdate :=
  buildObjectVerificationStateUpdate (r.read dates) f.verifiedAt f.sliceErrors f.processedSliceKeys

/-- A verification from the reading to the writing, when nothing comes in between. -/
def verify (f : Findings) (r : StoredRecord) : StoredRecord := r.write (f.update dates r)

@[simp] theorem coerceDate_ofTime (t : Option ℤ) : coerceDate dates (.ofTime t) = t := by
  cases t <;> rfl

theorem map_coerceDate_ofTime (l : List (Option ℤ)) :
    (l.map StoredDate.ofTime).map (coerceDate dates) = l := by
  rw [List.map_map]
  exact (List.map_congr_left fun t _ => coerceDate_ofTime dates t).trans (List.map_id l)

/-- What is written is read back. -/
theorem read_write (update : ObjectVerificationStateUpdate) (r : StoredRecord) :
    (r.write update).read dates = updateObjectVerificationState update (r.read dates) := by
  simp only [StoredRecord.read, StoredRecord.write, updateObjectVerificationState,
    map_coerceDate_ofTime]
  cases update.lastVerifiedAt <;> rfl

/-! ## Times -/

def later : Option ℤ → Option ℤ → Option ℤ
  | none, b => b
  | a, none => a
  | some a, some b => some (max a b)

def StoredRecord.slices (r : StoredRecord) : ℕ := r.dataVolumes.length + r.parityVolumes.length

def timeAt (dataSliceCount : ℕ) (times : SliceVerificationTimes) (i : ℕ) : Option ℤ :=
  if i < dataSliceCount then times.data.getD i none
  else times.parity.getD (i - dataSliceCount) none

/-- When a slice was verified, by its place among the data slices and then the parity slices. -/
def StoredRecord.time (r : StoredRecord) (i : ℕ) : Option ℤ :=
  timeAt r.dataVolumes.length (r.read dates).sliceVerificationTimes i

section Times

variable {D P : ℕ} {v : ℤ} {times : SliceVerificationTimes}

/-- As many times as there are slices. -/
structure Sized (D P : ℕ) (times : SliceVerificationTimes) : Prop where
  data : times.data.length = D
  parity : times.parity.length = P

theorem getD_overlayExistingTimes {n i : ℕ} (hi : i < n) (existing : List (Option ℤ))
    (baseline : Option ℤ) :
    (overlayExistingTimes n existing baseline).getD i none =
      later (existing.getD i none) baseline := by
  have hget : (overlayExistingTimes n existing baseline)[i]? = some
      (match existing.getD i none with
        | none => baseline
        | some value => if baseline.any (value < ·) then baseline else some value) := by
    rw [overlayExistingTimes, List.getElem?_map, List.getElem?_range hi]
    rfl
  rw [List.getD_eq_getElem?_getD, hget, Option.getD_some]
  cases existing.getD i none with
  | none => rfl
  | some value =>
    cases baseline with
    | none => rfl
    | some b =>
      simp only [Option.any_some, decide_eq_true_eq, later]
      split_ifs with h
      · rw [max_eq_right h.le]
      · rw [max_eq_left (not_lt.mp h)]

theorem Sized.markSliceVerified (h : Sized D P times) (k : SliceKey) :
    Sized D P (markSliceVerified D v times k) := by
  cases k with
  | unknown => exact h
  | slice index =>
    rw [VerificationState.markSliceVerified]
    split_ifs
    · exact ⟨(List.length_set ..).trans h.data, h.parity⟩
    · exact ⟨h.data, (List.length_set ..).trans h.parity⟩

theorem timeAt_markSliceVerified (h : Sized D P times) {i : ℕ} (hi : i < D + P) (k : SliceKey) :
    timeAt D (markSliceVerified D v times k) i =
      if k = .slice i then some v else timeAt D times i := by
  have hset : ∀ {l : List (Option ℤ)} {j j' : ℕ}, j < l.length →
      (l.set j' (some v)).getD j none = if j' = j then some v else l.getD j none := by
    intro l j j' hj
    rw [List.getD_eq_getElem?_getD, List.getElem?_set, List.getD_eq_getElem?_getD]
    split_ifs with heq hlt
    · rfl
    · exact absurd (heq ▸ hj) hlt
    · rfl
  cases k with
  | unknown => simp [VerificationState.markSliceVerified]
  | slice index =>
    simp only [VerificationState.markSliceVerified, SliceKey.slice.injEq]
    by_cases hindex : index < D
    · rw [if_pos hindex]
      by_cases hiD : i < D
      · simp only [timeAt, if_pos hiD]
        exact hset (h.data ▸ hiD)
      · have hne : index ≠ i := by omega
        simp only [timeAt, if_neg hiD, if_neg hne]
    · rw [if_neg hindex]
      by_cases hiD : i < D
      · have hne : index ≠ i := by omega
        simp only [timeAt, if_pos hiD, if_neg hne]
      · have hiff : index - D = i - D ↔ index = i := by omega
        simp only [timeAt, if_neg hiD]
        rw [hset (by rw [h.parity]; omega)]
        simp only [hiff]

theorem sized_foldl (h : Sized D P times) (keys : List SliceKey) :
    Sized D P (keys.foldl (markSliceVerified D v) times) := by
  induction keys generalizing times with
  | nil => exact h
  | cons k keys ih => exact ih (h.markSliceVerified k)

theorem timeAt_foldl (h : Sized D P times) {i : ℕ} (hi : i < D + P) (keys : List SliceKey) :
    timeAt D (keys.foldl (markSliceVerified D v) times) i =
      if .slice i ∈ keys then some v else timeAt D times i := by
  induction keys generalizing times with
  | nil => simp
  | cons k keys ih =>
    rw [List.foldl_cons, ih (h.markSliceVerified k), timeAt_markSliceVerified h hi]
    by_cases hk : k = .slice i
    · simp [hk]
    · have hk' : ¬SliceKey.slice i = k := fun h => hk h.symm
      simp [hk, hk']

theorem sized_overlay (r : VerificationRecord) :
    Sized r.dataVolumes.length r.parityVolumes.length
      ⟨overlayExistingTimes r.dataVolumes.length r.sliceVerificationTimes.data r.lastVerifiedAt,
        overlayExistingTimes r.parityVolumes.length r.sliceVerificationTimes.parity
          r.lastVerifiedAt⟩ :=
  ⟨by simp [overlayExistingTimes], by simp [overlayExistingTimes]⟩

theorem sized_merge (r : VerificationRecord) (v : ℤ) (keys : List SliceKey) :
    Sized r.dataVolumes.length r.parityVolumes.length (mergeSliceVerificationTimes r v keys) :=
  sized_foldl (sized_overlay r) keys

theorem timeAt_merge (r : VerificationRecord) (v : ℤ) (keys : List SliceKey) {i : ℕ}
    (hi : i < r.dataVolumes.length + r.parityVolumes.length) :
    timeAt r.dataVolumes.length (mergeSliceVerificationTimes r v keys) i =
      if .slice i ∈ keys then some v
      else later (timeAt r.dataVolumes.length r.sliceVerificationTimes i) r.lastVerifiedAt := by
  rw [mergeSliceVerificationTimes, timeAt_foldl (sized_overlay r) hi]
  congr 1
  simp only [timeAt]
  split_ifs with hiD
  · exact getD_overlayExistingTimes hiD _ _
  · exact getD_overlayExistingTimes (by omega) _ _

theorem mem_times_iff (h : Sized D P times) {x : Option ℤ} :
    x ∈ times.data ++ times.parity ↔ ∃ i < D + P, timeAt D times i = x := by
  have hmem : ∀ {l : List (Option ℤ)}, x ∈ l ↔ ∃ i < l.length, l.getD i none = x := by
    intro l
    have hgetD : ∀ i (hi : i < l.length), l.getD i none = l[i] := by
      intro i hi
      rw [List.getD_eq_getElem?_getD, List.getElem?_eq_getElem hi, Option.getD_some]
    rw [List.mem_iff_getElem]
    constructor
    · rintro ⟨i, hi, rfl⟩
      exact ⟨i, hi, hgetD i hi⟩
    · rintro ⟨i, hi, rfl⟩
      exact ⟨i, hi, (hgetD i hi).symm⟩
  rw [List.mem_append, hmem, hmem, h.data, h.parity]
  constructor
  · rintro (⟨i, hi, hx⟩ | ⟨i, hi, hx⟩)
    · exact ⟨i, by omega, by rw [timeAt, if_pos hi, hx]⟩
    · refine ⟨D + i, by omega, ?_⟩
      rw [timeAt, if_neg (by omega), Nat.add_sub_cancel_left, hx]
  · rintro ⟨i, hi, hx⟩
    rw [timeAt] at hx
    split_ifs at hx with hiD
    · exact .inl ⟨i, hiD, hx⟩
    · exact .inr ⟨i - D, by omega, hx⟩

theorem mapM_id_eq_some {l : List (Option ℤ)} {values : List ℤ} :
    l.mapM id = some values ↔ l = values.map some := by
  induction l generalizing values with
  | nil => cases values <;> simp
  | cons x l ih =>
    rw [List.mapM_cons]
    constructor
    · intro h
      obtain ⟨a, ha, h⟩ := Option.bind_eq_some_iff.mp h
      obtain ⟨rest, hrest, h⟩ := Option.bind_eq_some_iff.mp h
      obtain rfl := Option.some.inj h
      obtain rfl : x = some a := ha
      rw [List.map_cons, ih.mp hrest]
    · intro h
      cases values with
      | nil => cases h
      | cons a rest =>
        rw [List.map_cons, List.cons.injEq] at h
        obtain ⟨rfl, h⟩ := h
        rw [ih.mpr h]
        rfl

theorem exists_values {l : List (Option ℤ)} (h : ∀ x ∈ l, ∃ u, x = some u) :
    ∃ values : List ℤ, l = values.map some := by
  induction l with
  | nil => exact ⟨[], rfl⟩
  | cons x l ih =>
    obtain ⟨u, rfl⟩ := h x List.mem_cons_self
    obtain ⟨values, rfl⟩ := ih fun y hy => h y (List.mem_cons_of_mem _ hy)
    exact ⟨u :: values, rfl⟩

/-- The object was verified when the first of its slices was, if all of them were. -/
theorem deriveLastVerifiedAt_eq_some (h : Sized D P times) {t : ℤ} :
    deriveLastVerifiedAt times = some t ↔
      (∀ i < D + P, ∃ u, timeAt D times i = some u ∧ t ≤ u) ∧
        ∃ i < D + P, timeAt D times i = some t := by
  rw [deriveLastVerifiedAt, ← mem_times_iff h]
  have hall : (∀ i < D + P, ∃ u, timeAt D times i = some u ∧ t ≤ u) ↔
      ∀ x ∈ times.data ++ times.parity, ∃ u, x = some u ∧ t ≤ u := by
    constructor
    · intro hi x hx
      obtain ⟨i, hlt, rfl⟩ := (mem_times_iff h).mp hx
      exact hi i hlt
    · intro hx i hlt
      exact hx _ ((mem_times_iff h).mpr ⟨i, hlt, rfl⟩)
  rw [hall]
  generalize times.data ++ times.parity = l
  constructor
  · intro hbind
    obtain ⟨values, hvalues, hmin⟩ := Option.bind_eq_some_iff.mp hbind
    obtain rfl := mapM_id_eq_some.mp hvalues
    obtain ⟨hmem, hle⟩ := List.min?_eq_some_iff.mp hmin
    refine ⟨fun x hx => ?_, List.mem_map.mpr ⟨t, hmem, rfl⟩⟩
    obtain ⟨u, hu, rfl⟩ := List.mem_map.mp hx
    exact ⟨u, rfl, hle u hu⟩
  · rintro ⟨hle, hmem⟩
    obtain ⟨values, rfl⟩ := exists_values fun x hx => (hle x hx).imp fun _ h => h.1
    refine Option.bind_eq_some_iff.mpr ⟨values, mapM_id_eq_some.mpr rfl,
      List.min?_eq_some_iff.mpr ⟨?_, fun u hu => ?_⟩⟩
    · obtain ⟨u, hu, heq⟩ := List.mem_map.mp hmem
      exact Option.some.inj heq ▸ hu
    · obtain ⟨u', heq, hle⟩ := hle (some u) (List.mem_map.mpr ⟨u, hu, rfl⟩)
      exact Option.some.inj heq ▸ hle

end Times

/-! ## One verification -/

variable {dates} {f g : Findings} {r : StoredRecord}

theorem get_foldl_set_mem (t : Table SliceKey SliceErrorInfo)
    {entries : List (SliceKey × SliceErrorInfo)} (hnodup : (entries.map Prod.fst).Nodup)
    {k : SliceKey} {e : SliceErrorInfo} (h : (k, e) ∈ entries) :
    (entries.foldl (fun t e => t.set e.1 e.2) t).get k = some e := by
  induction entries using List.reverseRecOn with
  | nil => cases h
  | append_singleton entries e' ih =>
    rw [List.foldl_append, List.foldl_cons, List.foldl_nil, get_set]
    rw [List.map_append, List.nodup_append] at hnodup
    rcases List.mem_append.mp h with hmem | hmem
    · have hne : k ≠ e'.1 := by
        rintro rfl
        exact hnodup.2.2 _ (List.mem_map_of_mem hmem) _ List.mem_cons_self rfl
      rw [if_neg hne]
      exact ih hnodup.1 hmem
    · obtain rfl := List.mem_singleton.mp hmem
      rw [if_pos rfl]

theorem get_mergeErrors (recorded : Table SliceKey SliceErrorInfo) (f : Findings) (k : SliceKey) :
    (mergeErrors recorded f.sliceErrors f.processedSliceKeys).get k =
      if k ∈ f.processedSliceKeys then f.sliceErrors.get k else recorded.get k := by
  rw [mergeErrors]
  cases herror : f.sliceErrors.get k with
  | none =>
    have hkey : k ∉ f.sliceErrors.entries.map Prod.fst := fun hmem => by
      have := mem_keys_iff.mp hmem
      rw [herror] at this
      cases this
    rw [get_foldl_set _ hkey, get_foldl_erase]
  | some e =>
    rw [if_pos (f.processed k (Option.isSome_of_eq_some herror))]
    exact get_foldl_set_mem _ f.sliceErrors.nodup (get_eq_some_iff.mp herror)

theorem sliceErrors_verify (f : Findings) (r : StoredRecord) (k : SliceKey) :
    (verify dates f r).sliceErrors.get k =
      if k ∈ f.processedSliceKeys then f.sliceErrors.get k else r.sliceErrors.get k :=
  get_mergeErrors r.sliceErrors f k

theorem time_write (update : ObjectVerificationStateUpdate) (r : StoredRecord) (i : ℕ) :
    (r.write update).time dates i =
      timeAt r.dataVolumes.length update.sliceVerificationTimes i := by
  rw [StoredRecord.time, read_write]
  rfl

/-- A slice that was looked at has the time of the verification. The others have one that is no
earlier than that of the object. -/
theorem time_verify (f : Findings) {i : ℕ} (hi : i < r.slices) :
    (verify dates f r).time dates i =
      if .slice i ∈ f.processedSliceKeys then some f.verifiedAt
      else later (r.time dates i) (coerceDate dates r.lastVerifiedAt) := by
  rw [verify, time_write]
  exact timeAt_merge (r.read dates) f.verifiedAt f.processedSliceKeys hi

theorem slices_verify (f : Findings) (r : StoredRecord) :
    (verify dates f r).slices = r.slices := rfl

theorem later_none (a : Option ℤ) : later a none = a := by
  cases a <;> rfl

theorem lastVerifiedAt_update {t : ℤ} :
    (f.update dates r).lastVerifiedAt = some t ↔
      (∀ i < r.slices, ∃ u, (verify dates f r).time dates i = some u ∧ t ≤ u) ∧
        ∃ i < r.slices, (verify dates f r).time dates i = some t := by
  have hsized := sized_merge (r.read dates) f.verifiedAt f.processedSliceKeys
  have htime : ∀ i, (verify dates f r).time dates i = timeAt r.dataVolumes.length
      (mergeSliceVerificationTimes (r.read dates) f.verifiedAt f.processedSliceKeys) i :=
    fun i => time_write _ r i
  simp only [htime]
  exact deriveLastVerifiedAt_eq_some hsized

/-- As long as a slice was never verified the object has no time either. -/
theorem lastVerifiedAt_of_update_none (hslices : 0 < r.slices)
    (h : (f.update dates r).lastVerifiedAt = none) :
    (verify dates f r).lastVerifiedAt = r.lastVerifiedAt ∧
      coerceDate dates r.lastVerifiedAt = none := by
  refine ⟨by rw [verify, StoredRecord.write, h], ?_⟩
  cases hlast : coerceDate dates r.lastVerifiedAt with
  | none => rfl
  | some b =>
    -- every slice has a time, and one of them is the earliest
    have hsome : ∀ i < r.slices, ∃ u, (verify dates f r).time dates i = some u := by
      intro i hi
      rw [time_verify f hi, hlast]
      split_ifs
      · exact ⟨_, rfl⟩
      · cases r.time dates i <;> exact ⟨_, rfl⟩
    choose! u hu using hsome
    obtain ⟨i, hi, hmin⟩ := Finset.exists_min_image (Finset.range r.slices) u
      ⟨0, Finset.mem_range.mpr hslices⟩
    have hderived : (f.update dates r).lastVerifiedAt = some (u i) :=
      lastVerifiedAt_update.mpr
        ⟨fun j hj => ⟨u j, hu j hj, hmin j (Finset.mem_range.mpr hj)⟩, i, Finset.mem_range.mp hi,
          hu i (Finset.mem_range.mp hi)⟩
    rw [h] at hderived
    cases hderived

theorem coerce_lastVerifiedAt_verify (hslices : 0 < r.slices) {t : ℤ} :
    coerceDate dates (verify dates f r).lastVerifiedAt = some t ↔
      (f.update dates r).lastVerifiedAt = some t := by
  cases hupdate : (f.update dates r).lastVerifiedAt with
  | none =>
    obtain ⟨hkept, hnone⟩ := lastVerifiedAt_of_update_none hslices hupdate
    rw [hkept, hnone]
  | some t' => simp [verify, StoredRecord.write, hupdate, coerceDate]

/-! ## Where findings come from -/

/-- What is thrown when a slice is checked says which slice it was. -/
def Named (outcome : ℕ → Option SliceFailure) : Prop :=
  ∀ i failure, outcome i = some failure → failure.sliceIndex = some i

theorem sliceKey_normalizeSliceError {r : VerificationRecord} {failure : SliceFailure} {i : ℕ}
    (h : failure.sliceIndex = some i) : (normalizeSliceError r failure).sliceKey = .slice i := by
  rw [normalizeSliceError, h, describeSlice]
  split <;> rfl

/-- A scrub has looked at every slice that it has an error for. -/
theorem scrubObject_processed {r : VerificationRecord} {outcome : ℕ → Option SliceFailure}
    (hnamed : Named outcome) {indices : List ℕ} {found : VerificationState.Findings}
    (h : scrubObject r (indices.map fun i => (i, outcome i)) = some found) :
    ∀ k, (found.sliceErrors.get k).isSome = true → k ∈ found.processedSliceKeys := by
  rw [scrubObject] at h
  split_ifs at h with hok
  obtain rfl := Option.some.inj h
  clear h hok
  induction indices using List.reverseRecOn with
  | nil => exact fun k hk => by cases hk
  | append_singleton indices i ih =>
    rw [List.map_append, List.foldl_append, List.map_singleton, List.foldl_cons, List.foldl_nil]
    generalize (indices.map fun i => (i, outcome i)).foldl _ VerificationState.Findings.empty = f
      at ih
    intro k hk
    cases ho : outcome i with
    | none =>
      simp only [ho] at hk ⊢
      exact List.mem_append_left _ (ih k hk)
    | some failure =>
      simp only [ho, VerificationState.Findings.addFailure, get_set] at hk ⊢
      split_ifs at hk with hkey
      · rw [hkey, sliceKey_normalizeSliceError (hnamed i failure ho)]
        exact List.mem_append_right _ (List.mem_singleton_self _)
      · exact List.mem_append_left _ (ih k hk)

/-- A verification of a file has a result for every slice that it has an error for. -/
theorem verifyFile_processed {r : VerificationRecord} {v : Verification} (hnamed : Named v.outcome)
    {found : VerificationState.Findings} (h : verifyFile r v = some found) :
    ∀ k, (found.sliceErrors.get k).isSome = true → k ∈ found.processedSliceKeys := by
  have hset : ∀ {f f' : VerificationState.Findings} {i : ℕ} {good : Bool} {e : SliceErrorInfo},
      (∀ k, (f.sliceErrors.get k).isSome = true → k ∈ f.sliceResults.keys) →
      f'.sliceResults = f.sliceResults.set (.slice i) good →
      f'.sliceErrors = f.sliceErrors ∨ f'.sliceErrors = f.sliceErrors.set (.slice i) e →
      ∀ k, (f'.sliceErrors.get k).isSome = true → k ∈ f'.sliceResults.keys := by
    intro f f' i good e hf hresults herrors k hk
    rw [mem_keys_iff, hresults, get_set]
    split_ifs with hki
    · rfl
    · rw [← mem_keys_iff]
      apply hf
      rcases herrors with herrors | herrors
      · rwa [herrors] at hk
      · rwa [herrors, get_set_ne _ _ hki] at hk
  have hchecked : ∀ l : List ℕ, ∀ f : VerificationState.Findings,
      (∀ k, (f.sliceErrors.get k).isSome = true → k ∈ f.sliceResults.keys) →
      ∀ k, ((l.foldl (verifySliceIndex r v) f).sliceErrors.get k).isSome = true →
        k ∈ (l.foldl (verifySliceIndex r v) f).sliceResults.keys := by
    intro l
    induction l with
    | nil => exact fun _ h => h
    | cons i l ih =>
      intro f hf
      apply ih
      rw [verifySliceIndex]
      split
      · exact hset (i := i) (e := ⟨none, false, none⟩) hf rfl (.inl rfl)
      · next failure ho =>
        have hkey := sliceKey_normalizeSliceError (r := r) (hnamed i failure ho)
        exact hset (i := i) hf rfl (.inr (by rw [← hkey]))
  have hmismatched : ∀ l : List ℕ, ∀ f : VerificationState.Findings,
      (∀ k, (f.sliceErrors.get k).isSome = true → k ∈ f.sliceResults.keys) →
      ∀ k, ((l.foldl (addMismatch r) f).sliceErrors.get k).isSome = true →
        k ∈ (l.foldl (addMismatch r) f).sliceResults.keys := by
    intro l
    induction l with
    | nil => exact fun _ h => h
    | cons i l ih => exact fun f hf => ih _ (hset (i := i) hf rfl (.inr rfl))
  rw [verifyFile] at h
  split_ifs at h
  · obtain rfl := Option.some.inj h
    exact hmismatched _ _ (hchecked _ _ fun k hk => by cases hk)
  · obtain rfl := Option.some.inj h
    exact hmismatched [] _ (hchecked _ _ fun k hk => by cases hk)

/-! ## Two verifications, one after the other -/

/-- The same record, whatever the order of its errors. -/
structure SameState (r r' : StoredRecord) : Prop where
  dataVolumes : r.dataVolumes = r'.dataVolumes
  parityVolumes : r.parityVolumes = r'.parityVolumes
  lastVerifiedAt : r.lastVerifiedAt = r'.lastVerifiedAt
  data : r.data = r'.data
  parity : r.parity = r'.parity
  sliceErrors : ∀ k, r.sliceErrors.get k = r'.sliceErrors.get k

/-- No slice was verified before the object was, once it has been verified at all. -/
theorem later_time_verify (f : Findings) {i : ℕ} (hi : i < r.slices) :
    later ((verify dates f r).time dates i) (coerceDate dates (verify dates f r).lastVerifiedAt) =
      (verify dates f r).time dates i := by
  cases hlast : coerceDate dates (verify dates f r).lastVerifiedAt with
  | none => exact later_none _
  | some b =>
    have hpos : 0 < r.slices := (Nat.zero_le i).trans_lt hi
    obtain ⟨u, hu, hle⟩ := (lastVerifiedAt_update.mp
      ((coerce_lastVerifiedAt_verify hpos).mp hlast)).1 i hi
    rw [hu]
    exact congrArg some (max_eq_left hle)

theorem time_verify_verify (f g : Findings) {i : ℕ} (hi : i < r.slices) :
    (verify dates g (verify dates f r)).time dates i =
      if .slice i ∈ g.processedSliceKeys then some g.verifiedAt
      else (verify dates f r).time dates i := by
  rw [time_verify (r := verify dates f r) g hi, later_time_verify f hi]

theorem Sized.ext {D P : ℕ} {times times' : SliceVerificationTimes} (h : Sized D P times)
    (h' : Sized D P times') (htime : ∀ i < D + P, timeAt D times i = timeAt D times' i) :
    times = times' := by
  have hlist : ∀ {l l' : List (Option ℤ)}, l.length = l'.length →
      (∀ i < l.length, l.getD i none = l'.getD i none) → l = l' := by
    intro l l' hlen hget
    refine List.ext_getElem hlen fun i hi hi' => ?_
    have := hget i hi
    simpa only [List.getD_eq_getElem?_getD, List.getElem?_eq_getElem hi,
      List.getElem?_eq_getElem hi', Option.getD_some] using this
  have hdata : times.data = times'.data := by
    apply hlist (h.data.trans h'.data.symm)
    intro i hi
    have hiD : i < D := h.data ▸ hi
    simpa only [timeAt, if_pos hiD] using htime i (Nat.lt_add_right P hiD)
  have hparity : times.parity = times'.parity := by
    apply hlist (h.parity.trans h'.parity.symm)
    intro i hi
    have hiP : i < P := h.parity ▸ hi
    have := htime (D + i) (Nat.add_lt_add_left hiP D)
    simpa only [timeAt, if_neg (Nat.not_lt.mpr (Nat.le_add_right D i)), Nat.add_sub_cancel_left]
      using this
  cases times
  cases times'
  exact congrArg₂ _ hdata hparity

/-- Verifications of different slices commute. -/
theorem verify_comm (hslices : 0 < r.slices)
    (hdisjoint : ∀ k ∈ f.processedSliceKeys, k ∉ g.processedSliceKeys) :
    SameState (verify dates g (verify dates f r)) (verify dates f (verify dates g r)) := by
  have htime : ∀ i < r.slices, (verify dates g (verify dates f r)).time dates i =
      (verify dates f (verify dates g r)).time dates i := by
    intro i hi
    rw [time_verify_verify f g hi, time_verify_verify g f hi, time_verify f hi, time_verify g hi]
    by_cases hf : .slice i ∈ f.processedSliceKeys
    · rw [if_pos hf, if_neg (hdisjoint _ hf), if_pos hf]
    · rw [if_neg hf, if_neg hf]
  have htimes : (g.update dates (verify dates f r)).sliceVerificationTimes =
      (f.update dates (verify dates g r)).sliceVerificationTimes := by
    apply Sized.ext (sized_merge ((verify dates f r).read dates) _ _)
      (sized_merge ((verify dates g r).read dates) _ _)
    intro i hi
    exact ((time_write _ _ i).symm.trans (htime i hi)).trans (time_write _ _ i)
  refine ⟨rfl, rfl, ?_, congrArg (fun times => times.data.map StoredDate.ofTime) htimes,
    congrArg (fun times => times.parity.map StoredDate.ofTime) htimes, ?_⟩
  · have hlast : (g.update dates (verify dates f r)).lastVerifiedAt =
        (f.update dates (verify dates g r)).lastVerifiedAt := congrArg deriveLastVerifiedAt htimes
    cases hnone : (g.update dates (verify dates f r)).lastVerifiedAt with
    | some t =>
      rw [hnone] at hlast
      simp only [verify, StoredRecord.write] at hlast hnone ⊢
      rw [hnone, ← hlast]
    | none =>
      rw [hnone] at hlast
      have hkept : ∀ {f g : Findings}, (g.update dates (verify dates f r)).lastVerifiedAt = none →
          (verify dates g (verify dates f r)).lastVerifiedAt = r.lastVerifiedAt := by
        intro f g hnone
        obtain ⟨hsame, hcoerce⟩ :=
          lastVerifiedAt_of_update_none (r := verify dates f r) hslices hnone
        rw [hsame]
        cases hfirst : (f.update dates r).lastVerifiedAt with
        | none => exact (lastVerifiedAt_of_update_none hslices hfirst).1
        | some t =>
          rw [(coerce_lastVerifiedAt_verify hslices).mpr hfirst] at hcoerce
          cases hcoerce
      rw [hkept hnone, hkept hlast.symm]
  · intro k
    rw [sliceErrors_verify, sliceErrors_verify, sliceErrors_verify, sliceErrors_verify]
    by_cases hf : k ∈ f.processedSliceKeys
    · rw [if_neg (hdisjoint k hf), if_pos hf, if_pos hf]
    · rw [if_neg hf, if_neg hf]

variable (dates) in
/-- A slice that was looked at has what was found, and the others keep what they had. The object
was verified when the first of its slices was. Different slices may be verified in any order. -/
theorem verification_is_a_merge (r : StoredRecord) (hslices : 0 < r.slices) (f : Findings) :
    (∀ k, (verify dates f r).sliceErrors.get k =
      if k ∈ f.processedSliceKeys then f.sliceErrors.get k else r.sliceErrors.get k) ∧
    (∀ i < r.slices, (verify dates f r).time dates i =
      if .slice i ∈ f.processedSliceKeys then some f.verifiedAt
      else later (r.time dates i) (coerceDate dates r.lastVerifiedAt)) ∧
    (∀ t, coerceDate dates (verify dates f r).lastVerifiedAt = some t ↔
      (∀ i < r.slices, ∃ u, (verify dates f r).time dates i = some u ∧ t ≤ u) ∧
        ∃ i < r.slices, (verify dates f r).time dates i = some t) ∧
    ∀ g : Findings, (∀ k ∈ f.processedSliceKeys, k ∉ g.processedSliceKeys) →
      SameState (verify dates g (verify dates f r)) (verify dates f (verify dates g r)) :=
  ⟨sliceErrors_verify f r, fun _ hi => time_verify f hi,
    fun _ => (coerce_lastVerifiedAt_verify hslices).trans lastVerifiedAt_update,
    fun _ hdisjoint => verify_comm hslices hdisjoint⟩

def inJuly : StoredRecord where
  dataVolumes := [1, 2]
  parityVolumes := [3]
  lastVerifiedAt := .text ManifestWriter.july1
  sliceErrors := .ofList [(.slice 1, ⟨some (.fault .ECHECKSUM), true, some .data⟩)]
  data := [.text ManifestWriter.july13, .text "13/07".toList]
  parity := []

/-- A verification that finds nothing wrong with the slices it looks at. -/
def clean (verifiedAt : ℤ) (keys : List SliceKey) : Findings where
  verifiedAt := verifiedAt
  processedSliceKeys := keys
  sliceErrors := .empty
  processed k h := by cases h

theorem verification_is_a_merge_in_july :
    let dates := ManifestWriter.julyDates
    let f := clean ManifestWriter.onJuly14 [.slice 1]
    let g := clean ManifestWriter.onJuly13 [.slice 2]
    (verify dates f inJuly).sliceErrors.get (.slice 1) = none ∧
      (verify dates f inJuly).time dates 0 = some ManifestWriter.onJuly13 ∧
      (verify dates f inJuly).time dates 2 = some ManifestWriter.onJuly1 ∧
      SameState (verify dates g (verify dates f inJuly))
        (verify dates f (verify dates g inJuly)) := by
  intro dates f g
  obtain ⟨herrors, htimes, -, hcomm⟩ := verification_is_a_merge dates inJuly (by decide) f
  refine ⟨(herrors _).trans (by decide), (htimes 0 (by decide)).trans (by decide),
    (htimes 2 (by decide)).trans (by decide), hcomm g (by decide)⟩

/-! ## Two verifications at a time -/

/-- Whether the other verification had been written when this one has read the record. -/
inductive Stage where
  | waiting
  | holding (after : Bool) (r : StoredRecord)
  | written (after : Bool) (r : StoredRecord)

def Stage.isWritten : Stage → Bool
  | .written _ _ => true
  | _ => false

structure State where
  record : StoredRecord
  stage : Bool → Stage
  last : Option Bool

inductive Event where
  | read (j : Bool)
  | write (j : Bool)
  deriving DecidableEq

def Enabled (s : State) : Event → Prop
  | .read j => match s.stage j with
    | .waiting => True
    | _ => False
  | .write j => match s.stage j with
    | .holding _ _ => True
    | _ => False

section Machine

variable (dates) (finds : Bool → StoredRecord → Findings)

def next (s : State) : Event → State
  | .read j =>
    { s with stage := Function.update s.stage j (.holding (s.stage !j).isWritten s.record) }
  | .write j =>
    match s.stage j with
    | .holding after r =>
      { record := s.record.write ((finds j r).update dates r)
        stage := Function.update s.stage j (.written after r)
        last := some j }
    | _ => s

/-- Two verifications of one object, and what each of them finds. -/
def machine (r : StoredRecord) : Machine State Event where
  Initial s := s = ⟨r, fun _ => .waiting, none⟩
  Enabled := Enabled
  next := next dates finds

instance (r : StoredRecord) (s : State) (e : Event) :
    Decidable ((machine dates finds r).Enabled s e) := by
  cases e <;> simp only [machine, Enabled] <;> split <;> infer_instance

/-- What was found is on record, and so is when, for the slices that were not looked at again. -/
def Kept (record : StoredRecord) (f : Findings) (again : List SliceKey) : Prop :=
  ∀ k ∈ f.processedSliceKeys, k ∉ again → record.sliceErrors.get k = f.sliceErrors.get k ∧
    ∀ i < record.slices, k = .slice i → ∃ u, record.time dates i = some u ∧ f.verifiedAt ≤ u

/-- There was nothing new to be found out about these slices. -/
def Known (r : StoredRecord) (f : Findings) (again : List SliceKey) : Prop :=
  ∀ k ∈ f.processedSliceKeys, k ∉ again → r.sliceErrors.get k = f.sliceErrors.get k ∧
    ∀ i < r.slices, k = .slice i →
      ∃ u, later (r.time dates i) (coerceDate dates r.lastVerifiedAt) = some u ∧ f.verifiedAt ≤ u

/-- What a verification has read, by whether the other one was written. -/
def Fits (r : StoredRecord) (j after : Bool) (r' : StoredRecord) : Prop :=
  r' = if after then verify dates (finds (!j) r) r else r

structure Invariant (r : StoredRecord) (s : State) : Prop where
  holding : ∀ j after r', s.stage j = .holding after r' → Fits dates finds r j after r' ∧
    (after = true → (s.stage !j).isWritten = true)
  written : ∀ j after r', s.stage j = .written after r' → Fits dates finds r j after r' ∧
    (after = true → (s.stage !j).isWritten = true ∧ s.last = some j)
  none : s.last = none → s.record = r ∧ ∀ j, (s.stage j).isWritten = false
  last : ∀ j, s.last = some j → ∃ after r', s.stage j = .written after r' ∧
    s.record = (if (s.stage !j).isWritten then verify dates (finds (!j) r) r else r).write
      ((finds j r').update dates r')

variable {dates finds} {r : StoredRecord} {s : State}

/-- What is on record as long as a verification has not been written. -/
theorem Invariant.record (h : Invariant dates finds r s) {j : Bool}
    (hj : (s.stage j).isWritten = false) :
    Fits dates finds r j (s.stage !j).isWritten s.record := by
  cases hlast : s.last with
  | none =>
    obtain ⟨hrecord, hnone⟩ := h.none hlast
    rw [hnone]
    exact hrecord
  | some i =>
    obtain ⟨after, r', hstage, hrecord⟩ := h.last i hlast
    have hi : i = !j := by
      cases i <;> cases j <;> simp_all [Stage.isWritten]
    subst hi
    have hfirst : after ≠ true := by
      rintro rfl
      have := ((h.written _ _ _ hstage).2 rfl).1
      rw [Bool.not_not, hj] at this
      cases this
    have hread : r' = r := by
      have := (h.written _ _ _ hstage).1
      rwa [Fits, if_neg hfirst] at this
    rw [Fits, hstage, if_pos (by rfl), hrecord, Bool.not_not, hj, hread]
    rfl

theorem invariant_initial : Invariant dates finds r ⟨r, fun _ => .waiting, none⟩ where
  holding _ _ _ h := by cases h
  written _ _ _ h := by cases h
  none _ := ⟨rfl, fun _ => rfl⟩
  last _ h := by cases h

theorem Invariant.read (h : Invariant dates finds r s) {j : Bool} (hj : s.stage j = .waiting) :
    Invariant dates finds r (next dates finds s (.read j)) := by
  have hself : (next dates finds s (.read j)).stage j =
      .holding (s.stage !j).isWritten s.record := Function.update_self ..
  have hother : ∀ i, i ≠ j → (next dates finds s (.read j)).stage i = s.stage i := fun i hi =>
    Function.update_of_ne hi _ _
  have hwritten : ∀ i, ((next dates finds s (.read j)).stage i).isWritten =
      (s.stage i).isWritten := by
    intro i
    by_cases hi : i = j
    · rw [hi, hself, hj]
      rfl
    · rw [hother i hi]
  refine ⟨fun i after r' hi => ?_, fun i after r' hi => ?_, fun hnone => ?_, fun i hi => ?_⟩
  · rw [hwritten]
    by_cases hij : i = j
    · subst hij
      rw [hself] at hi
      obtain ⟨rfl, rfl⟩ := Stage.holding.inj hi
      exact ⟨h.record (by rw [hj]; rfl), id⟩
    · rw [hother i hij] at hi
      exact h.holding i after r' hi
  · rw [hwritten]
    have hij : i ≠ j := by
      rintro rfl
      rw [hself] at hi
      cases hi
    rw [hother i hij] at hi
    exact h.written i after r' hi
  · exact ⟨(h.none hnone).1, fun i => (hwritten i).trans ((h.none hnone).2 i)⟩
  · obtain ⟨after, r', hstage, hrecord⟩ := h.last i hi
    have hij : i ≠ j := by
      rintro rfl
      rw [hj] at hstage
      cases hstage
    exact ⟨after, r', (hother i hij).trans hstage, by rw [hwritten]; exact hrecord⟩

theorem Invariant.write (h : Invariant dates finds r s) {j after : Bool} {r' : StoredRecord}
    (hj : s.stage j = .holding after r') :
    Invariant dates finds r (next dates finds s (.write j)) := by
  have hnext : next dates finds s (.write j) =
      { record := s.record.write ((finds j r').update dates r')
        stage := Function.update s.stage j (.written after r')
        last := some j } := by
    rw [next, hj]
  have hself : (next dates finds s (.write j)).stage j = .written after r' := by
    rw [hnext]
    exact Function.update_self ..
  have hother : ∀ i, i ≠ j → (next dates finds s (.write j)).stage i = s.stage i := by
    intro i hi
    rw [hnext]
    exact Function.update_of_ne hi _ _
  have hlast : (next dates finds s (.write j)).last = some j := by rw [hnext]
  have hmono : ∀ i, (s.stage i).isWritten = true →
      ((next dates finds s (.write j)).stage i).isWritten = true := by
    intro i hi
    by_cases hij : i = j
    · rw [hij, hself]
      rfl
    · rwa [hother i hij]
  have hunwritten : (s.stage j).isWritten = false := by
    rw [hj]
    rfl
  refine ⟨fun i after' r'' hi => ?_, fun i after' r'' hi => ?_, fun hnone => ?_, fun i hi => ?_⟩
  · have hij : i ≠ j := by
      rintro rfl
      rw [hself] at hi
      cases hi
    rw [hother i hij] at hi
    obtain ⟨hfits, hafter⟩ := h.holding i after' r'' hi
    exact ⟨hfits, fun ha => hmono _ (hafter ha)⟩
  · by_cases hij : i = j
    · subst hij
      rw [hself] at hi
      obtain ⟨rfl, rfl⟩ := Stage.written.inj hi
      obtain ⟨hfits, hafter⟩ := h.holding i after r' hj
      exact ⟨hfits, fun ha => ⟨hmono _ (hafter ha), hlast⟩⟩
    · rw [hother i hij] at hi
      obtain ⟨hfits, hafter⟩ := h.written i after' r'' hi
      -- one that has read after the other was written has not been written before it
      refine ⟨hfits, fun ha => absurd (hafter ha).1 ?_⟩
      have hflip : (!i) = j := by cases i <;> cases j <;> simp_all
      rw [hflip, hunwritten]
      exact Bool.false_ne_true
  · rw [hlast] at hnone
    cases hnone
  · rw [hlast] at hi
    obtain rfl := Option.some.inj hi
    refine ⟨after, r', hself, ?_⟩
    have hne : (!j) ≠ j := by cases j <;> simp
    have hrecord := h.record hunwritten
    rw [Fits] at hrecord
    rw [hother _ hne, ← hrecord, hnext]

theorem reachable_invariant (h : Reachable (machine dates finds r) s) :
    Invariant dates finds r s := by
  refine h.invariant (P := Invariant dates finds r) (fun s hs => ?_) fun s e h he => ?_
  · obtain rfl : s = _ := hs
    exact invariant_initial
  · cases e with
    | read j =>
      have hread : Enabled s (.read j) := he
      simp only [Enabled] at hread
      split at hread
      next hj => exact h.read hj
      · cases hread
    | write j =>
      have hwrite : Enabled s (.write j) := he
      simp only [Enabled] at hwrite
      split at hwrite
      next after r' hj => exact h.write hj
      · cases hwrite

theorem kept_verify (f : Findings) (r : StoredRecord) : Kept dates (verify dates f r) f [] := by
  intro k hk _
  refine ⟨(sliceErrors_verify f r k).trans (if_pos hk), ?_⟩
  rintro i hi rfl
  rw [slices_verify] at hi
  exact ⟨f.verifiedAt, (time_verify f hi).trans (if_pos hk), le_rfl⟩

/-- A verification keeps what one before it has found. -/
theorem kept_verify_verify (f g : Findings) (r : StoredRecord) :
    Kept dates (verify dates g (verify dates f r)) f g.processedSliceKeys := by
  intro k hk hagain
  constructor
  · rw [sliceErrors_verify, if_neg hagain, sliceErrors_verify, if_pos hk]
  · rintro i hi rfl
    rw [slices_verify, slices_verify] at hi
    refine ⟨f.verifiedAt, ?_, le_rfl⟩
    rw [time_verify_verify f g hi, if_neg hagain, time_verify f hi, if_pos hk]

/-- One that knows nothing of it keeps no more than what was known before. -/
theorem kept_verify_iff (f g : Findings) (r : StoredRecord) :
    Kept dates (verify dates g r) f g.processedSliceKeys ↔
      Known dates r f g.processedSliceKeys := by
  constructor
  · intro h k hk hagain
    obtain ⟨herror, htime⟩ := h k hk hagain
    rw [sliceErrors_verify, if_neg hagain] at herror
    refine ⟨herror, ?_⟩
    rintro i hi rfl
    obtain ⟨u, hu, hle⟩ := htime i hi rfl
    rw [time_verify g hi, if_neg hagain] at hu
    exact ⟨u, hu, hle⟩
  · intro h k hk hagain
    obtain ⟨herror, htime⟩ := h k hk hagain
    rw [sliceErrors_verify, if_neg hagain]
    refine ⟨herror, ?_⟩
    rintro i hi rfl
    rw [slices_verify] at hi
    obtain ⟨u, hu, hle⟩ := htime i hi rfl
    exact ⟨u, by rw [time_verify g hi, if_neg hagain, hu], hle⟩

theorem kept_write (f g : Findings) (r r' : StoredRecord) (again : List SliceKey)
    (hdata : r'.dataVolumes = r.dataVolumes) (hparity : r'.parityVolumes = r.parityVolumes) :
    Kept dates (r'.write (g.update dates r)) f again ↔ Kept dates (verify dates g r) f again := by
  have hslices : (r'.write (g.update dates r)).slices = (verify dates g r).slices := by
    show r'.dataVolumes.length + r'.parityVolumes.length = r.slices
    rw [hdata, hparity]
    rfl
  have htime : ∀ i, (r'.write (g.update dates r)).time dates i =
      (verify dates g r).time dates i := by
    intro i
    rw [verify, time_write, time_write, hdata]
  simp only [Kept, hslices, htime]
  rfl

/-- Two verifications lose nothing if and only if the one that is written last has read the record
after the other was written, or the slices that only the other has looked at were known to be as it
has found them. -/
theorem verifications_are_kept_iff (h : Reachable (machine dates finds r) s) {j after after' : Bool}
    {r₁ r₂ : StoredRecord} (hlast : s.last = some j) (hj : s.stage j = .written after r₂)
    (hother : s.stage (!j) = .written after' r₁) :
    Kept dates s.record (finds j r₂) [] ∧
        Kept dates s.record (finds (!j) r₁) (finds j r₂).processedSliceKeys ↔
      after = true ∨ Known dates r₁ (finds (!j) r₁) (finds j r₂).processedSliceKeys := by
  have hinv := reachable_invariant h
  obtain ⟨after₂, r₂', hj', hrecord⟩ := hinv.last j hlast
  obtain ⟨rfl, rfl⟩ := Stage.written.inj (hj.symm.trans hj')
  have hfirst : after' ≠ true := by
    rintro rfl
    have := ((hinv.written _ _ _ hother).2 rfl).2
    rw [hlast, Option.some.injEq] at this
    cases j <;> cases this
  have hr₁ : r₁ = r := by
    have := (hinv.written _ _ _ hother).1
    rwa [Fits, if_neg hfirst] at this
  subst hr₁
  have hr₂ := (hinv.written _ _ _ hj).1
  rw [hother, if_pos (by rfl)] at hrecord
  rw [Fits] at hr₂
  rw [hrecord]
  cases after with
  | true =>
    rw [if_pos rfl] at hr₂
    subst hr₂
    exact iff_of_true ⟨kept_verify _ _, kept_verify_verify _ _ _⟩ (.inl rfl)
  | false =>
    rw [if_neg Bool.false_ne_true] at hr₂
    subst hr₂
    rw [kept_write _ _ r₂ (verify dates (finds (!j) r₂) r₂) _ rfl rfl,
      kept_write _ _ r₂ (verify dates (finds (!j) r₂) r₂) _ rfl rfl, kept_verify_iff]
    simp [kept_verify]

end Machine

def mismatch : SliceErrorInfo := ⟨some (.fault .ECHECKSUM), true, some .data⟩

/-- The scrub of one volume looks at the first slice. The verification of the file looks at all of
them, and finds the second one to be bad. -/
def scrubAndFile (scrub : Bool) (_ : StoredRecord) : Findings :=
  if scrub then clean ManifestWriter.onJuly13 [.slice 0]
  else
    { verifiedAt := ManifestWriter.onJuly14
      processedSliceKeys := [.slice 0, .slice 1, .slice 2]
      sliceErrors := Table.empty.set (.slice 1) mismatch
      processed := fun k hk => by
        rw [get_set] at hk
        split_ifs at hk with h
        · simp [h]
        · cases hk }

def unverified : StoredRecord where
  dataVolumes := [1, 2]
  parityVolumes := [3]
  lastVerifiedAt := .missing
  sliceErrors := .empty
  data := []
  parity := []

def scrubbing : Machine State Event := machine ManifestWriter.julyDates scrubAndFile unverified

def start : State := ⟨unverified, fun _ => .waiting, none⟩

instance (s : State) (e : Event) : Decidable (scrubbing.Enabled s e) :=
  inferInstanceAs
    (Decidable ((machine ManifestWriter.julyDates scrubAndFile unverified).Enabled s e))

theorem verifications_are_kept_iff_in_turn :
    let s := [Event.read false, .write false, .read true, .write true].foldl scrubbing.next start
    Kept ManifestWriter.julyDates s.record (scrubAndFile true unverified) [] ∧
      Kept ManifestWriter.julyDates s.record (scrubAndFile false unverified) [.slice 0] := by
  intro s
  have hs : Reachable scrubbing s := (Reachable.initial rfl).run _ (by decide +kernel)
  exact (verifications_are_kept_iff hs (j := true) rfl rfl rfl).mpr (.inl rfl)

/-- The scrub has read its batch before the file was verified, and writes the record back as it was
then. -/
theorem stale_scrub_loses_error :
    let s := [Event.read true, .read false, .write false, .write true].foldl scrubbing.next start
    Reachable scrubbing s ∧ (s.stage false).isWritten = true ∧ (s.stage true).isWritten = true ∧
      ((scrubAndFile false unverified).sliceErrors.get (.slice 1)) = some mismatch ∧
      .slice 1 ∉ (scrubAndFile true unverified).processedSliceKeys ∧
      s.record.sliceErrors.get (.slice 1) = none ∧
      s.record.time ManifestWriter.julyDates 1 = none :=
  ⟨(Reachable.initial rfl).run _ (by decide +kernel), rfl, rfl, by decide, by decide, by decide,
    by decide⟩

end VerificationMerge
