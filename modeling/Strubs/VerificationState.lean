import Strubs.InsertionMap
import Strubs.MessageDigest
import Strubs.SliceFile
import Strubs.StaleObjects

/-! # What a verification leaves on an object

The errors and the times of its slices. A volume's scrub and the verification of one file come
to them in different ways, and write them in the same one. -/
namespace VerificationState

open InsertionMap
open MessageDigest (Bytes)
open SliceFile (FaultCode)
open StaleObjects (SliceKind SliceVerificationTimes)

inductive ErrorCode where
  | fault (code : FaultCode)
  | EHDRSUM
  | EPARITY
  deriving DecidableEq

/-- An error that names no slice is kept under a key of its own. -/
inductive SliceKey where
  | slice (index : ℕ)
  | unknown
  deriving DecidableEq

structure SliceErrorInfo where
  code : Option ErrorCode
  checksum : Bool
  type : Option SliceKind
  deriving DecidableEq

structure VerificationRecord where
  dataVolumes : List ℕ
  parityVolumes : List ℕ
  lastVerifiedAt : Option ℤ
  sliceErrors : Table SliceKey SliceErrorInfo
  sliceVerificationTimes : SliceVerificationTimes

def VerificationRecord.volumes (r : VerificationRecord) : List ℕ := r.dataVolumes ++ r.parityVolumes

/-! ## The update -/

def mergeErrors (recorded sliceErrors : Table SliceKey SliceErrorInfo)
    (processedSliceKeys : List SliceKey) : Table SliceKey SliceErrorInfo :=
  sliceErrors.entries.foldl (fun t e => t.set e.1 e.2)
    (processedSliceKeys.foldl (fun t k => t.erase k) recorded)

/-- No slice has a time before that of the whole object. -/
def overlayExistingTimes (length : ℕ) (existing : List (Option ℤ)) (baseline : Option ℤ) :
    List (Option ℤ) :=
  (List.range length).map fun index =>
    match existing.getD index none with
    | none => baseline
    | some value => if baseline.any (value < ·) then baseline else some value

def markSliceVerified (dataSliceCount : ℕ) (verifiedAt : ℤ) (times : SliceVerificationTimes) :
    SliceKey → SliceVerificationTimes
  | .unknown => times
  | .slice index =>
    if index < dataSliceCount then { times with data := times.data.set index (some verifiedAt) }
    else
      { times with parity := times.parity.set (index - dataSliceCount) (some verifiedAt) }

def mergeSliceVerificationTimes (r : VerificationRecord) (verifiedAt : ℤ)
    (processedSliceKeys : List SliceKey) : SliceVerificationTimes :=
  let data :=
    overlayExistingTimes r.dataVolumes.length r.sliceVerificationTimes.data r.lastVerifiedAt
  let parity :=
    overlayExistingTimes r.parityVolumes.length r.sliceVerificationTimes.parity r.lastVerifiedAt
  processedSliceKeys.foldl (markSliceVerified r.dataVolumes.length verifiedAt) ⟨data, parity⟩

def deriveLastVerifiedAt (times : SliceVerificationTimes) : Option ℤ :=
  ((times.data ++ times.parity).mapM id).bind List.min?

structure ObjectVerificationStateUpdate where
  sliceErrors : Table SliceKey SliceErrorInfo
  sliceVerificationTimes : SliceVerificationTimes
  lastVerifiedAt : Option ℤ

def buildObjectVerificationStateUpdate (r : VerificationRecord) (verifiedAt : ℤ)
    (sliceErrors : Table SliceKey SliceErrorInfo) (processedSliceKeys : List SliceKey) :
    ObjectVerificationStateUpdate :=
  let sliceVerificationTimes := mergeSliceVerificationTimes r verifiedAt processedSliceKeys
  { sliceErrors := mergeErrors r.sliceErrors sliceErrors processedSliceKeys
    sliceVerificationTimes
    lastVerifiedAt := deriveLastVerifiedAt sliceVerificationTimes }

/-- A time that could not be derived is not touched. -/
def updateObjectVerificationState (update : ObjectVerificationStateUpdate)
    (r : VerificationRecord) : VerificationRecord :=
  { r with
    sliceErrors := update.sliceErrors
    sliceVerificationTimes := update.sliceVerificationTimes
    lastVerifiedAt := update.lastVerifiedAt.or r.lastVerifiedAt }

theorem get_foldl_erase (t : Table SliceKey SliceErrorInfo) (keys : List SliceKey) (k : SliceKey) :
    (keys.foldl (fun t k => t.erase k) t).get k = if k ∈ keys then none else t.get k := by
  induction keys generalizing t with
  | nil => simp
  | cons k' keys ih =>
    rw [List.foldl_cons, ih, get_erase]
    by_cases h : k = k'
    · simp [h]
    · simp [h]

theorem get_foldl_set (t : Table SliceKey SliceErrorInfo)
    {entries : List (SliceKey × SliceErrorInfo)} {k : SliceKey} (h : k ∉ entries.map Prod.fst) :
    (entries.foldl (fun t e => t.set e.1 e.2) t).get k = t.get k := by
  induction entries generalizing t with
  | nil => rfl
  | cons e entries ih =>
    rw [List.map_cons, List.mem_cons, not_or] at h
    rw [List.foldl_cons, ih _ h.2, get_set_ne _ _ h.1]

theorem isSome_foldl_set (t : Table SliceKey SliceErrorInfo)
    {entries : List (SliceKey × SliceErrorInfo)} {k : SliceKey} (h : k ∈ entries.map Prod.fst) :
    ((entries.foldl (fun t e => t.set e.1 e.2) t).get k).isSome := by
  induction entries using List.reverseRecOn with
  | nil => cases h
  | append_singleton entries e ih =>
    rw [List.foldl_append, List.foldl_cons, List.foldl_nil, get_set]
    split
    · rfl
    · next hne =>
      apply ih
      simpa [hne] using h

/-- An error is found for the slices that failed, and kept for those that were not looked at. -/
theorem isSome_mergeErrors {recorded sliceErrors : Table SliceKey SliceErrorInfo}
    {processed : List SliceKey} {k : SliceKey} :
    ((mergeErrors recorded sliceErrors processed).get k).isSome ↔
      (sliceErrors.get k).isSome ∨ k ∉ processed ∧ (recorded.get k).isSome := by
  rw [mergeErrors]
  by_cases h : k ∈ sliceErrors.entries.map Prod.fst
  · have hsome : (sliceErrors.get k).isSome := mem_keys_iff.mp h
    simp [isSome_foldl_set _ h, hsome]
  · have hnone : ¬(sliceErrors.get k).isSome := fun hsome => h (mem_keys_iff.mpr hsome)
    rw [get_foldl_set _ h, get_foldl_erase]
    by_cases hmem : k ∈ processed
    · simp [hmem, hnone]
    · simp [hmem, hnone]

theorem mem_of_mapM_id {times : List (Option ℤ)} {values : List ℤ}
    (h : times.mapM id = some values) : ∀ time ∈ times, ∃ value ∈ values, time = some value := by
  induction times generalizing values with
  | nil => simp
  | cons time times ih =>
    simp only [List.mapM_cons, id_eq, bind, Option.bind_eq_some_iff, pure, Option.some.injEq] at h
    obtain ⟨value, rfl, rest, hrest, rfl⟩ := h
    intro time htime
    rcases List.mem_cons.mp htime with rfl | htime
    · exact ⟨value, List.mem_cons_self, rfl⟩
    · obtain ⟨value', hmem, rfl⟩ := ih hrest time htime
      exact ⟨value', List.mem_cons_of_mem _ hmem, rfl⟩

/-- The object was verified no later than any of its slices. -/
theorem deriveLastVerifiedAt_le {times : SliceVerificationTimes} {t : ℤ}
    (h : deriveLastVerifiedAt times = some t) :
    ∀ time ∈ times.data ++ times.parity, ∃ value, time = some value ∧ t ≤ value := by
  obtain ⟨values, hvalues, hmin⟩ := Option.bind_eq_some_iff.mp h
  intro time htime
  obtain ⟨value, hmem, rfl⟩ := mem_of_mapM_id hvalues time htime
  exact ⟨value, rfl, (List.min?_eq_some_iff.mp hmin).2 value hmem⟩

/-! ## The checks -/

/-- What is thrown when a slice fails. It need not say which one did. -/
structure SliceFailure where
  code : Option ErrorCode
  sliceIndex : Option ℕ
  volumeId : Option ℕ
  deriving DecidableEq

def isIOAbort (failure : SliceFailure) : Bool := failure.code = some (.fault .IOABORT)

structure SliceDescriptor where
  key : SliceKey
  type : Option SliceKind
  volumeId : Option ℕ
  deriving DecidableEq

def describeSlice (r : VerificationRecord) : Option ℕ → SliceDescriptor
  | none => ⟨.unknown, none, none⟩
  | some index =>
    if index < r.dataVolumes.length then ⟨.slice index, some .data, r.dataVolumes[index]?⟩
    else ⟨.slice index, some .parity, r.parityVolumes[index - r.dataVolumes.length]?⟩

/-- Which slice a fault is of, and on which volume. -/
structure FaultKey where
  volumeId : Option ℕ
  slice : SliceKey
  deriving DecidableEq

structure SliceFaultInput where
  key : FaultKey
  code : Option ErrorCode
  deriving DecidableEq

structure Normalized where
  sliceKey : SliceKey
  info : SliceErrorInfo
  volumeId : Option ℕ
  deriving DecidableEq

def normalizeSliceError (r : VerificationRecord) (failure : SliceFailure) : Normalized :=
  let descriptor := describeSlice r failure.sliceIndex
  { sliceKey := descriptor.key
    info := ⟨failure.code, failure.code = some (.fault .ECHECKSUM), descriptor.type⟩
    volumeId := failure.volumeId.or descriptor.volumeId }

/-- What was found, before it is written. A file's verification also says of each slice whether
it is good. -/
structure Findings where
  processedSliceKeys : List SliceKey
  sliceErrors : Table SliceKey SliceErrorInfo
  sliceResults : Table SliceKey Bool
  reports : List SliceFaultInput

/-- The scrub reports what it finds. -/
def Findings.addFailure (f : Findings) (n : Normalized) : Findings :=
  { f with
    sliceErrors := f.sliceErrors.set n.sliceKey n.info
    reports := f.reports ++ [⟨⟨n.volumeId, n.sliceKey⟩, n.info.code⟩] }

def Findings.empty : Findings := ⟨[], .empty, .empty, []⟩

/-- The scrub of one object, over the slices on the volumes that it may read. It finds nothing
if it is aborted, or has no slice to look at. -/
def scrubObject (r : VerificationRecord) (outcomes : List (ℕ × Option SliceFailure)) :
    Option Findings :=
  if outcomes = [] ∨ outcomes.any fun o => o.2.any isIOAbort then none
  else
    some (outcomes.foldl (fun f o =>
      let f := { f with processedSliceKeys := f.processedSliceKeys ++ [.slice o.1] }
      match o.2 with
      | none => f
      | some failure => f.addFailure (normalizeSliceError r failure)) .empty)

/-- When the object cannot even be opened. -/
def scrubFailed (r : VerificationRecord) (failure : SliceFailure) : Option Findings :=
  if isIOAbort failure then none
  else
    let n := normalizeSliceError r failure
    some { Findings.empty.addFailure n with processedSliceKeys := [n.sliceKey] }

inductive VerifyMode where
  | light
  | full
  deriving DecidableEq

/-- One chunk set, as it was read when its parity was recomputed: what is stored, what is
correct for the data region, which data chunks of that came from their own slices, and which
slices were given up. -/
structure ChunkSetReading where
  stored : ℕ → Option Bytes
  correct : ℕ → Bytes
  direct : ℕ → Bool
  failed : ℕ → Bool
  failed_not_direct : ∀ i, failed i → ¬direct i

def dataIndices (r : VerificationRecord) : List ℕ := List.range r.dataVolumes.length

def parityIndices (r : VerificationRecord) : List ℕ :=
  List.range' r.dataVolumes.length r.parityVolumes.length

def verifyChunkSetParity (r : VerificationRecord) (x : ChunkSetReading) : List ℕ :=
  let dataIncomplete := (dataIndices r).any x.failed
  (parityIndices r).filter fun index =>
    match x.stored index with
    | none => false
    | some onDisk => !dataIncomplete && onDisk ≠ x.correct index

/-- There is no answer from a recomputation that broke off. -/
def verifyObjectParity (r : VerificationRecord) (readings : Option (List ChunkSetReading)) :
    List ℕ :=
  ((readings.getD []).flatMap (verifyChunkSetParity r)).dedup

/-- What a file's verification meets. -/
structure Verification where
  mode : VerifyMode
  verifyParity : Bool
  isVolumeDraining : ℕ → Bool
  outcome : ℕ → Option SliceFailure
  readings : Option (List ChunkSetReading)

def skipped (r : VerificationRecord) (v : Verification) : List ℕ :=
  (List.range r.volumes.length).filter fun index => r.volumes[index]?.any v.isVolumeDraining

def verified (r : VerificationRecord) (v : Verification) : List ℕ :=
  (List.range r.volumes.length).filter fun index => !r.volumes[index]?.any v.isVolumeDraining

def verifySliceIndex (r : VerificationRecord) (v : Verification) (f : Findings) (index : ℕ) :
    Findings :=
  match v.outcome index with
  | none => { f with sliceResults := f.sliceResults.set (.slice index) true }
  | some failure =>
    let n := normalizeSliceError r failure
    { f with
      sliceResults := f.sliceResults.set (.slice index) false
      sliceErrors := f.sliceErrors.set n.sliceKey n.info }

/-- Parity that does not match is an error, and is reported. -/
def addMismatch (r : VerificationRecord) (f : Findings) (index : ℕ) : Findings :=
  { f with
    sliceResults := f.sliceResults.set (.slice index) false
    sliceErrors := f.sliceErrors.set (.slice index) ⟨some .EPARITY, false, some .parity⟩
    reports := f.reports ++
      [⟨⟨r.parityVolumes[index - r.dataVolumes.length]?, .slice index⟩, some .EPARITY⟩] }

/-- Slices on a draining volume pass without a look at them. -/
def checkSlices (r : VerificationRecord) (v : Verification) : Findings :=
  (verified r v).foldl (verifySliceIndex r v)
    { Findings.empty with
      sliceResults := (skipped r v).foldl (fun t index => t.set (.slice index) true) .empty }

/-- Parity is recomputed only from data that is known to be good. -/
def recomputes (r : VerificationRecord) (v : Verification) : Bool :=
  v.verifyParity ∧ v.mode = .full ∧ skipped r v = [] ∧ (checkSlices r v).sliceErrors.size = 0

def verifyFile (r : VerificationRecord) (v : Verification) : Option Findings :=
  if (verified r v).any fun index => (v.outcome index).any isIOAbort then none
  else
    let mismatched := if recomputes r v then verifyObjectParity r v.readings else []
    let f := mismatched.foldl (addMismatch r) (checkSlices r v)
    some { f with processedSliceKeys := f.sliceResults.keys }

/-! ## What a recomputation shows -/

/-- The chunk set was compared with what the data slices themselves hold. -/
def readDirectly (r : VerificationRecord) (index : ℕ) (x : ChunkSetReading) : Bool :=
  (dataIndices r).all x.direct && (x.stored index).isSome

/-- A recomputation that compared all of a parity slice. -/
def thorough (r : VerificationRecord) (v : Verification) (index : ℕ) : Bool :=
  recomputes r v && (parityIndices r).contains index &&
    v.readings.any fun readings => readings.all (readDirectly r index)

/-- ... and found it to be right. -/
def foundToMatch (r : VerificationRecord) (v : Verification) (index : ℕ) : Bool :=
  thorough r v index && (v.readings.getD []).all fun x => x.stored index = some (x.correct index)

variable {r : VerificationRecord} {v : Verification} {index : ℕ}

/-- A chunk that was compared and is not called wrong is right. -/
theorem eq_correct_of_notMem {x : ChunkSetReading} (hindex : index ∈ parityIndices r)
    (hread : readDirectly r index x) (h : index ∉ verifyChunkSetParity r x) :
    x.stored index = some (x.correct index) := by
  rw [readDirectly, Bool.and_eq_true, List.all_eq_true] at hread
  obtain ⟨onDisk, hstored⟩ := Option.isSome_iff_exists.mp hread.2
  have hcomplete : (dataIndices r).any x.failed = false := by
    rw [List.any_eq_false]
    exact fun i hi hfailed => x.failed_not_direct i hfailed (hread.1 i hi)
  by_contra hne
  refine h (List.mem_filter.mpr ⟨hindex, ?_⟩)
  rw [hstored, Option.some.injEq] at hne
  simp [hstored, hcomplete, hne]

/-- A thorough verification that does not call a slice wrong has found it to be right. -/
theorem foundToMatch_of_notMem (hthorough : thorough r v index)
    (h : index ∉ verifyObjectParity r v.readings) : foundToMatch r v index := by
  rw [foundToMatch, hthorough, Bool.true_and, List.all_eq_true]
  intro x hx
  simp only [thorough, Bool.and_eq_true, List.contains_iff_mem, Option.any_eq_true,
    List.all_eq_true] at hthorough
  obtain ⟨⟨_, hindex⟩, readings, hreadings, hread⟩ := hthorough
  rw [hreadings, Option.getD_some] at hx
  rw [verifyObjectParity, List.mem_dedup, List.mem_flatMap, hreadings, Option.getD_some] at h
  exact decide_eq_true (eq_correct_of_notMem hindex (hread x hx) fun hmem => h ⟨x, hx, hmem⟩)

theorem addMismatch_found {f : Findings} {l : List ℕ} (h : index ∈ l) :
    ((l.foldl (addMismatch r) f).sliceErrors.get (.slice index)).isSome ∧
      (l.foldl (addMismatch r) f).sliceResults.get (.slice index) = some false := by
  induction l using List.reverseRecOn with
  | nil => cases h
  | append_singleton l i ih =>
    rw [List.foldl_append, List.foldl_cons, List.foldl_nil]
    simp only [addMismatch, get_set]
    by_cases hi : index = i
    · simp [hi]
    · have hmem : index ∈ l := by simpa [hi] using h
      simp [hi, ih hmem]

/-- Unless a thorough verification has an error for a slice, or calls it bad, the slice matches. -/
theorem verifyFile_foundToMatch {f : Findings} (h : verifyFile r v = some f)
    (hthorough : thorough r v index)
    (hgood : f.sliceErrors.get (.slice index) = none ∨
      f.sliceResults.get (.slice index) = some true) : foundToMatch r v index := by
  apply foundToMatch_of_notMem hthorough
  intro hmem
  have hrecomputes : recomputes r v := by
    rw [thorough, Bool.and_eq_true, Bool.and_eq_true] at hthorough
    exact hthorough.1.1
  rw [verifyFile, if_pos hrecomputes] at h
  split at h
  · cases h
  · cases h
    obtain ⟨herror, hresult⟩ := addMismatch_found (f := checkSlices r v) hmem
    rcases hgood with hgood | hgood
    · rw [hgood] at herror
      cases herror
    · rw [hgood] at hresult
      cases hresult

end VerificationState
