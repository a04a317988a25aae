import Strubs.ChunkPlan
import Strubs.StorageStats

/-! # The differences of one object

Every change of an object leaves a difference of the counters behind. What its creation adds,
its relocations move from volume to volume, and its deletion takes away. -/
namespace StatsConservation

open ChunkPlan StorageStats

/-- What the counters need of a row. Any of it may be missing. -/
structure StatsObjectRecord where
  size : Option ℕ
  chunkSize : Option ℕ
  dataVolumes : Option (List ℕ)
  parityVolumes : Option (List ℕ)
  sliceSize : Option ℕ

/-- The slice size as it follows from the row. -/
def computeObjectSliceSize (record : StatsObjectRecord) : ℕ :=
  let dataSliceCount := max 1 ((record.dataVolumes.map List.length).getD 1)
  let size := record.size.getD 0
  let chunkSize := record.chunkSize.getD 16384
  let sliceDataSize := size ⌈/⌉ dataSliceCount
  let startChunkSize : ℤ := chunkSize - fileHeaderSize
  let chunkDataSize := chunkSize - chunkHeaderSize
  let chunkCount : ℤ := max 1
    (1 + ceilDivInt (sliceDataSize - startChunkSize + chunkHeaderSize) chunkDataSize)
  (fileHeaderSize + sliceDataSize + chunkHeaderSize * chunkCount).toNat

namespace StatsObjectRecord

/-- The row with its defaults. The counters do not read the id. -/
def filled (record : StatsObjectRecord) : StoredObjectRecord where
  id := 0
  size := record.size.getD 0
  sliceSize := record.sliceSize.getD (computeObjectSliceSize record)
  dataVolumes := record.dataVolumes.getD []
  parityVolumes := record.parityVolumes.getD []

def volumes (record : StatsObjectRecord) : List ℕ := record.filled.volumes

/-- The row after one of its slices went to another volume. -/
def relocated (record : StatsObjectRecord) (fromVolumeId toVolumeId : ℕ) : StatsObjectRecord :=
  { record with
    dataVolumes := record.dataVolumes.map (List.map (replaceVolume fromVolumeId toVolumeId))
    parityVolumes := record.parityVolumes.map (List.map (replaceVolume fromVolumeId toVolumeId)) }

end StatsObjectRecord

/-- Without the volumes that are available, no object counts as unavailable. -/
def buildStorageStatsDeltaForObject (record : StatsObjectRecord) (direction : ℤ)
    (availableVolumeIds : Option (List ℕ)) : StorageStatsDelta :=
  StorageStats.buildStorageStatsDeltaForObject (fun v => availableVolumeIds.all (v ∈ ·))
    record.filled direction

def mergeAll (deltas : List StorageStatsDelta) : StorageStatsDelta :=
  deltas.foldl mergeStorageStatsDelta createEmptyStorageStatsDelta

/-- The source of every relocation is a volume of the object, and the target is not. -/
def Moves : StatsObjectRecord → List (ℕ × ℕ) → Prop
  | _, [] => True
  | record, (fromVolumeId, toVolumeId) :: moves =>
    fromVolumeId ∈ record.volumes ∧ toVolumeId ∉ record.volumes ∧
      Moves (record.relocated fromVolumeId toVolumeId) moves

/-- The differences that the relocations leave behind, each with the size and the slice size that
the object has then. A slice is a parity slice if it is not a data slice. -/
def relocationDeltas : StatsObjectRecord → List (ℕ × ℕ) → List StorageStatsDelta
  | _, [] => []
  | record, (fromVolumeId, toVolumeId) :: moves =>
    buildStorageStatsDeltaForRelocation fromVolumeId toVolumeId record.filled.size
      record.filled.sliceSize (fromVolumeId ∉ record.filled.dataVolumes) ::
      relocationDeltas (record.relocated fromVolumeId toVolumeId) moves

def afterMoves (record : StatsObjectRecord) (moves : List (ℕ × ℕ)) : StatsObjectRecord :=
  moves.foldl (fun record move => record.relocated move.1 move.2) record

/-- From the creation of an object to its deletion. -/
def lifetime (record : StatsObjectRecord) (moves : List (ℕ × ℕ))
    (atCreation atDeletion : Option (List ℕ)) : List StorageStatsDelta :=
  buildStorageStatsDeltaForObject record 1 atCreation :: relocationDeltas record moves ++
    [buildStorageStatsDeltaForObject (afterMoves record moves) (-1) atDeletion]

/-! ## The counters that conserve -/

/-- All counters but those of what is unavailable. -/
def conserved (t : Totals) : StorageCounters × (ℕ → StorageCounters) :=
  (fun c => t.1 (.counter c), t.2)

def counters (d : StorageStatsDelta) : StorageCounters × (ℕ → StorageCounters) :=
  conserved (totals d)

theorem counters_merge (a b : StorageStatsDelta) :
    counters (mergeStorageStatsDelta a b) = counters a + counters b :=
  congrArg conserved (totals_merge a b)

theorem counters_mergeAll (deltas : List StorageStatsDelta) :
    counters (mergeAll deltas) = (deltas.map counters).sum := by
  have hfold : ∀ start : StorageStatsDelta,
      counters (deltas.foldl mergeStorageStatsDelta start) =
        counters start + (deltas.map counters).sum := by
    induction deltas with
    | nil => exact fun start => (add_zero _).symm
    | cons d deltas ih =>
      intro start
      rw [List.foldl_cons, ih, counters_merge, List.map_cons, List.sum_cons, add_assoc]
  rw [mergeAll, hfold]
  exact zero_add _

/-- What an object adds to these counters, whatever is available. -/
def worth (record : StatsObjectRecord) : StorageCounters × (ℕ → StorageCounters) :=
  counters (buildStorageStatsDeltaForObject record 1 none)

theorem counters_create (record : StatsObjectRecord) (available : Option (List ℕ)) :
    counters (buildStorageStatsDeltaForObject record 1 available) = worth record := by
  apply Prod.ext
  · funext c
    cases c <;> rfl
  · rfl

theorem counters_delete (record : StatsObjectRecord) (available : Option (List ℕ)) :
    counters (buildStorageStatsDeltaForObject record (-1) available) = -worth record := by
  rw [← counters_create record available]
  exact congrArg conserved (@buildForObject_neg (fun v => available.all (v ∈ ·)) record.filled)

/-! ## Relocation -/

section Relocation

variable {record : StatsObjectRecord} {a b : ℕ} {moves : List (ℕ × ℕ)}

/-- A slice that went to another volume is as large as it was. -/
theorem filled_relocated (record : StatsObjectRecord) (a b : ℕ) :
    (record.relocated a b).filled = record.filled.relocated a b := by
  have hsize : computeObjectSliceSize (record.relocated a b) = computeObjectSliceSize record := by
    have hcount : (record.relocated a b).dataVolumes.map List.length =
        record.dataVolumes.map List.length := by
      simp [StatsObjectRecord.relocated, Function.comp_def]
    rw [computeObjectSliceSize, computeObjectSliceSize, hcount]
    rfl
  have hmap : ∀ l : Option (List ℕ), (l.map (List.map (replaceVolume a b))).getD [] =
      (l.getD []).map (replaceVolume a b) := by
    intro l
    cases l <;> rfl
  simp only [StatsObjectRecord.filled, hsize]
  simp only [StatsObjectRecord.relocated, StoredObjectRecord.relocated, hmap]

/-- What a relocation takes from one volume and gives to another is the difference. -/
theorem worth_relocated (hdistinct : record.volumes.Nodup) (ha : a ∈ record.volumes)
    (hb : b ∉ record.volumes) : worth (record.relocated a b) = worth record +
      counters (buildStorageStatsDeltaForRelocation a b record.filled.size record.filled.sliceSize
        (a ∉ record.filled.dataVolumes)) := by
  have h := @contribution_relocated (fun v => (none : Option (List ℕ)).all (v ∈ ·)) _ _ _
    hdistinct ha hb rfl (.inl rfl)
  rw [← filled_relocated] at h
  exact congrArg conserved h

theorem distinct_relocated (hdistinct : record.volumes.Nodup) (ha : a ∈ record.volumes)
    (hb : b ∉ record.volumes) : (record.relocated a b).volumes.Nodup := by
  have hne : a ≠ b := fun heq => hb (heq ▸ ha)
  rw [StatsObjectRecord.volumes, filled_relocated]
  exact nodup_relocated hdistinct hb hne

/-- Along a chain of relocations the differences add up to what has changed. -/
theorem worth_afterMoves (hdistinct : record.volumes.Nodup) (h : Moves record moves) :
    worth (afterMoves record moves) =
      worth record + ((relocationDeltas record moves).map counters).sum := by
  induction moves generalizing record with
  | nil => exact (add_zero _).symm
  | cons move moves ih =>
    obtain ⟨a, b⟩ := move
    obtain ⟨ha, hb, hmoves⟩ := h
    have hrest := ih (distinct_relocated hdistinct ha hb) hmoves
    rw [worth_relocated hdistinct ha hb] at hrest
    rw [relocationDeltas, List.map_cons, List.sum_cons, ← add_assoc]
    exact hrest

end Relocation

/-! ## The planned slice size -/

theorem ceilDivInt_nonneg {a : ℤ} {b : ℕ} (hb : 0 < b) (h : -a < b) : 0 ≤ ceilDivInt a b := by
  have hquotient : -a / (b : ℤ) < 1 :=
    Int.ediv_lt_of_lt_mul (by exact_mod_cast hb) (by rwa [one_mul])
  rw [ceilDivInt]
  omega

/-- No slice of an object that holds something is without a chunk, so that what the row says is
what was planned. -/
theorem planned_sliceSize {record : StatsObjectRecord} {S C : ℕ} {volumes : List ℕ}
    (hS : 1 ≤ S) (hD : 1 ≤ volumes.length) (hC : 64 < C) (hsize : record.size = some S)
    (hchunk : record.chunkSize = some C) (hvolumes : record.dataVolumes = some volumes) :
    (populatePlanDerivedFields S volumes.length C).sliceSize = computeObjectSliceSize record := by
  have hdata : 1 ≤ S ⌈/⌉ volumes.length := by
    rw [Nat.ceilDiv_eq_add_pred_div]
    exact Nat.div_pos (by omega) (by omega)
  have hcount := @ceilDivInt_nonneg
    (((S ⌈/⌉ volumes.length : ℕ) : ℤ) - ((C : ℤ) - fileHeaderSize) + chunkHeaderSize)
    (C - chunkHeaderSize) (by simp only [chunkHeaderSize]; omega)
    (by simp only [chunkHeaderSize, fileHeaderSize]; omega)
  simp only [computeObjectSliceSize, populatePlanDerivedFields, hsize, hchunk, hvolumes,
    Option.map_some, Option.getD_some, Nat.max_eq_right hD]
  rw [max_eq_right (by omega)]

/-- From its creation to its deletion an object leaves the counters as they were, whichever way
its slices went in between. The slice size that its row gives is the one that was reserved. -/
theorem deltas_conserve :
    (∀ (record : StatsObjectRecord) (moves : List (ℕ × ℕ)) (atCreation atDeletion),
      record.volumes.Nodup → Moves record moves →
      (∀ c, (mergeAll (lifetime record moves atCreation atDeletion)).system (.counter c) = 0) ∧
      ∀ v, (mergeAll (lifetime record moves atCreation atDeletion)).volume v = 0) ∧
    ∀ (record : StatsObjectRecord) (S C : ℕ) (volumes : List ℕ), 1 ≤ S → 1 ≤ volumes.length →
      64 < C → record.size = some S → record.chunkSize = some C →
      record.dataVolumes = some volumes →
      (populatePlanDerivedFields S volumes.length C).sliceSize = computeObjectSliceSize record := by
  constructor
  · intro record moves atCreation atDeletion hdistinct hmoves
    have hzero : counters (mergeAll (lifetime record moves atCreation atDeletion)) = 0 := by
      rw [counters_mergeAll, lifetime, List.map_append, List.map_cons, List.map_singleton,
        List.sum_append, List.sum_cons, List.sum_singleton, counters_create, counters_delete,
        worth_afterMoves hdistinct hmoves, add_neg_cancel]
    constructor
    · exact fun c => congrFun (congrArg Prod.fst hzero) c
    · exact fun v => congrFun (congrArg Prod.snd hzero) v
  · intro record S C volumes hS hD hC hsize hchunk hvolumes
    exact planned_sliceSize hS hD hC hsize hchunk hvolumes

/-- An object of two data slices and a parity slice. One of them comes back to the volume that
another had left. -/
def travelling : StatsObjectRecord := ⟨some 100000, some 16384, some [1, 2], some [3], none⟩

theorem deltas_conserve_travelling :
    ((∀ c, (mergeAll (lifetime travelling [(1, 4), (3, 1), (4, 3)] none (some [1]))).system
        (.counter c) = 0) ∧
      ∀ v, (mergeAll (lifetime travelling [(1, 4), (3, 1), (4, 3)] none (some [1]))).volume v =
        0) ∧
    (populatePlanDerivedFields 100000 2 16384).sliceSize = computeObjectSliceSize travelling := by
  have hmoves : Moves travelling [(1, 4), (3, 1), (4, 3)] := by
    refine ⟨by decide, by decide, by decide, by decide, by decide, by decide, trivial⟩
  exact ⟨deltas_conserve.1 travelling _ none (some [1]) (by decide) hmoves,
    deltas_conserve.2 travelling 100000 16384 [1, 2] (by decide) (by decide) (by decide) rfl rfl
      rfl⟩

end StatsConservation
