import Mathlib.Algebra.BigOperators.Group.List.Basic
import Mathlib.Algebra.Module.Basic
import Mathlib.Data.Fintype.Pi
import Mathlib.Data.Fintype.Sum
import Mathlib.Tactic.Abel
import Mathlib.Tactic.DeriveFintype
import Mathlib.Tactic.Ring
import Strubs.InsertionMap

/-! # Storage statistics

Counters over the content collection, and the differences that one change of the collection
makes to them. A volume that has no counters yet has zero ones. -/
namespace StorageStats

open InsertionMap

inductive Counter where
  | objectCount
  | logicalBytes
  | dataSliceCount
  | paritySliceCount
  | dataBytes
  | parityBytes
  | physicalBytes
  deriving DecidableEq, Repr

instance : Fintype Counter where
  elems := {.objectCount, .logicalBytes, .dataSliceCount, .paritySliceCount, .dataBytes,
    .parityBytes, .physicalBytes}
  complete c := by cases c <;> decide

inductive SystemCounter where
  | counter (c : Counter)
  | unavailableObjectCount
  | unavailableLogicalBytes
  deriving DecidableEq, Fintype, Repr

abbrev StorageCounters := Counter → ℤ

abbrev StorageSystemStats := SystemCounter → ℤ

/-- A snapshot has the same counters as a difference between two. -/
structure StorageStatsDelta where
  system : StorageSystemStats
  volumes : Table ℕ StorageCounters

/-- A file's row. -/
structure StoredObjectRecord where
  id : ℕ
  size : ℕ
  sliceSize : ℕ
  dataVolumes : List ℕ
  parityVolumes : List ℕ
  deriving DecidableEq

def StoredObjectRecord.volumes (r : StoredObjectRecord) : List ℕ := r.dataVolumes ++ r.parityVolumes

def createEmptyStorageStatsDelta : StorageStatsDelta := ⟨0, .empty⟩

/-- The counters of a volume. -/
def StorageStatsDelta.volume (d : StorageStatsDelta) (v : ℕ) : StorageCounters :=
  (d.volumes.get v).getD 0

def addToVolume (t : Table ℕ StorageCounters) (v : ℕ) (c : StorageCounters) :
    Table ℕ StorageCounters :=
  t.set v ((t.get v).getD 0 + c)

def objectEntry (direction : ℤ) (size : ℕ) : StorageCounters
  | .objectCount => direction
  | .logicalBytes => direction * size
  | _ => 0

def dataEntry (direction : ℤ) (sliceSize : ℕ) : StorageCounters
  | .dataSliceCount => direction
  | .dataBytes => direction * sliceSize
  | .physicalBytes => direction * sliceSize
  | _ => 0

def parityEntry (direction : ℤ) (sliceSize : ℕ) : StorageCounters
  | .paritySliceCount => direction
  | .parityBytes => direction * sliceSize
  | .physicalBytes => direction * sliceSize
  | _ => 0

variable (readable : ℕ → Bool)

def objectIsUnavailable (dataVolumes parityVolumes : List ℕ) : Bool :=
  (dataVolumes.filter readable).length + (parityVolumes.filter readable).length <
    dataVolumes.length

def buildStorageStatsDeltaForObject (r : StoredObjectRecord) (direction : ℤ) :
    StorageStatsDelta where
  system
    | .counter .objectCount => direction
    | .counter .logicalBytes => direction * r.size
    | .counter .dataSliceCount => direction * r.dataVolumes.length
    | .counter .paritySliceCount => direction * r.parityVolumes.length
    | .counter .dataBytes => direction * (r.sliceSize * r.dataVolumes.length)
    | .counter .parityBytes => direction * (r.sliceSize * r.parityVolumes.length)
    | .counter .physicalBytes =>
      direction * (r.sliceSize * r.dataVolumes.length + r.sliceSize * r.parityVolumes.length)
    | .unavailableObjectCount =>
      if objectIsUnavailable readable r.dataVolumes r.parityVolumes then direction else 0
    | .unavailableLogicalBytes =>
      if objectIsUnavailable readable r.dataVolumes r.parityVolumes then direction * r.size else 0
  volumes :=
    let unique := r.volumes.dedup.foldl
      (fun t v => addToVolume t v (objectEntry direction r.size)) .empty
    let data := r.dataVolumes.foldl
      (fun t v => addToVolume t v (dataEntry direction r.sliceSize)) unique
    r.parityVolumes.foldl (fun t v => addToVolume t v (parityEntry direction r.sliceSize)) data

def buildStorageStatsDeltaForRelocation (fromVolumeId toVolumeId size sliceSize : ℕ)
    (isParity : Bool) : StorageStatsDelta where
  system := 0
  volumes :=
    let entry := fun (direction : ℤ) => objectEntry direction size +
      if isParity then parityEntry direction sliceSize else dataEntry direction sliceSize
    addToVolume (addToVolume .empty fromVolumeId (entry (-1))) toVolumeId (entry 1)

def mergeStorageStatsDelta (target source : StorageStatsDelta) : StorageStatsDelta where
  system := target.system + source.system
  volumes := source.volumes.entries.foldl (fun t e => addToVolume t e.1 e.2) target.volumes

def storageStatsDeltaIsEmpty (d : StorageStatsDelta) : Bool :=
  d.system = 0 ∧ ∀ c ∈ d.volumes.values, c = 0

/-- What is written into the stored counters. -/
def applyDelta (stored d : StorageStatsDelta) : StorageStatsDelta :=
  if storageStatsDeltaIsEmpty d then stored
  else
    { system := stored.system + d.system
      volumes := (d.volumes.entries.filter (·.2 ≠ 0)).foldl
        (fun t e => addToVolume t e.1 e.2) stored.volumes }

section Compute

variable (rows : List StoredObjectRecord)

/-- The volumes of a row are known, as some slice is on each. -/
def isUnavailableRow (r : StoredObjectRecord) : Bool :=
  r.parityVolumes.length <
    (r.dataVolumes.filter (!readable ·)).dedup.length +
      (r.parityVolumes.filter (!readable ·)).dedup.length

def total (f : StoredObjectRecord → ℕ) : ℤ := ((rows.map f).sum : ℕ)

def systemStats : StorageSystemStats
  | .counter .objectCount => rows.length
  | .counter .logicalBytes => total rows (·.size)
  | .counter .dataSliceCount => total rows (·.dataVolumes.length)
  | .counter .paritySliceCount => total rows (·.parityVolumes.length)
  | .counter .dataBytes => total rows fun r => r.sliceSize * r.dataVolumes.length
  | .counter .parityBytes => total rows fun r => r.sliceSize * r.parityVolumes.length
  | .counter .physicalBytes => total rows (fun r => r.sliceSize * r.dataVolumes.length) +
      total rows fun r => r.sliceSize * r.parityVolumes.length
  | .unavailableObjectCount => (rows.filter (isUnavailableRow readable)).length
  | .unavailableLogicalBytes => total (rows.filter (isUnavailableRow readable)) (·.size)

def volumeStats (v : ℕ) : StorageCounters
  | .objectCount => (rows.filter (v ∈ ·.volumes)).length
  | .logicalBytes => total (rows.filter (v ∈ ·.volumes)) (·.size)
  | .dataSliceCount => total rows (·.dataVolumes.count v)
  | .paritySliceCount => total rows (·.parityVolumes.count v)
  | .dataBytes => total rows fun r => r.sliceSize * r.dataVolumes.count v
  | .parityBytes => total rows fun r => r.sliceSize * r.parityVolumes.count v
  | .physicalBytes => total rows (fun r => r.sliceSize * r.dataVolumes.count v) +
      total rows fun r => r.sliceSize * r.parityVolumes.count v

def computeStorageStats : StorageStatsDelta where
  system := systemStats readable rows
  volumes := Table.ofList ((rows.flatMap (·.volumes)).dedup.map fun v => (v, volumeStats rows v))

end Compute

/-! ## What the counters add up to -/

abbrev Totals := StorageSystemStats × (ℕ → StorageCounters)

def totals (d : StorageStatsDelta) : Totals := (d.system, d.volume)

variable {readable}

@[simp] theorem totals_empty : totals createEmptyStorageStatsDelta = 0 := rfl

theorem getD_addToVolume (t : Table ℕ StorageCounters) (v w : ℕ) (c : StorageCounters) :
    ((addToVolume t v c).get w).getD 0 = (t.get w).getD 0 + if w = v then c else 0 := by
  rw [addToVolume, get_set]
  split
  · next h => simp [h]
  · simp

theorem getD_foldl_addToVolume (entries : List (ℕ × StorageCounters))
    (t : Table ℕ StorageCounters) (w : ℕ) :
    ((entries.foldl (fun t e => addToVolume t e.1 e.2) t).get w).getD 0 =
      (t.get w).getD 0 + (entries.map fun e => if w = e.1 then e.2 else 0).sum := by
  induction entries generalizing t with
  | nil => simp
  | cons e entries ih =>
    rw [List.foldl_cons, ih, getD_addToVolume, List.map_cons, List.sum_cons, add_assoc]

/-- The same counters for each of the volumes of a list. -/
theorem getD_foldl_addToVolume_const (volumes : List ℕ) (c : StorageCounters)
    (t : Table ℕ StorageCounters) (w : ℕ) :
    ((volumes.foldl (fun t v => addToVolume t v c) t).get w).getD 0 =
      (t.get w).getD 0 + volumes.count w • c := by
  induction volumes generalizing t with
  | nil => simp
  | cons v volumes ih =>
    rw [List.foldl_cons, ih, getD_addToVolume, List.count_cons]
    by_cases h : w = v
    · subst h
      rw [if_pos rfl, if_pos (by simp), succ_nsmul', add_assoc]
    · simp [h, Ne.symm h]

theorem sum_entries (t : Table ℕ StorageCounters) (w : ℕ) :
    (t.entries.map fun e => if w = e.1 then e.2 else 0).sum = (t.get w).getD 0 := by
  have hget : ∀ (entries : List (ℕ × StorageCounters)), (entries.map Prod.fst).Nodup →
      (entries.map fun e => if w = e.1 then e.2 else 0).sum =
        ((entries.find? (·.1 = w)).map Prod.snd).getD 0 := by
    intro entries
    induction entries with
    | nil => simp
    | cons e entries ih =>
      intro hnodup
      rw [List.map_cons, List.nodup_cons] at hnodup
      rw [List.map_cons, List.sum_cons, ih hnodup.2, List.find?_cons]
      by_cases h : e.1 = w
      · have hnone : entries.find? (·.1 = w) = none := by
          rw [List.find?_eq_none]
          intro e' he' heq
          exact hnodup.1 (List.mem_map.mpr ⟨e', he', by simpa [h] using heq⟩)
        simp [h, hnone]
      · simp [h, Ne.symm h]
  exact hget t.entries t.nodup

theorem totals_merge (a b : StorageStatsDelta) :
    totals (mergeStorageStatsDelta a b) = totals a + totals b := by
  apply Prod.ext
  · rfl
  · funext v
    simp only [totals, StorageStatsDelta.volume, mergeStorageStatsDelta, Prod.snd_add, Pi.add_apply]
    rw [getD_foldl_addToVolume, sum_entries]

theorem totals_of_isEmpty {d : StorageStatsDelta} (h : storageStatsDeltaIsEmpty d) :
    totals d = 0 := by
  simp only [storageStatsDeltaIsEmpty, decide_eq_true_eq] at h
  apply Prod.ext
  · exact h.1
  · funext v
    simp only [totals, StorageStatsDelta.volume]
    cases hget : d.volumes.get v with
    | none => rfl
    | some c => exact h.2 c (mem_values_iff.mpr ⟨v, hget⟩)

theorem sum_filter_nonzero (entries : List (ℕ × StorageCounters)) (w : ℕ) :
    ((entries.filter (·.2 ≠ 0)).map fun e => if w = e.1 then e.2 else 0).sum =
      (entries.map fun e => if w = e.1 then e.2 else 0).sum := by
  induction entries with
  | nil => rfl
  | cons e entries ih =>
    rw [List.filter_cons]
    split
    · rw [List.map_cons, List.sum_cons, List.map_cons, List.sum_cons, ih]
    · next h =>
      have hzero : e.2 = 0 := by simpa using h
      rw [List.map_cons, List.sum_cons, ih, hzero, ite_self, zero_add]

theorem totals_applyDelta (stored d : StorageStatsDelta) :
    totals (applyDelta stored d) = totals stored + totals d := by
  rw [applyDelta]
  split
  · next h => rw [totals_of_isEmpty h, add_zero]
  · apply Prod.ext
    · rfl
    · funext v
      simp only [totals, StorageStatsDelta.volume, Prod.snd_add, Pi.add_apply]
      rw [getD_foldl_addToVolume, sum_filter_nonzero, sum_entries]

/-! ## What an object adds to the counters -/

def contribution (readable : ℕ → Bool) (r : StoredObjectRecord) : Totals :=
  totals (buildStorageStatsDeltaForObject readable r 1)

/-- What an object adds to the counters of a volume. -/
theorem volume_buildForObject (r : StoredObjectRecord) (direction : ℤ) (v : ℕ) :
    (buildStorageStatsDeltaForObject readable r direction).volume v =
      (if v ∈ r.volumes then objectEntry direction r.size else 0) +
        r.dataVolumes.count v • dataEntry direction r.sliceSize +
        r.parityVolumes.count v • parityEntry direction r.sliceSize := by
  simp only [StorageStatsDelta.volume, buildStorageStatsDeltaForObject]
  rw [getD_foldl_addToVolume_const, getD_foldl_addToVolume_const, getD_foldl_addToVolume_const]
  have hempty : ((Table.empty : Table ℕ StorageCounters).get v).getD 0 = 0 := rfl
  rw [hempty, zero_add, List.count_dedup]
  split
  · rw [one_smul]
  · rw [zero_smul]

theorem objectEntry_neg (size : ℕ) : objectEntry (-1) size = -objectEntry 1 size := by
  funext c
  cases c <;> simp [objectEntry]

theorem dataEntry_neg (sliceSize : ℕ) : dataEntry (-1) sliceSize = -dataEntry 1 sliceSize := by
  funext c
  cases c <;> simp [dataEntry]

theorem parityEntry_neg (sliceSize : ℕ) :
    parityEntry (-1) sliceSize = -parityEntry 1 sliceSize := by
  funext c
  cases c <;> simp [parityEntry]

theorem buildForObject_neg (r : StoredObjectRecord) :
    totals (buildStorageStatsDeltaForObject readable r (-1)) = -contribution readable r := by
  apply Prod.ext
  · funext c
    simp only [totals, contribution, Prod.fst_neg, Pi.neg_apply]
    cases c with
    | counter c => cases c <;> simp [buildStorageStatsDeltaForObject]; try ring
    | unavailableObjectCount => simp only [buildStorageStatsDeltaForObject]; split <;> simp
    | unavailableLogicalBytes => simp only [buildStorageStatsDeltaForObject]; split <;> simp
  · funext v
    simp only [totals, contribution, Prod.snd_neg, Pi.neg_apply]
    rw [volume_buildForObject, volume_buildForObject, objectEntry_neg, dataEntry_neg,
      parityEntry_neg, smul_neg, smul_neg, neg_add, neg_add]
    split <;> simp

theorem isUnavailableRow_eq {r : StoredObjectRecord} (h : r.volumes.Nodup) :
    isUnavailableRow readable r = objectIsUnavailable readable r.dataVolumes r.parityVolumes := by
  have hdata := (List.nodup_append.mp h).1
  have hparity := (List.nodup_append.mp h).2.1
  have hsplit : ∀ l : List ℕ, (l.filter readable).length + (l.filter (!readable ·)).length =
      l.length := by
    intro l
    simpa using (List.length_eq_length_filter_add readable (l := l)).symm
  have h₁ := hsplit r.dataVolumes
  have h₂ := hsplit r.parityVolumes
  rw [isUnavailableRow, objectIsUnavailable, (hdata.filter _).dedup, (hparity.filter _).dedup,
    decide_eq_decide]
  omega

theorem total_cons (r : StoredObjectRecord) (rows : List StoredObjectRecord)
    (f : StoredObjectRecord → ℕ) : total (r :: rows) f = f r + total rows f := by
  simp [total]

theorem total_filter_cons (r : StoredObjectRecord) (rows : List StoredObjectRecord)
    (p : StoredObjectRecord → Bool) (f : StoredObjectRecord → ℕ) :
    total ((r :: rows).filter p) f = (if p r then (f r : ℤ) else 0) + total (rows.filter p) f := by
  rw [List.filter_cons]
  split
  · rw [total_cons]
  · rw [zero_add]

theorem length_filter_cons (r : StoredObjectRecord) (rows : List StoredObjectRecord)
    (p : StoredObjectRecord → Bool) :
    (((r :: rows).filter p).length : ℤ) = (if p r then 1 else 0) + (rows.filter p).length := by
  rw [List.filter_cons]
  split
  · push_cast [List.length_cons]
    ring
  · rw [zero_add]

theorem systemStats_cons {r : StoredObjectRecord} (h : r.volumes.Nodup)
    (rows : List StoredObjectRecord) :
    systemStats readable (r :: rows) = (contribution readable r).1 + systemStats readable rows := by
  have hrow : isUnavailableRow readable r =
      objectIsUnavailable readable r.dataVolumes r.parityVolumes := isUnavailableRow_eq h
  funext c
  simp only [contribution, totals, buildStorageStatsDeltaForObject, Pi.add_apply]
  cases c with
  | counter c =>
    cases c <;> simp only [systemStats, total_cons, List.length_cons] <;> push_cast <;> ring
  | unavailableObjectCount => simp only [systemStats, length_filter_cons, hrow]
  | unavailableLogicalBytes => simp only [systemStats, total_filter_cons, hrow, one_mul]

theorem volumeStats_cons (r : StoredObjectRecord) (rows : List StoredObjectRecord) (v : ℕ) :
    volumeStats (r :: rows) v = (contribution readable r).2 v + volumeStats rows v := by
  funext c
  simp only [contribution, totals, volume_buildForObject, Pi.add_apply]
  by_cases hv : v ∈ r.volumes <;>
    cases c <;>
    simp [volumeStats, total_cons, objectEntry, dataEntry, parityEntry, hv] <;> ring

theorem volume_compute (rows : List StoredObjectRecord) (v : ℕ) :
    (computeStorageStats readable rows).volume v = volumeStats rows v := by
  have hnone : ∀ rows : List StoredObjectRecord, (∀ r ∈ rows, v ∉ r.volumes) →
      volumeStats rows v = 0 := by
    intro rows
    induction rows with
    | nil =>
      intro _
      funext c
      cases c <;> simp [volumeStats, total]
    | cons r rows ih =>
      intro h
      rw [@volumeStats_cons readable, ih fun r' hr' => h r' (List.mem_cons_of_mem _ hr'), add_zero]
      simp only [contribution, totals]
      have hr : v ∉ r.dataVolumes ∧ v ∉ r.parityVolumes := by
        simpa [StoredObjectRecord.volumes] using h r List.mem_cons_self
      rw [volume_buildForObject, if_neg (h r List.mem_cons_self), List.count_eq_zero.mpr hr.1,
        List.count_eq_zero.mpr hr.2]
      simp
  have hkeys : ((rows.flatMap (·.volumes)).dedup.map fun v => (v, volumeStats rows v)).map
      Prod.fst = (rows.flatMap (·.volumes)).dedup := by
    rw [List.map_map]
    exact List.map_id _
  have hget : ∀ c, (computeStorageStats readable rows).volumes.get v = some c ↔
      v ∈ rows.flatMap (·.volumes) ∧ volumeStats rows v = c := by
    intro c
    rw [computeStorageStats, get_ofList_iff (by rw [hkeys]; exact List.nodup_dedup _),
      List.mem_map]
    constructor
    · rintro ⟨w, hw, heq⟩
      obtain ⟨rfl, rfl⟩ := Prod.mk.inj heq
      exact ⟨List.mem_dedup.mp hw, rfl⟩
    · rintro ⟨hw, rfl⟩
      exact ⟨v, List.mem_dedup.mpr hw, rfl⟩
  rw [StorageStatsDelta.volume]
  cases h : (computeStorageStats readable rows).volumes.get v with
  | some c => exact ((hget c).mp h).2.symm
  | none =>
    refine (hnone rows fun r hr hv => ?_).symm
    have hsome := (hget _).mpr ⟨List.mem_flatMap.mpr ⟨r, hr, hv⟩, rfl⟩
    rw [h] at hsome
    cases hsome

/-- The counters of the collection are what its objects add to them. -/
theorem totals_compute {rows : List StoredObjectRecord} (h : ∀ r ∈ rows, r.volumes.Nodup) :
    totals (computeStorageStats readable rows) = (rows.map (contribution readable)).sum := by
  have hvolumes : ∀ rows : List StoredObjectRecord,
      totals (computeStorageStats readable rows) = (systemStats readable rows, volumeStats rows) :=
    fun rows => Prod.ext rfl (funext fun v => volume_compute rows v)
  rw [hvolumes]
  induction rows with
  | nil =>
    apply Prod.ext
    · funext c
      cases c with
      | counter c => cases c <;> simp [systemStats, total]
      | unavailableObjectCount => simp [systemStats]
      | unavailableLogicalBytes => simp [systemStats, total]
    · funext v c
      cases c <;> simp [volumeStats, total]
  | cons r rows ih =>
    rw [List.map_cons, List.sum_cons, ← ih fun r' hr' => h r' (List.mem_cons_of_mem _ hr')]
    apply Prod.ext
    · exact systemStats_cons (h r List.mem_cons_self) rows
    · funext v
      exact volumeStats_cons r rows v

/-! ## Relocation -/

def replaceVolume (fromVolumeId toVolumeId v : ℕ) : ℕ := if v = fromVolumeId then toVolumeId else v

def StoredObjectRecord.relocated (r : StoredObjectRecord) (fromVolumeId toVolumeId : ℕ) :
    StoredObjectRecord :=
  { r with
    dataVolumes := r.dataVolumes.map (replaceVolume fromVolumeId toVolumeId)
    parityVolumes := r.parityVolumes.map (replaceVolume fromVolumeId toVolumeId) }

section Relocated

variable {r : StoredObjectRecord} {a b : ℕ}

theorem count_map_replaceVolume {l : List ℕ} (hb : b ∉ l) (hne : a ≠ b) (v : ℕ) :
    (l.map (replaceVolume a b)).count v =
      if v = b then l.count a else if v = a then 0 else l.count v := by
  induction l with
  | nil => simp
  | cons w l ih =>
    rw [List.mem_cons, not_or] at hb
    rw [List.map_cons, List.count_cons, List.count_cons, List.count_cons, ih hb.2, replaceVolume]
    grind

theorem mem_map_replaceVolume {l : List ℕ} (hb : b ∉ l) (hne : a ≠ b) (v : ℕ) :
    v ∈ l.map (replaceVolume a b) ↔ (v = b ∧ a ∈ l) ∨ (v ≠ a ∧ v ≠ b ∧ v ∈ l) := by
  simp only [List.mem_map, replaceVolume]
  grind

theorem nodup_relocated (h : r.volumes.Nodup) (hto : b ∉ r.volumes) (hne : a ≠ b) :
    (r.relocated a b).volumes.Nodup := by
  rw [List.nodup_iff_count_le_one] at h ⊢
  intro v
  have hmap : (r.relocated a b).volumes = r.volumes.map (replaceVolume a b) := by
    simp [StoredObjectRecord.volumes, StoredObjectRecord.relocated]
  rw [hmap, count_map_replaceVolume hto hne]
  split
  · exact h a
  · split
    · exact Nat.zero_le _
    · exact h v

theorem objectIsUnavailable_relocated (hto : readable b)
    (hfrom : readable a ∨ ¬objectIsUnavailable readable r.dataVolumes r.parityVolumes) :
    objectIsUnavailable readable (r.relocated a b).dataVolumes (r.relocated a b).parityVolumes =
      objectIsUnavailable readable r.dataVolumes r.parityVolumes := by
  have hlength : ∀ l : List ℕ, ((l.map (replaceVolume a b)).filter readable).length =
      (l.filter (readable ∘ replaceVolume a b)).length := by
    intro l
    rw [List.filter_map, List.length_map]
  have hmono : ∀ l : List ℕ, (l.filter readable).length ≤
      (l.filter (readable ∘ replaceVolume a b)).length := by
    intro l
    refine (List.monotone_filter_right l fun v hv => ?_).length_le
    simp only [Function.comp, replaceVolume]
    split
    · exact hto
    · exact hv
  simp only [objectIsUnavailable, StoredObjectRecord.relocated, List.length_map, hlength]
  by_cases ha : readable a
  · have hsame : readable ∘ replaceVolume a b = readable := by
      funext v
      simp only [Function.comp, replaceVolume]
      split
      · next h => rw [h, hto, ha]
      · rfl
    rw [hsame]
  · have hdata := hmono r.dataVolumes
    have hparity := hmono r.parityVolumes
    have havailable := hfrom.resolve_left ha
    simp only [objectIsUnavailable, decide_eq_true_eq] at havailable
    rw [decide_eq_decide]
    omega

/-- The recorded difference is the difference. -/
theorem contribution_relocated (h : r.volumes.Nodup) (ha : a ∈ r.volumes) (hb : b ∉ r.volumes)
    (hto : readable b)
    (hfrom : readable a ∨ ¬objectIsUnavailable readable r.dataVolumes r.parityVolumes) :
    contribution readable (r.relocated a b) = contribution readable r +
      totals (buildStorageStatsDeltaForRelocation a b r.size r.sliceSize
        (a ∉ r.dataVolumes)) := by
  have hne : a ≠ b := fun heq => hb (heq ▸ ha)
  apply Prod.ext
  · funext c
    simp only [contribution, totals, buildStorageStatsDeltaForObject,
      objectIsUnavailable_relocated hto hfrom]
    cases c with
    | counter c =>
      cases c <;> simp [StoredObjectRecord.relocated, buildStorageStatsDeltaForRelocation]
    | unavailableObjectCount => simp [buildStorageStatsDeltaForRelocation]
    | unavailableLogicalBytes =>
      simp [StoredObjectRecord.relocated, buildStorageStatsDeltaForRelocation]
  · funext v
    simp only [contribution, totals, Prod.snd_add, Pi.add_apply]
    have hempty : ((Table.empty : Table ℕ StorageCounters).get v).getD 0 = 0 := rfl
    have hdata : b ∉ r.dataVolumes := fun hm => hb (List.mem_append_left _ hm)
    have hparity : b ∉ r.parityVolumes := fun hm => hb (List.mem_append_right _ hm)
    have hcount : r.dataVolumes.count a = (if a ∈ r.dataVolumes then 1 else 0) ∧
        r.parityVolumes.count a = (if a ∈ r.dataVolumes then 0 else 1) := by
      have hsum := List.count_eq_one_of_mem h ha
      rw [StoredObjectRecord.volumes, List.count_append] at hsum
      split
      · next hm =>
        have := List.count_pos_iff.mpr hm
        omega
      · next hm =>
        rw [List.count_eq_zero.mpr hm] at hsum ⊢
        omega
    have hmem : v ∈ (r.relocated a b).volumes ↔ v = b ∨ (v ≠ a ∧ v ∈ r.volumes) := by
      have hmap : (r.relocated a b).volumes = r.volumes.map (replaceVolume a b) := by
        simp [StoredObjectRecord.volumes, StoredObjectRecord.relocated]
      rw [hmap, mem_map_replaceVolume hb hne]
      by_cases hv : v = b <;> simp [hv, ha, hb]
    rw [volume_buildForObject, volume_buildForObject]
    simp only [hmem]
    simp only [StorageStatsDelta.volume, buildStorageStatsDeltaForRelocation, getD_addToVolume,
      hempty, StoredObjectRecord.relocated, count_map_replaceVolume hdata hne,
      count_map_replaceVolume hparity hne, hcount.1, hcount.2]
    rw [objectEntry_neg, dataEntry_neg, parityEntry_neg]
    by_cases hvb : v = b
    · subst hvb
      have hva : v ≠ a := hne.symm
      rw [List.count_eq_zero.mpr hdata, List.count_eq_zero.mpr hparity]
      by_cases hm : a ∈ r.dataVolumes <;> simp [hva, hb, hm]
    · by_cases hva : v = a
      · subst hva
        by_cases hm : v ∈ r.dataVolumes <;> simp [hvb, ha, hm, hcount.1, hcount.2] <;> abel
      · simp [hva, hvb]

end Relocated

end StorageStats
