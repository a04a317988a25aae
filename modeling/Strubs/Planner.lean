import Mathlib.Data.List.Dedup
import Strubs.ChunkPlan
import Strubs.RoundRobin

/-! # Where the slices of a new object go

The volumes are taken from the device groups in turn, the emptiest ones of each group first. The
slices are dealt out to them at random, and their space is reserved. -/
namespace Planner

open ChunkPlan RoundRobin

structure Volume where
  id : ℕ
  deviceGroup : Option ℕ
  bytesFree : Option ℕ
  bytesPending : ℕ
  isStarted : Bool
  isEnabled : Bool
  isHealthy : Bool
  isReadOnly : Bool
  isDraining : Bool
  isDeleted : Bool
  deriving DecidableEq

namespace Volume

variable (v : Volume)

def isWritable : Bool :=
  v.isStarted && v.isEnabled && v.isHealthy && !v.isReadOnly && !v.isDraining

def free : ℤ := v.bytesFree.getD 0 - v.bytesPending

def reserveSpace (bytes : ℕ) : Volume := { v with bytesPending := v.bytesPending + bytes }

end Volume

structure VolumeFleet where
  volumes : List Volume
  nodup : (volumes.map (·.id)).Nodup

structure Config where
  dataSliceCount : ℕ
  paritySliceCount : ℕ
  chunkSize : ℕ
  data_pos : 0 < dataSliceCount

def Config.totalSliceCount (config : Config) : ℕ := config.dataSliceCount + config.paritySliceCount

structure VolumePlan extends Plan where
  paritySliceCount : ℕ
  dataVolumes : List ℕ
  parityVolumes : List ℕ
  deriving DecidableEq

/-- A permutation, which one is left to chance. -/
structure Shuffle where
  shuffle : List Volume → List Volume
  perm : ∀ l, (shuffle l).Perm l

namespace VolumeFleet

variable (fleet : VolumeFleet)

def getWritableVolumes : List Volume :=
  fleet.volumes.filter fun v => v.isWritable && !v.isDeleted

def update (f : Volume → Volume) (hid : ∀ v, (f v).id = v.id) : VolumeFleet where
  volumes := fleet.volumes.map f
  nodup := by
    rw [List.map_map, show (fun v : Volume => v.id) ∘ f = fun v => v.id from funext hid]
    exact fleet.nodup

/-- Volumes that are not among the known ones are passed over. -/
def reserveSliceCapacity (known : List ℕ) (sliceSize : ℕ) (volumeIds : List ℕ) : VolumeFleet :=
  volumeIds.foldl (fun fleet volumeId =>
    fleet.update (fun v => if v.id = volumeId ∧ v.id ∈ known then v.reserveSpace sliceSize else v)
      fun v => by split <;> rfl) fleet

end VolumeFleet

def notEnoughVolumes : String := "not enough volumes available for planned slice count"

/-- The order of the keys of an object: numbers go up, and come before what is not a number. -/
def groupKeys (volumes : List Volume) : List (Option ℕ) :=
  ((volumes.filterMap (·.deviceGroup)).dedup.insertionSort (· ≤ ·)).map some ++
    if volumes.any (·.deviceGroup.isNone) then [none] else []

def getSortedVolumesByBytesFree (volumes : List Volume) : List Volume :=
  volumes.insertionSort fun a b => b.free ≤ a.free

def volumesByGroup (volumes : List Volume) (group : Option ℕ) : List Volume :=
  getSortedVolumesByBytesFree (volumes.filter (·.deviceGroup = group))

def getSortedVolumesByBytesFreeWithAlternatingGroups (fuel : ℕ) (volumes : List Volume) :
    Option (List Volume) :=
  alternate (groupKeys volumes) volumes.length fuel (volumesByGroup volumes) []

/-- What it throws or returns, and the volumes afterwards. -/
def generatePlan (shuffle : Shuffle) (config : Config) (fuel fileSize : ℕ) (fleet : VolumeFleet) :
    Option (Except String VolumePlan × VolumeFleet) :=
  let availableVolumes := fleet.getWritableVolumes
  if availableVolumes.length < config.totalSliceCount then
    some (.error notEnoughVolumes, fleet)
  else
    (getSortedVolumesByBytesFreeWithAlternatingGroups fuel availableVolumes).map fun alternating =>
      let sortedVolumes :=
        if alternating.length < config.totalSliceCount then
          getSortedVolumesByBytesFree availableVolumes
        else alternating
      if sortedVolumes.length < config.totalSliceCount then (.error notEnoughVolumes, fleet)
      else
        let targetVolumes := shuffle.shuffle (sortedVolumes.take config.totalSliceCount)
        let plan : VolumePlan :=
          { populatePlanDerivedFields fileSize config.dataSliceCount config.chunkSize with
            paritySliceCount := config.paritySliceCount
            dataVolumes := (targetVolumes.take config.dataSliceCount).map (·.id)
            parityVolumes :=
              ((targetVolumes.drop config.dataSliceCount).take config.paritySliceCount).map (·.id) }
        let known := availableVolumes.map (·.id)
        (.ok plan, (fleet.reserveSliceCapacity known plan.sliceSize plan.dataVolumes
          |>.reserveSliceCapacity known plan.sliceSize plan.parityVolumes))

/-! ## What is planned -/

/-- Volumes without a group are one group. -/
def VolumeFleet.groupOf (fleet : VolumeFleet) (volumeId : ℕ) : Option ℕ :=
  (fleet.volumes.find? (·.id = volumeId)).bind (·.deviceGroup)

/-- Places for all slices. -/
structure Places (config : Config) (fleet : VolumeFleet) (volumeIds : List ℕ) : Prop where
  length : volumeIds.length = config.totalSliceCount
  nodup : volumeIds.Nodup
  writable : ∀ volumeId ∈ volumeIds, volumeId ∈ fleet.getWritableVolumes.map (·.id)

/-- No other places have fewer slices in the fullest group. -/
structure SoundPlan (config : Config) (fleet : VolumeFleet) (plan : VolumePlan)
    (fleet' : VolumeFleet) : Prop where
  data : plan.dataVolumes.length = config.dataSliceCount
  parity : plan.parityVolumes.length = config.paritySliceCount
  places : Places config fleet (plan.dataVolumes ++ plan.parityVolumes)
  spread : ∀ others, Places config fleet others →
    maxLoad fleet.groupOf (plan.dataVolumes ++ plan.parityVolumes) ≤ maxLoad fleet.groupOf others
  reserved : fleet'.volumes = fleet.volumes.map fun v =>
    if v.id ∈ plan.dataVolumes ++ plan.parityVolumes then v.reserveSpace plan.sliceSize else v

section Plan

variable {shuffle : Shuffle} {config : Config} {fleet : VolumeFleet} {volumes : List Volume}

theorem mem_groupKeys {v : Volume} (hv : v ∈ volumes) : v.deviceGroup ∈ groupKeys volumes := by
  rw [groupKeys, List.mem_append]
  cases hgroup : v.deviceGroup with
  | none =>
    right
    rw [if_pos (List.any_eq_true.mpr ⟨v, hv, by rw [hgroup]; rfl⟩)]
    exact List.mem_singleton_self _
  | some g =>
    left
    apply List.mem_map_of_mem
    rw [List.mem_insertionSort, List.mem_dedup, List.mem_filterMap]
    exact ⟨v, hv, hgroup⟩

theorem nodup_groupKeys (volumes : List Volume) : (groupKeys volumes).Nodup := by
  rw [groupKeys, List.nodup_append]
  refine ⟨?_, by split <;> simp, ?_⟩
  · apply List.Nodup.map (Option.some_injective _)
    exact (List.perm_insertionSort _ _).nodup_iff.mpr (List.nodup_dedup _)
  · rintro _ hsome _ hnone rfl
    obtain ⟨g, -, rfl⟩ := List.mem_map.mp hsome
    split at hnone
    · cases List.mem_singleton.mp hnone
    · cases hnone

theorem perm_volumesByGroup (volumes : List Volume) (group : Option ℕ) :
    (volumesByGroup volumes group).Perm (volumes.filter (·.deviceGroup = group)) :=
  List.perm_insertionSort _ _

theorem queues_volumesByGroup (volumes : List Volume) :
    Queues Volume.deviceGroup (groupKeys volumes) (volumesByGroup volumes) where
  nodup := nodup_groupKeys volumes
  key_eq group v hv := by
    have hmem := (perm_volumesByGroup volumes group).mem_iff.mp hv
    exact of_decide_eq_true (List.mem_filter.mp hmem).2
  listed group hne := by
    obtain ⟨v, hv⟩ := List.exists_mem_of_ne_nil _ hne
    obtain ⟨hmem, hgroup⟩ :=
      List.mem_filter.mp ((perm_volumesByGroup volumes group).mem_iff.mp hv)
    exact of_decide_eq_true hgroup ▸ mem_groupKeys hmem

theorem perm_groups (volumes : List Volume) :
    ((groupKeys volumes).flatMap (volumesByGroup volumes)).Perm volumes :=
  (List.Perm.flatMap_left _ fun group _ => perm_volumesByGroup volumes group).trans
    (perm_flatMap_filter (nodup_groupKeys volumes) fun _ hv => mem_groupKeys hv)

/-- The loop ends, and has sorted all the volumes. -/
theorem alternatingGroups_ends (volumes : List Volume) {fuel : ℕ} (hfuel : volumes.length ≤ fuel) :
    ∃ n, getSortedVolumesByBytesFreeWithAlternatingGroups fuel volumes =
        some (rounds (groupKeys volumes) n (volumesByGroup volumes)) ∧
      (rounds (groupKeys volumes) n (volumesByGroup volumes)).Perm volumes :=
  alternate_ends (perm_groups volumes) hfuel

theorem groupOf_eq (fleet : VolumeFleet) {v : Volume} (hv : v ∈ fleet.volumes) :
    fleet.groupOf v.id = v.deviceGroup := by
  obtain ⟨w, hw⟩ : ∃ w, fleet.volumes.find? (·.id = v.id) = some w := by
    rw [← Option.isSome_iff_exists, List.find?_isSome]
    exact ⟨v, hv, decide_eq_true rfl⟩
  have hid : w.id = v.id := by simpa using List.find?_some hw
  have hsame : w = v :=
    List.inj_on_of_nodup_map fleet.nodup (List.mem_of_find?_eq_some hw) hv hid
  rw [VolumeFleet.groupOf, hw, hsame]
  rfl

theorem load_map_id {l : List Volume} (hl : ∀ v ∈ l, v ∈ fleet.volumes) (group : Option ℕ) :
    load fleet.groupOf (l.map (·.id)) group = load Volume.deviceGroup l group := by
  rw [load, load, List.countP_map]
  refine List.countP_congr fun v hv => ?_
  rw [Function.comp_apply, groupOf_eq fleet (hl v hv)]

theorem maxLoad_map_id {l : List Volume} (hl : ∀ v ∈ l, v ∈ fleet.volumes) :
    maxLoad fleet.groupOf (l.map (·.id)) = maxLoad Volume.deviceGroup l :=
  le_antisymm
    (maxLoad_le fun group => (load_map_id hl group).trans_le (load_le_maxLoad _ _ _))
    (maxLoad_le fun group => (load_map_id hl group).symm.trans_le (load_le_maxLoad _ _ _))

theorem maxLoad_perm {l l' : List Volume} (h : l.Perm l') :
    maxLoad Volume.deviceGroup l = maxLoad Volume.deviceGroup l' :=
  le_antisymm
    (maxLoad_le fun group => (load_perm h group).trans_le (load_le_maxLoad _ _ _))
    (maxLoad_le fun group => (load_perm h group).symm.trans_le (load_le_maxLoad _ _ _))

theorem nodup_getWritableVolumes (fleet : VolumeFleet) :
    (fleet.getWritableVolumes.map (·.id)).Nodup :=
  fleet.nodup.sublist (List.filter_sublist.map _)

theorem mem_of_writable {v : Volume} (hv : v ∈ fleet.getWritableVolumes) : v ∈ fleet.volumes :=
  (List.mem_filter.mp hv).1

/-- The volumes of places are some of the writable ones. -/
theorem Places.chosen {volumeIds : List ℕ} (h : Places config fleet volumeIds) :
    ∃ l : List Volume, l.map (·.id) = volumeIds ∧ l.Subperm fleet.getWritableVolumes := by
  obtain ⟨l, hmem, rfl⟩ : ∃ l : List Volume, (∀ v ∈ l, v ∈ fleet.getWritableVolumes) ∧
      l.map (·.id) = volumeIds := by
    have hwritable := h.writable
    clear h
    induction volumeIds with
    | nil => exact ⟨[], nofun, rfl⟩
    | cons volumeId volumeIds ih =>
      obtain ⟨l, hl, rfl⟩ := ih fun _ hid => hwritable _ (List.mem_cons_of_mem _ hid)
      obtain ⟨v, hv, rfl⟩ := List.mem_map.mp (hwritable volumeId List.mem_cons_self)
      refine ⟨v :: l, fun w hw => ?_, rfl⟩
      rcases List.mem_cons.mp hw with rfl | hw
      · exact hv
      · exact hl w hw
  exact ⟨l, rfl, List.subperm_of_subset (List.Nodup.of_map _ h.nodup) hmem⟩

/-- The space is reserved once on each of the volumes. -/
theorem reserveSliceCapacity_volumes (fleet : VolumeFleet) (known : List ℕ) (sliceSize : ℕ)
    {volumeIds : List ℕ} (hnodup : volumeIds.Nodup) (hknown : ∀ id ∈ volumeIds, id ∈ known) :
    (fleet.reserveSliceCapacity known sliceSize volumeIds).volumes = fleet.volumes.map fun v =>
      if v.id ∈ volumeIds then v.reserveSpace sliceSize else v := by
  induction volumeIds generalizing fleet with
  | nil => simp [VolumeFleet.reserveSliceCapacity]
  | cons volumeId volumeIds ih =>
    obtain ⟨hfresh, hnodup⟩ := List.nodup_cons.mp hnodup
    have hstep := ih (fleet.update (fun v =>
      if v.id = volumeId ∧ v.id ∈ known then v.reserveSpace sliceSize else v)
      fun v => by split <;> rfl) hnodup fun id hid => hknown id (List.mem_cons_of_mem _ hid)
    rw [VolumeFleet.reserveSliceCapacity, List.foldl_cons]
    rw [VolumeFleet.reserveSliceCapacity] at hstep
    rw [hstep, VolumeFleet.update, List.map_map]
    refine List.map_congr_left fun v _ => ?_
    rw [Function.comp_apply]
    by_cases hv : v.id = volumeId
    · have hmem : v.id ∈ known := hv ▸ hknown volumeId List.mem_cons_self
      have hnot : (v.reserveSpace sliceSize).id ∉ volumeIds := by
        show v.id ∉ volumeIds
        rwa [hv]
      have hfirst : (if v.id = volumeId ∧ v.id ∈ known then v.reserveSpace sliceSize else v) =
          v.reserveSpace sliceSize := if_pos ⟨hv, hmem⟩
      rw [hfirst, if_neg hnot, if_pos (hv ▸ List.mem_cons_self)]
    · have hfirst : (if v.id = volumeId ∧ v.id ∈ known then v.reserveSpace sliceSize else v) =
          v := if_neg fun h => hv h.1
      rw [hfirst]
      simp only [List.mem_cons, hv, false_or]

theorem reserveSliceCapacity_append (fleet : VolumeFleet) (known : List ℕ) (sliceSize : ℕ)
    (first second : List ℕ) :
    (fleet.reserveSliceCapacity known sliceSize first).reserveSliceCapacity known sliceSize
      second = fleet.reserveSliceCapacity known sliceSize (first ++ second) :=
  List.foldl_append.symm

theorem soundPlan_of_perm {n : ℕ} {targets : List Volume} {plan : VolumePlan}
    (hall : (rounds (groupKeys fleet.getWritableVolumes) n
      (volumesByGroup fleet.getWritableVolumes)).Perm fleet.getWritableVolumes)
    (henough : config.totalSliceCount ≤ fleet.getWritableVolumes.length)
    (htargets : targets.Perm ((rounds (groupKeys fleet.getWritableVolumes) n
      (volumesByGroup fleet.getWritableVolumes)).take config.totalSliceCount))
    (hdata : plan.dataVolumes = (targets.take config.dataSliceCount).map (·.id))
    (hparity : plan.parityVolumes =
      ((targets.drop config.dataSliceCount).take config.paritySliceCount).map (·.id)) :
    SoundPlan config fleet plan ((fleet.reserveSliceCapacity
      (fleet.getWritableVolumes.map (·.id)) plan.sliceSize plan.dataVolumes).reserveSliceCapacity
      (fleet.getWritableVolumes.map (·.id)) plan.sliceSize plan.parityVolumes) := by
  have hlength : targets.length = config.totalSliceCount := by
    rw [htargets.length_eq, List.length_take, hall.length_eq]
    exact Nat.min_eq_left henough
  have hsplit : plan.dataVolumes ++ plan.parityVolumes = targets.map (·.id) := by
    have hrest : (targets.drop config.dataSliceCount).take config.paritySliceCount =
        targets.drop config.dataSliceCount := by
      apply List.take_of_length_le
      rw [List.length_drop, hlength, Config.totalSliceCount]
      omega
    rw [hdata, hparity, hrest, ← List.map_append, List.take_append_drop]
  have hsub : targets.Subperm fleet.getWritableVolumes :=
    htargets.subperm.trans ((List.take_sublist _ _).subperm.trans hall.subperm)
  have hmem : ∀ v ∈ targets, v ∈ fleet.getWritableVolumes := fun v hv => hsub.subset hv
  have hplaces : Places config fleet (plan.dataVolumes ++ plan.parityVolumes) := by
    rw [hsplit]
    refine ⟨by rw [List.length_map, hlength], ?_, fun volumeId hid => ?_⟩
    · obtain ⟨l, hperm, hl⟩ := hsub
      exact (hperm.map _).nodup_iff.mp ((nodup_getWritableVolumes fleet).sublist (hl.map _))
    · obtain ⟨v, hv, rfl⟩ := List.mem_map.mp hid
      exact List.mem_map_of_mem (hmem v hv)
  refine ⟨?_, ?_, hplaces, fun others hothers => ?_, ?_⟩
  · rw [hdata, List.length_map, List.length_take, hlength, Config.totalSliceCount]
    omega
  · rw [hparity, List.length_map, List.length_take, List.length_drop, hlength,
      Config.totalSliceCount]
    omega
  · obtain ⟨l, rfl, hl⟩ := hothers.chosen
    rw [hsplit, maxLoad_map_id fun v hv => mem_of_writable (hmem v hv),
      maxLoad_map_id fun v hv => mem_of_writable (hl.subset hv), maxLoad_perm htargets]
    apply (queues_volumesByGroup _).maxLoad_take_le fun group => ?_
    · rw [← htargets.length_eq, hlength, ← hothers.length, List.length_map]
    · rw [(perm_volumesByGroup _ group).length_eq, ← List.countP_eq_length_filter]
      exact hl.countP_le _
  · rw [reserveSliceCapacity_append]
    exact reserveSliceCapacity_volumes fleet _ _ hplaces.nodup hplaces.writable

/-- With too few writable volumes it throws and reserves nothing. Else every slice gets a volume
of its own, the fullest group gets as few slices as can be, and the space of one slice is
reserved once on each of the volumes. -/
theorem generatePlan_places (shuffle : Shuffle) (config : Config) (fuel fileSize : ℕ)
    (fleet : VolumeFleet) (hfuel : fleet.getWritableVolumes.length ≤ fuel) :
    ∃ result fleet', generatePlan shuffle config fuel fileSize fleet = some (result, fleet') ∧
      ((∃ e, result = .error e) ↔ fleet.getWritableVolumes.length < config.totalSliceCount) ∧
      (∀ e, result = .error e → fleet' = fleet) ∧
      ∀ plan, result = .ok plan → plan.toPlan =
          populatePlanDerivedFields fileSize config.dataSliceCount config.chunkSize ∧
        SoundPlan config fleet plan fleet' := by
  by_cases hfew : fleet.getWritableVolumes.length < config.totalSliceCount
  · refine ⟨.error notEnoughVolumes, fleet, ?_, iff_of_true ⟨_, rfl⟩ hfew, fun _ _ => rfl, nofun⟩
    simp only [generatePlan, if_pos hfew]
  · obtain ⟨n, hends, hall⟩ := alternatingGroups_ends _ hfuel
    have hlong : ¬(rounds (groupKeys fleet.getWritableVolumes) n
        (volumesByGroup fleet.getWritableVolumes)).length < config.totalSliceCount := by
      rwa [hall.length_eq]
    simp only [generatePlan, if_neg hfew, hends, Option.map_some, if_neg hlong]
    refine ⟨_, _, rfl, iff_of_false nofun hfew, nofun, fun plan hplan => ?_⟩
    obtain rfl := Except.ok.inj hplan
    refine ⟨rfl, ?_⟩
    apply soundPlan_of_perm hall (not_lt.mp hfew) (shuffle.perm _)
    · rfl
    · rfl

def reversed : Shuffle := ⟨List.reverse, List.reverse_perm⟩

def volumeIn (deviceGroup : Option ℕ) (id : ℕ) (isReadOnly : Bool) : Volume :=
  ⟨id, deviceGroup, some (1000 * id), 0, true, true, true, isReadOnly, false, false⟩

def twoBoxes : VolumeFleet where
  volumes := [volumeIn (some 1) 1 false, volumeIn (some 1) 2 false, volumeIn (some 1) 3 false,
    volumeIn (some 2) 4 false, volumeIn none 5 true]
  nodup := by decide

theorem generatePlan_places_two_boxes : ∃ plan fleet',
    generatePlan reversed ⟨2, 1, 16384, by decide⟩ 4 5000 twoBoxes = some (.ok plan, fleet') ∧
      SoundPlan ⟨2, 1, 16384, by decide⟩ twoBoxes plan fleet' := by
  obtain ⟨result, fleet', hrun, herror, -, hok⟩ :=
    generatePlan_places reversed ⟨2, 1, 16384, by decide⟩ 4 5000 twoBoxes (by decide)
  cases result with
  | error e => exact absurd (herror.mp ⟨e, rfl⟩) (by decide)
  | ok plan => exact ⟨plan, fleet', hrun, (hok plan rfl).2⟩

end Plan

end Planner
