import Strubs.DeviceIdentityProbe
import Mathlib.Data.List.Nodup

/-! # Reconciling the fleet with the rack

A pass looks at the devices that are attached and at what the kernel has mounted, and takes each
volume of the fleet offline, brings it online or leaves it. What it returns is what the operator
hears of it. -/
namespace VolumeFleet

open NamespaceRecord (Text)
open DeviceIdentityProbe (luksType toLowerCase)

/-- A text that is there and not empty. -/
def truthy (t : Option Text) : Bool := t.any (· ≠ [])

structure CachedPartition where
  name : Text
  path : Option Text
  uuid : Option Text
  size : ℕ
  fsType : Option Text
  mountPoint : Option Text
  path_ne : path ≠ some []
  deriving DecidableEq

structure CachedDevice where
  name : Text
  partitions : List CachedPartition
  deriving DecidableEq

/-- The node of a partition. -/
def CachedPartition.node (p : CachedPartition) : Text := p.path.getD ("/dev/".toList ++ p.name)

theorem CachedPartition.node_ne (p : CachedPartition) : p.node ≠ [] := by
  unfold node
  cases hpath : p.path with
  | none => simp
  | some path =>
    intro h
    exact p.path_ne (by rw [hpath]; exact congrArg some h)

/-- A volume as the fleet holds it. Its device is bound or not, and only what is bound is mounted
or started. -/
structure Volume where
  id : ℕ
  uuid : Text
  partitionUuid : Option Text
  bytesTotal : ℕ
  isDeleted : Bool
  isEnabled : Bool
  isDraining : Bool
  isPresent : Bool
  isStarted : Bool
  isMounted : Bool
  deviceName : Option Text
  blockPath : Option Text
  fsType : Option Text
  mountPoint : Option Text
  bound : isPresent = truthy blockPath
  started : isStarted → isPresent
  mounted : isMounted → isPresent ∧ truthy mountPoint

def mapperName (uuid : Text) : Text := "strubs-".toList ++ uuid

def mapperPath (uuid : Text) : Text := "/dev/mapper/".toList ++ mapperName uuid

def isLuksFsType (fsType : Option Text) : Bool := toLowerCase (fsType.getD []) = luksType

/-- A path without the directory of the device nodes. -/
def withoutDev (path : Text) : Text :=
  if "/dev/".toList.isPrefixOf path then path.drop 5 else path

namespace Volume

def isEncrypted (v : Volume) : Bool := isLuksFsType v.fsType

def mountSource (v : Volume) : Option Text :=
  if v.isEncrypted then some (mapperPath v.uuid) else v.blockPath

/-- An unmount or a lock that fails is logged, and the volume is missing all the same. -/
def markMissing (v : Volume) : Volume :=
  { v with
    isStarted := false
    isMounted := false
    blockPath := none
    fsType := none
    deviceName := none
    mountPoint := none
    isPresent := false
    bound := rfl
    started := by intro h; cases h
    mounted := by intro h; cases h }

def bindDevice (v : Volume) (device : CachedDevice) (partition : CachedPartition) : Volume :=
  { v with
    deviceName := some device.name
    fsType := partition.fsType
    blockPath := some partition.node
    mountPoint := partition.mountPoint.filter (· ≠ [])
    isMounted := truthy partition.mountPoint
    isPresent := true
    bound := by simp [truthy, partition.node_ne]
    started := fun _ => rfl
    mounted := by
      intro h
      refine ⟨rfl, ?_⟩
      cases hpoint : partition.mountPoint with
      | none => simp [truthy, hpoint] at h
      | some point =>
        have hne : point ≠ [] := by simpa [truthy, hpoint] using h
        simp [truthy, Option.filter, hne] }

end Volume

/-- What one pass meets: the rack, the mount table, the devices under the mappers, and which calls
of the system succeed for which volume. -/
structure Pass where
  devices : List CachedDevice
  mounts : Text → Option Text
  backing : Text → Option Text
  autoRecover : Bool
  mounting : ℕ → Bool
  verifying : ℕ → Bool

def mountDirectory (uuid : Text) : Text := "/run/strubs/mounts/".toList ++ uuid

theorem truthy_mountDirectory (uuid : Text) : truthy (some (mountDirectory uuid)) := by
  have hne : mountDirectory uuid ≠ [] :=
    List.append_ne_nil_of_left_ne_nil (by decide) uuid
  simp only [truthy, Option.any_some, hne, ne_eq, not_false_eq_true, decide_true]

/-- The mount point is set before anything is mounted there. -/
def Volume.setMountPoint (v : Volume) : Volume :=
  { v with
    mountPoint := some (mountDirectory v.uuid)
    mounted := by
      intro h
      constructor
      · exact (v.mounted h).1
      · exact truthy_mountDirectory v.uuid }

def Volume.setMounted (v : Volume) (hpath : truthy v.blockPath) (hpoint : truthy v.mountPoint) :
    Volume :=
  { v with
    isMounted := true
    mounted := fun _ => ⟨v.bound.trans hpath, hpoint⟩ }

def Volume.setStarted (v : Volume) (h : v.isMounted) : Volume :=
  { v with
    isStarted := true
    started := fun _ => (v.mounted h).1 }

/-- A volume that is mounted. -/
abbrev MountedVolume := { v : Volume // v.isMounted = true }

/-- Making the directory, unlocking, checking and mounting the file system are one call, which
succeeds or not. -/
def mount (pass : Pass) (v : Volume) : Except Volume MountedVolume :=
  let v := v.setMountPoint
  if h : truthy v.blockPath ∧ truthy v.mountPoint ∧ truthy v.fsType ∧ pass.mounting v.id then
    .ok ⟨v.setMounted h.1 h.2.1, rfl⟩
  else .error v

/-- Of a volume that is mounted, nothing but its identity is looked at. -/
def start (pass : Pass) (v : Volume) : Except Volume Volume := do
  let m ← if h : v.isMounted then pure ⟨v, h⟩ else mount pass v
  if pass.verifying m.val.id then return m.val.setStarted m.property else throw m.val

/-- All attached partitions with a uuid, each with its device. -/
def partitionsWithUuid (devices : List CachedDevice) (partitionUuid : Option Text) :
    List (CachedDevice × CachedPartition) :=
  if truthy partitionUuid then
    devices.flatMap fun device =>
      (device.partitions.filter fun p => p.uuid = partitionUuid).map fun p => (device, p)
  else []

/-- The one partition that has a uuid, if there is no other. -/
def onlyMatch (devices : List CachedDevice) (partitionUuid : Option Text) :
    Option (CachedDevice × CachedPartition) :=
  match partitionsWithUuid devices partitionUuid with
  | [found] => some found
  | _ => none

/-- No partition, more than one, or one of another size, and the volume is not bound. -/
def bindVolumeDevice (devices : List CachedDevice) (v : Volume) : Option Volume :=
  match onlyMatch devices v.partitionUuid with
  | none => none
  | some (device, partition) =>
    if partition.size ≠ v.bytesTotal then none else some (v.bindDevice device partition)

/-- Something is mounted for the volume, or should be, and it is not its partition. -/
def isMountStale (pass : Pass) (v : Volume) : Bool :=
  if v.isMounted = false ∨ truthy v.mountPoint = false then false
  else
    match (v.mountPoint.bind pass.mounts).filter (· ≠ []) with
    | none => true
    | some source =>
      let livePath := (onlyMatch pass.devices v.partitionUuid).map fun found => found.2.node
      if v.isEncrypted then
        if source ≠ mapperPath v.uuid then true
        else
          match livePath with
          | none => true
          | some livePath => pass.backing (mapperName v.uuid) ≠ some (withoutDev livePath)
      else some source ≠ livePath

inductive Kind where
  | missing
  | restored
  | healed
  deriving DecidableEq, Repr

structure Transition where
  volumeId : ℕ
  kind : Kind
  deviceName : Option Text
  deriving DecidableEq

/-- What a pass does to a volume, in the order in which it does it. -/
inductive Action where
  | tornDown
  | bound
  | bindRefused
  | started
  | startFailed
  deriving DecidableEq, Repr

/-- The volume as a pass leaves it, what the pass returns of it and what it did to it. -/
structure Outcome where
  volume : Volume
  transition : Option Transition
  actions : List Action

def bringUp (pass : Pass) (stale : Bool) (v : Volume) (actions : List Action) : Outcome :=
  let transition (v : Volume) : Option Transition :=
    some ⟨v.id, if stale then .healed else .restored, v.deviceName⟩
  if v.isStarted then ⟨v, transition v, actions⟩
  else
    match start pass v with
    | .ok v => ⟨v, transition v, actions ++ [.started]⟩
    | .error v => ⟨v, none, actions ++ [.startFailed]⟩

/-- A stale mount goes before it is known whether the volume can be bound again. -/
def recover (pass : Pass) (stale : Bool) (v : Volume) : Outcome :=
  let actions := if stale then [.tornDown] else []
  let v := if stale then v.markMissing else v
  if truthy v.blockPath = false ∨ v.isPresent = false then
    match bindVolumeDevice pass.devices v with
    | none => ⟨v, none, actions ++ [.bindRefused]⟩
    | some v => bringUp pass stale v (actions ++ [.bound])
  else bringUp pass stale v actions

def inScope (v : Volume) : Bool := !v.isDeleted && v.isEnabled && !v.isDraining

/-- The uuids of all partitions in the rack, as far as they have one. -/
def presentUuids (devices : List CachedDevice) : List Text :=
  devices.flatMap fun device =>
    device.partitions.filterMap fun p => p.uuid.filter (· ≠ [])

def isPresentIn (devices : List CachedDevice) (v : Volume) : Bool :=
  match v.partitionUuid.filter (· ≠ []) with
  | none => false
  | some uuid => uuid ∈ presentUuids devices

def reconcileVolume (pass : Pass) (v : Volume) : Outcome :=
  if inScope v = false then ⟨v, none, []⟩
  else if isPresentIn pass.devices v = false then
    if v.isPresent || v.isStarted then
      ⟨v.markMissing, some ⟨v.id, .missing, v.deviceName⟩, [.tornDown]⟩
    else ⟨v, none, []⟩
  else
    let stale := isMountStale pass v
    if v.isStarted && v.isPresent && truthy v.blockPath && !stale then ⟨v, none, []⟩
    else if pass.autoRecover = false then ⟨v, none, []⟩
    else recover pass stale v

/-! ## What a pass can do to a volume -/

section Matching

variable {devices : List CachedDevice} {v : Volume}

theorem mem_presentUuids {uuid : Text} (hne : uuid ≠ []) :
    uuid ∈ presentUuids devices ↔
      ∃ device ∈ devices, ∃ p ∈ device.partitions, p.uuid = some uuid := by
  simp only [presentUuids, List.mem_flatMap, List.mem_filterMap, Option.filter_eq_some_iff,
    decide_eq_true_eq]
  constructor
  · rintro ⟨device, hdevice, p, hp, huuid, -⟩
    exact ⟨device, hdevice, p, hp, huuid⟩
  · rintro ⟨device, hdevice, p, hp, huuid⟩
    exact ⟨device, hdevice, p, hp, huuid, hne⟩

theorem isPresentIn_iff :
    isPresentIn devices v = true ↔ partitionsWithUuid devices v.partitionUuid ≠ [] := by
  unfold isPresentIn partitionsWithUuid
  cases huuid : v.partitionUuid with
  | none => simp [truthy]
  | some uuid =>
    by_cases hne : uuid = []
    · subst hne
      simp [truthy, Option.filter_some]
    · have hfilter : (some uuid).filter (· ≠ []) = some uuid := by
        simp [Option.filter_some, hne]
      have htruthy : truthy (some uuid) = true := by simp [truthy, hne]
      simp only [hfilter, htruthy, ite_true, decide_eq_true_eq, mem_presentUuids hne, ne_eq,
        List.flatMap_eq_nil_iff, List.map_eq_nil_iff, List.filter_eq_nil_iff]
      push Not
      exact Iff.rfl

theorem onlyMatch_eq_some {uuid : Option Text} {found : CachedDevice × CachedPartition} :
    onlyMatch devices uuid = some found ↔ partitionsWithUuid devices uuid = [found] := by
  unfold onlyMatch
  constructor
  · intro h
    split at h
    · next hlist => rw [hlist, Option.some_inj.mp h]
    · cases h
  · intro h
    rw [h]

theorem length_eq_one_iff {uuid : Option Text} :
    (partitionsWithUuid devices uuid).length = 1 ↔
      ∃ found, onlyMatch devices uuid = some found := by
  simp only [onlyMatch_eq_some, List.length_eq_one_iff]

theorem isPresentIn_of_onlyMatch {found : CachedDevice × CachedPartition}
    (h : onlyMatch devices v.partitionUuid = some found) : isPresentIn devices v = true := by
  rw [isPresentIn_iff, onlyMatch_eq_some.mp h]
  exact List.cons_ne_nil _ _

end Matching

/-- What the operator has set, and what the configuration says of the disk. -/
def Volume.config (v : Volume) : ℕ × Text × Option Text × ℕ × Bool × Bool × Bool :=
  (v.id, v.uuid, v.partitionUuid, v.bytesTotal, v.isDeleted, v.isEnabled, v.isDraining)

/-- The device that a volume is bound to. -/
def Volume.device (v : Volume) : Option Text × Option Text × Option Text × Bool :=
  (v.deviceName, v.blockPath, v.fsType, v.isPresent)

theorem inScope_congr {v w : Volume} (h : w.config = v.config) : inScope w = inScope v := by
  simp only [Volume.config, Prod.mk.injEq] at h
  simp only [inScope, h]

theorem isPresentIn_congr {devices : List CachedDevice} {v w : Volume}
    (h : w.config = v.config) : isPresentIn devices w = isPresentIn devices v := by
  simp only [Volume.config, Prod.mk.injEq] at h
  simp only [isPresentIn, h]

theorem isEncrypted_congr {v w : Volume} (h : w.device = v.device) :
    w.isEncrypted = v.isEncrypted := by
  simp only [Volume.device, Prod.mk.injEq] at h
  simp only [Volume.isEncrypted, h]

/-- A start goes through. What is mounted needs its identity only. -/
def canStart (pass : Pass) (v : Volume) : Bool :=
  (v.isMounted || (truthy v.blockPath && truthy v.fsType && pass.mounting v.id)) &&
    pass.verifying v.id

/-- The volume that a start leaves when it goes through. -/
structure Started (v w : Volume) : Prop where
  config : w.config = v.config
  device : w.device = v.device
  isStarted : w.isStarted = true
  isMounted : w.isMounted = true
  mountPoint : w.mountPoint = if v.isMounted then v.mountPoint else some (mountDirectory v.uuid)

/-- The volume that a start leaves when it throws. -/
structure Halted (v w : Volume) : Prop where
  config : w.config = v.config
  device : w.device = v.device
  isStarted : w.isStarted = v.isStarted

theorem start_spec (pass : Pass) (v : Volume) :
    (canStart pass v = true ∧ ∃ w, start pass v = .ok w ∧ Started v w) ∨
      (canStart pass v = false ∧ ∃ w, start pass v = .error w ∧ Halted v w) := by
  by_cases hm : v.isMounted
  · cases hv : pass.verifying v.id with
    | true =>
      refine .inl ⟨by simp [canStart, hm, hv], v.setStarted hm, ?_, rfl, rfl, rfl, hm, ?_⟩
      · simp [start, hm, hv, pure, Except.pure, bind, Except.bind]
      · simp [Volume.setStarted, hm]
    | false =>
      refine .inr ⟨by simp [canStart, hv], v, ?_, rfl, rfl, rfl⟩
      simp [start, hm, hv, pure, Except.pure, bind, Except.bind, throw, throwThe,
        MonadExceptOf.throw]
  · by_cases hmount : truthy v.blockPath ∧ truthy v.fsType ∧ pass.mounting v.id
    · obtain ⟨hpath, hfs, hmounting⟩ := hmount
      have hpoint : truthy v.setMountPoint.mountPoint := truthy_mountDirectory v.uuid
      have hmounted : mount pass v = .ok ⟨v.setMountPoint.setMounted hpath hpoint, rfl⟩ := by
        rw [mount, dif_pos ⟨hpath, hpoint, hfs, hmounting⟩]
      cases hv : pass.verifying v.id with
      | true =>
        refine .inl ⟨by simp [canStart, hpath, hfs, hmounting, hv],
          (v.setMountPoint.setMounted hpath hpoint).setStarted rfl, ?_, rfl, rfl, rfl, rfl, ?_⟩
        · simp only [start, hm, Bool.false_eq_true, dite_false, hmounted, bind, Except.bind]
          exact if_pos hv
        · rw [if_neg hm]
          rfl
      | false =>
        refine .inr ⟨by simp [canStart, hv], v.setMountPoint.setMounted hpath hpoint, ?_,
          rfl, rfl, rfl⟩
        simp only [start, hm, Bool.false_eq_true, dite_false, hmounted, bind, Except.bind]
        exact if_neg (by rw [Bool.not_eq_true]; exact hv)
    · have hmounted : mount pass v = .error v.setMountPoint := by
        rw [mount, dif_neg]
        rintro ⟨hpath, -, hfs, hmounting⟩
        exact hmount ⟨hpath, hfs, hmounting⟩
      refine .inr ⟨?_, v.setMountPoint, ?_, rfl, rfl, rfl⟩
      · cases hcan : canStart pass v with
        | false => rfl
        | true =>
          simp only [canStart, hm, Bool.false_or, Bool.and_eq_true] at hcan
          exact absurd ⟨hcan.1.1.1, hcan.1.1.2, hcan.1.2⟩ hmount
      · simp only [start, hm, Bool.false_eq_true, dite_false, hmounted, bind, Except.bind]

/-- The volume bound again to a partition, whatever it was bound to before. -/
def Volume.rebind (v : Volume) (found : CachedDevice × CachedPartition) : Volume :=
  v.markMissing.bindDevice found.1 found.2

/-- The one partition of the rack that the volume can be bound to. -/
def Bindable (pass : Pass) (v : Volume) (found : CachedDevice × CachedPartition) : Prop :=
  onlyMatch pass.devices v.partitionUuid = some found ∧ found.2.size = v.bytesTotal

/-- The pass goes on to bring the volume online. -/
structure ActedOn (pass : Pass) (v : Volume) : Prop where
  inScope : inScope v = true
  present : isPresentIn pass.devices v = true
  recovering : pass.autoRecover = true
  off : isMountStale pass v = true ∨ v.isStarted = false

def tearDown (stale : Bool) : List Action := if stale then [.tornDown] else []

def upKind (stale : Bool) : Kind := if stale then .healed else .restored

/-- All that a pass can do to a volume. -/
inductive VolumeStep (pass : Pass) (v : Volume) : Outcome → Prop where
  | outOfScope (hscope : inScope v = false) : VolumeStep pass v ⟨v, none, []⟩
  | gone (hscope : inScope v = true) (habsent : isPresentIn pass.devices v = false)
      (hbound : v.isPresent = true) :
      VolumeStep pass v ⟨v.markMissing, some ⟨v.id, .missing, v.deviceName⟩, [.tornDown]⟩
  | absent (hscope : inScope v = true) (habsent : isPresentIn pass.devices v = false)
      (hbound : v.isPresent = false) : VolumeStep pass v ⟨v, none, []⟩
  | left (hscope : inScope v = true) (hpresent : isPresentIn pass.devices v = true)
      (h : pass.autoRecover = false ∨ (v.isStarted = true ∧ isMountStale pass v = false)) :
      VolumeStep pass v ⟨v, none, []⟩
  | refused (hacted : ActedOn pass v)
      (hopen : isMountStale pass v = true ∨ v.isPresent = false)
      (hrefused : ∀ found, ¬ Bindable pass v found) :
      VolumeStep pass v ⟨if isMountStale pass v then v.markMissing else v, none,
        tearDown (isMountStale pass v) ++ [.bindRefused]⟩
  | rebound (hacted : ActedOn pass v)
      (hopen : isMountStale pass v = true ∨ v.isPresent = false)
      {found : CachedDevice × CachedPartition} (hfound : Bindable pass v found)
      (hcan : canStart pass (v.rebind found) = true) {w : Volume}
      (hw : Started (v.rebind found) w) :
      VolumeStep pass v ⟨w, some ⟨v.id, upKind (isMountStale pass v), w.deviceName⟩,
        tearDown (isMountStale pass v) ++ [.bound, .started]⟩
  | reboundOnly (hacted : ActedOn pass v)
      (hopen : isMountStale pass v = true ∨ v.isPresent = false)
      {found : CachedDevice × CachedPartition} (hfound : Bindable pass v found)
      (hcannot : canStart pass (v.rebind found) = false) {w : Volume}
      (hw : Halted (v.rebind found) w) :
      VolumeStep pass v ⟨w, none, tearDown (isMountStale pass v) ++ [.bound, .startFailed]⟩
  | restarted (hacted : ActedOn pass v) (hlive : isMountStale pass v = false)
      (hbound : v.isPresent = true) (hcan : canStart pass v = true) {w : Volume}
      (hw : Started v w) :
      VolumeStep pass v ⟨w, some ⟨v.id, .restored, w.deviceName⟩, [.started]⟩
  | notRestarted (hacted : ActedOn pass v) (hlive : isMountStale pass v = false)
      (hbound : v.isPresent = true) (hcannot : canStart pass v = false) {w : Volume}
      (hw : Halted v w) : VolumeStep pass v ⟨w, none, [.startFailed]⟩

theorem Volume.rebind_eq {v : Volume} (h : v.isStarted = false)
    (found : CachedDevice × CachedPartition) : v.bindDevice found.1 found.2 = v.rebind found := by
  simp only [Volume.rebind, Volume.bindDevice, Volume.markMissing, h]

theorem bindVolumeDevice_spec (pass : Pass) (v : Volume) :
    (∃ found, Bindable pass v found ∧
        bindVolumeDevice pass.devices v = some (v.bindDevice found.1 found.2)) ∨
      ((∀ found, ¬ Bindable pass v found) ∧ bindVolumeDevice pass.devices v = none) := by
  unfold bindVolumeDevice Bindable
  cases honly : onlyMatch pass.devices v.partitionUuid with
  | none => exact .inr ⟨fun found h => absurd h.1 (by simp), rfl⟩
  | some found =>
    by_cases hsize : found.2.size = v.bytesTotal
    · refine .inl ⟨found, ⟨rfl, hsize⟩, ?_⟩
      simp [hsize]
    · refine .inr ⟨?_, by simp [hsize]⟩
      rintro other ⟨hother, hsize'⟩
      cases hother
      exact hsize hsize'

theorem bringUp_spec (pass : Pass) (stale : Bool) {v : Volume} (hoff : v.isStarted = false)
    (actions : List Action) :
    (canStart pass v = true ∧ ∃ w, Started v w ∧ bringUp pass stale v actions =
        ⟨w, some ⟨v.id, upKind stale, w.deviceName⟩, actions ++ [.started]⟩) ∨
      (canStart pass v = false ∧ ∃ w, Halted v w ∧
        bringUp pass stale v actions = ⟨w, none, actions ++ [.startFailed]⟩) := by
  rcases start_spec pass v with ⟨hcan, w, hstart, hw⟩ | ⟨hcannot, w, hstart, hw⟩
  · refine .inl ⟨hcan, w, hw, ?_⟩
    have hid : w.id = v.id := congrArg Prod.fst hw.config
    simp only [bringUp, hoff, Bool.false_eq_true, ite_false, hstart, hid, upKind]
  · refine .inr ⟨hcannot, w, hw, ?_⟩
    simp only [bringUp, hoff, Bool.false_eq_true, ite_false, hstart]

/-- The volume that is bound again is the same, torn down before or not bound at all. -/
theorem recover_rebinds {pass : Pass} {v : Volume} (hacted : ActedOn pass v)
    (hopen : isMountStale pass v = true ∨ v.isPresent = false) :
    VolumeStep pass v (recover pass (isMountStale pass v) v) := by
  set base := if isMountStale pass v then v.markMissing else v with hbase
  have hunbound : base.isPresent = false ∧ base.isStarted = false := by
    by_cases hstale : isMountStale pass v
    · simp [hbase, hstale, Volume.markMissing]
    · have hpresent : v.isPresent = false := hopen.resolve_left hstale
      have hoff : v.isStarted = false := hacted.off.resolve_left hstale
      simp [hbase, hstale, hpresent, hoff]
  have hrebind : ∀ found, base.rebind found = v.rebind found := by
    intro found
    rw [hbase]
    split <;> rfl
  have hbindable : ∀ found, Bindable pass base found ↔ Bindable pass v found := by
    intro found
    rw [hbase]
    split <;> rfl
  have hrecover : recover pass (isMountStale pass v) v =
      match bindVolumeDevice pass.devices base with
      | none => ⟨base, none, tearDown (isMountStale pass v) ++ [.bindRefused]⟩
      | some w => bringUp pass (isMountStale pass v) w
          (tearDown (isMountStale pass v) ++ [.bound]) := by
    rw [recover]
    exact if_pos (.inr hunbound.1)
  rw [hrecover]
  rcases bindVolumeDevice_spec pass base with ⟨found, hfound, hbind⟩ | ⟨hnone, hbind⟩
  · rw [hbind, Volume.rebind_eq hunbound.2, hrebind]
    simp only
    have hfound' := (hbindable found).mp hfound
    rcases bringUp_spec pass (isMountStale pass v) (v := v.rebind found) rfl
      (tearDown (isMountStale pass v) ++ [.bound]) with ⟨hcan, w, hw, heq⟩ | ⟨hcannot, w, hw, heq⟩
    · rw [heq, List.append_assoc]
      exact .rebound hacted hopen hfound' hcan hw
    · rw [heq, List.append_assoc]
      exact .reboundOnly hacted hopen hfound' hcannot hw
  · rw [hbind]
    exact .refused hacted hopen fun found h => hnone found ((hbindable found).mpr h)

theorem reconcileVolume_step (pass : Pass) (v : Volume) :
    VolumeStep pass v (reconcileVolume pass v) := by
  unfold reconcileVolume
  split
  case isTrue hscope => exact .outOfScope hscope
  case isFalse hscope =>
    rw [Bool.not_eq_false] at hscope
    split
    case isTrue habsent =>
      have hlevel : (v.isPresent || v.isStarted) = v.isPresent := by
        cases hpresent : v.isPresent with
        | true => rfl
        | false =>
          cases hstarted : v.isStarted with
          | true => exact absurd (v.started hstarted) (by simp [hpresent])
          | false => rfl
      rw [hlevel]
      split
      case isTrue hbound => exact .gone hscope habsent hbound
      case isFalse hbound => exact .absent hscope habsent (by simpa using hbound)
    case isFalse hpresent =>
      rw [Bool.not_eq_false] at hpresent
      simp only [Bool.and_eq_true, Bool.not_eq_true']
      split
      case isTrue h => exact .left hscope hpresent (.inr ⟨h.1.1.1, h.2⟩)
      case isFalse hoff =>
        split
        case isTrue hfrozen => exact .left hscope hpresent (.inl hfrozen)
        case isFalse hrecover =>
          rw [Bool.not_eq_false] at hrecover
          have hacted : ActedOn pass v := by
            refine ⟨hscope, hpresent, hrecover, ?_⟩
            by_contra h
            push Not at h
            have hstarted : v.isStarted = true := by simpa using h.2
            have hbound := v.started hstarted
            exact hoff ⟨⟨⟨hstarted, hbound⟩, v.bound.symm.trans hbound⟩, by simpa using h.1⟩
          by_cases hopen : isMountStale pass v = true ∨ v.isPresent = false
          · exact recover_rebinds hacted hopen
          · push Not at hopen
            have hlive : isMountStale pass v = false := by simpa using hopen.1
            have hbound : v.isPresent = true := by simpa using hopen.2
            have hstopped : v.isStarted = false := hacted.off.resolve_left hopen.1
            have hkept : recover pass (isMountStale pass v) v = bringUp pass false v [] := by
              have hpath : truthy v.blockPath = true := v.bound.symm.trans hbound
              simp [recover, hlive, hpath, hbound]
            rw [hkept]
            rcases bringUp_spec pass false hstopped [] with
              ⟨hcan, w, hw, heq⟩ | ⟨hcannot, w, hw, heq⟩
            · rw [heq]
              exact .restarted hacted hlive hbound hcan hw
            · rw [heq]
              exact .notRestarted hacted hlive hbound hcannot hw

/-- Started, bound to a device that is there, or neither. -/
def Volume.level (v : Volume) : ℕ :=
  if v.isStarted then 2 else if v.isPresent then 1 else 0

/-- A pass has started a volume that was not started, or that it had torn down. -/
def BroughtOnline (v : Volume) (r : Outcome) : Prop :=
  r.volume.isStarted = true ∧ (v.isStarted = false ∨ .tornDown ∈ r.actions)

/-- What is returned of a volume is what was done to it. -/
structure ExactFor (pass : Pass) (v : Volume) (r : Outcome) : Prop where
  untouched : inScope v = false → r = ⟨v, none, []⟩
  missing_iff : (∃ t, r.transition = some t ∧ t.kind = .missing) ↔ r.volume.level < v.level
  online_iff : (∃ t, r.transition = some t ∧ t.kind ≠ .missing) ↔ BroughtOnline v r
  guarded : (.bound ∈ r.actions ∨ .started ∈ r.actions) →
    (partitionsWithUuid pass.devices v.partitionUuid).length = 1

def NothingFailed (actions : List Action) : Prop :=
  .bindRefused ∉ actions ∧ .startFailed ∉ actions

/-- The mount that a volume had is the one it has after the pass. -/
def KeptMount (v : Volume) (r : Outcome) : Prop :=
  v.isMounted = true ∧ .tornDown ∉ r.actions ∧ .bound ∉ r.actions

instance (v : Volume) (r : Outcome) : Decidable (KeptMount v r) :=
  inferInstanceAs (Decidable (_ ∧ _ ∧ _))

/-- A second pass over the same rack sees of a volume what the first one saw, or the mount that the
first one left. -/
structure Follows (pass : Pass) (v : Volume) (r : Outcome) (second : Pass) : Prop where
  devices : second.devices = pass.devices
  autoRecover : second.autoRecover = pass.autoRecover
  kept : KeptMount v r → (∀ point, v.mountPoint = some point →
    second.mounts point = pass.mounts point) ∧
    second.backing (mapperName v.uuid) = pass.backing (mapperName v.uuid)
  mounted : ¬ KeptMount v r → r.volume.isMounted → (∀ point, r.volume.mountPoint = some point →
    second.mounts point = r.volume.mountSource) ∧
    (r.volume.isEncrypted → second.backing (mapperName v.uuid) =
      r.volume.blockPath.map withoutDev)

/-- If nothing fails, a second pass has nothing to say of a volume. -/
def QuietFor (pass : Pass) (v : Volume) (r : Outcome) : Prop :=
  ∀ second, Follows pass v r second → NothingFailed r.actions →
    NothingFailed (reconcileVolume second r.volume).actions →
    (reconcileVolume second r.volume).transition = none

/-- A volume is bound to the node that a partition has now. Of a mapper, the directory of that node
is not compared. -/
def boundTo (v : Volume) (partition : CachedPartition) : Bool :=
  if v.isEncrypted then v.blockPath.map withoutDev = some (withoutDev partition.node)
  else v.blockPath = some partition.node

/-- A partition is mounted already, or has a file system that can be. -/
def mountable (partition : CachedPartition) : Bool :=
  truthy partition.mountPoint || truthy partition.fsType

/-- A volume with a stale mount comes back as far as it was. One that is started from the binding
it has is bound to the one partition with its uuid. -/
structure Recoverable (pass : Pass) (v : Volume) : Prop where
  remount : isMountStale pass v = true → ∃ found, Bindable pass v found ∧
    (v.isStarted = true → canStart pass (v.rebind found) = true)
  restart : isMountStale pass v = false → v.isPresent = true → canStart pass v = true →
    ∃ found, onlyMatch pass.devices v.partitionUuid = some found ∧
      (v.isMounted = false → found.2.size = v.bytesTotal → mountable found.2 = true →
        boundTo v found.2 = true)

/-- What the condition asks of a volume that the pass goes on to bring online. -/
def Fit (pass : Pass) (v : Volume) : Prop := ActedOn pass v → Recoverable pass v

/-! ## Stale and live mounts -/

section Mounts

variable {pass : Pass} {v w : Volume}

theorem isMounted_of_stale (h : isMountStale pass v = true) : v.isMounted = true := by
  by_contra hm
  rw [Bool.not_eq_true] at hm
  simp [isMountStale, hm] at h

/-- The mount of a volume is live if it is of the one partition with its uuid. -/
theorem live_iff (hm : v.isMounted = true) :
    isMountStale pass v = false ↔ ∃ point source found, v.mountPoint = some point ∧
      pass.mounts point = some source ∧ source ≠ [] ∧
      onlyMatch pass.devices v.partitionUuid = some found ∧
      if v.isEncrypted then source = mapperPath v.uuid ∧
        pass.backing (mapperName v.uuid) = some (withoutDev found.2.node)
      else source = found.2.node := by
  obtain ⟨point, hpoint⟩ : ∃ point, v.mountPoint = some point := by
    have htruthy := (v.mounted hm).2
    cases hpoint : v.mountPoint with
    | none => simp [hpoint, truthy] at htruthy
    | some point => exact ⟨point, rfl⟩
  have hgate : ¬ (v.isMounted = false ∨ truthy v.mountPoint = false) := by
    simp [hm, (v.mounted hm).2]
  rw [isMountStale, if_neg hgate, hpoint, Option.bind_some]
  cases hsource : pass.mounts point with
  | none => simp [hsource]
  | some source =>
    by_cases hne : source = []
    · simp [Option.filter_some, hne, hsource]
    · have hfilter : (some source).filter (· ≠ []) = some source := by
        simp [Option.filter_some, hne]
      rw [hfilter]
      cases honly : onlyMatch pass.devices v.partitionUuid with
      | none => cases henc : v.isEncrypted <;> simp
      | some found =>
        have hlive : (∃ point' source' found', some point = some point' ∧
            pass.mounts point' = some source' ∧ source' ≠ [] ∧ some found = some found' ∧
            if v.isEncrypted then source' = mapperPath v.uuid ∧
              pass.backing (mapperName v.uuid) = some (withoutDev found'.2.node)
            else source' = found'.2.node) ↔
            if v.isEncrypted then source = mapperPath v.uuid ∧
              pass.backing (mapperName v.uuid) = some (withoutDev found.2.node)
            else source = found.2.node := by
          constructor
          · rintro ⟨_, source', _, hpoint', hsource', -, hfound, h⟩
            cases hpoint'
            cases hfound
            rw [hsource, Option.some_inj] at hsource'
            rw [hsource']
            exact h
          · intro h
            exact ⟨point, source, found, rfl, hsource, hne, rfl, h⟩
        rw [hlive]
        cases henc : v.isEncrypted <;> simp

theorem live_congr {second : Pass} (hconfig : w.config = v.config) (hdevice : w.device = v.device)
    (hmounted : w.isMounted = v.isMounted) (hpoint : w.mountPoint = v.mountPoint)
    (hdevices : second.devices = pass.devices)
    (hmounts : ∀ point, v.mountPoint = some point → second.mounts point = pass.mounts point)
    (hbacking : second.backing (mapperName v.uuid) = pass.backing (mapperName v.uuid)) :
    isMountStale second w = isMountStale pass v := by
  have henc := isEncrypted_congr hdevice
  simp only [Volume.config, Prod.mk.injEq] at hconfig
  have hlookup : v.mountPoint.bind second.mounts = v.mountPoint.bind pass.mounts := by
    cases h : v.mountPoint with
    | none => rfl
    | some point => exact hmounts point h
  simp only [isMountStale, hmounted, hpoint, hlookup, hdevices, henc, hbacking, hconfig]

theorem mountSource_ne (h : v.isPresent = true) :
    ∃ source, v.mountSource = some source ∧ source ≠ [] := by
  unfold Volume.mountSource
  split
  · exact ⟨_, rfl, List.append_ne_nil_of_left_ne_nil (by decide) _⟩
  · have htruthy := v.bound.symm.trans h
    cases hpath : v.blockPath with
    | none => simp [hpath, truthy] at htruthy
    | some path => exact ⟨path, rfl, by simpa [hpath, truthy] using htruthy⟩

/-- What a mount leaves behind is live if it was bound to the partition. -/
theorem live_of_mounted {second : Pass} {found : CachedDevice × CachedPartition}
    (hm : w.isMounted = true)
    (honly : onlyMatch second.devices w.partitionUuid = some found)
    (hmounts : ∀ point, w.mountPoint = some point → second.mounts point = w.mountSource)
    (hbacking : w.isEncrypted →
      second.backing (mapperName w.uuid) = w.blockPath.map withoutDev) :
    isMountStale second w = false ↔ boundTo w found.2 = true := by
  obtain ⟨source, hsource, hne⟩ := mountSource_ne (w.mounted hm).1
  obtain ⟨point, hpoint⟩ : ∃ point, w.mountPoint = some point := by
    have htruthy := (w.mounted hm).2
    cases hpoint : w.mountPoint with
    | none => simp [hpoint, truthy] at htruthy
    | some point => exact ⟨point, rfl⟩
  have hshown := (hmounts point hpoint).trans hsource
  rw [live_iff hm]
  unfold Volume.mountSource at hsource
  cases henc : w.isEncrypted with
  | true =>
    simp only [henc, ite_true, Option.some_inj] at hsource
    simp only [boundTo, henc, ite_true, decide_eq_true_eq, hbacking henc, hpoint, honly,
      Option.some_inj]
    constructor
    · rintro ⟨_, _, _, rfl, -, -, rfl, -, h⟩
      exact h
    · intro h
      exact ⟨point, source, found, rfl, hshown, hne, rfl, hsource.symm, h⟩
  | false =>
    simp only [henc, Bool.false_eq_true, ite_false] at hsource
    simp only [boundTo, henc, Bool.false_eq_true, ite_false, decide_eq_true_eq, hpoint, honly,
      Option.some_inj, hsource]
    constructor
    · rintro ⟨_, _, _, rfl, hother, -, rfl, h⟩
      rw [hshown] at hother
      exact (Option.some_inj.mp hother).trans h
    · intro h
      exact ⟨point, source, found, rfl, hshown, hne, rfl, h⟩

end Mounts

/-! ## One volume -/

section Volumes

variable {pass : Pass} {v w : Volume} {r : Outcome}

@[simp] theorem level_markMissing (v : Volume) : v.markMissing.level = 0 := rfl

theorem level_congr (hstarted : w.isStarted = v.isStarted) (hpresent : w.isPresent = v.isPresent) :
    w.level = v.level := by
  simp only [Volume.level, hstarted, hpresent]

theorem level_pos (h : v.isPresent = true) : 0 < v.level := by
  unfold Volume.level
  rw [if_pos h]
  split <;> decide

theorem level_le (h : v.isStarted = false) : v.level ≤ 1 := by
  unfold Volume.level
  simp only [h, Bool.false_eq_true, ite_false]
  split <;> decide

theorem level_le_two (v : Volume) : v.level ≤ 2 := by
  unfold Volume.level
  split
  · exact Nat.le_refl 2
  · split <;> decide

theorem level_started (h : v.isStarted = true) : v.level = 2 := if_pos h

theorem present_of_device (h : w.device = v.device) : w.isPresent = v.isPresent := by
  simp only [Volume.device, Prod.mk.injEq] at h
  exact h.2.2.2

/-- Of a volume the pass says nothing of, nothing was taken down and nothing was started. -/
theorem exact_silent (hscope : inScope v = true)
    (hlevel : v.level ≤ r.volume.level) (hsilent : r.transition = none)
    (hoff : r.volume.isStarted = true → v.isStarted = true ∧ .tornDown ∉ r.actions)
    (hguard : (.bound ∈ r.actions ∨ .started ∈ r.actions) →
      (partitionsWithUuid pass.devices v.partitionUuid).length = 1) : ExactFor pass v r := by
  constructor
  · intro h
    rw [hscope] at h
    cases h
  · simp [hsilent, hlevel]
  · simp only [hsilent, BroughtOnline]
    constructor
    · rintro ⟨t, h, -⟩
      cases h
    · rintro ⟨hstarted, h⟩
      obtain ⟨hbefore, htorn⟩ := hoff hstarted
      rcases h with h | h
      · rw [hbefore] at h
        cases h
      · exact absurd h htorn
  · exact hguard

/-- Of a volume that the pass says it brought online, that is what happened. -/
theorem exact_online (hscope : inScope v = true) {t : Transition} (ht : r.transition = some t)
    (hkind : t.kind ≠ .missing) (hstarted : r.volume.isStarted = true)
    (hbefore : v.isStarted = false ∨ .tornDown ∈ r.actions)
    (hone : (partitionsWithUuid pass.devices v.partitionUuid).length = 1) :
    ExactFor pass v r := by
  constructor
  · intro h
    rw [hscope] at h
    cases h
  · rw [level_started hstarted]
    constructor
    · rintro ⟨t', ht', hmissing⟩
      rw [ht, Option.some_inj] at ht'
      rw [ht'] at hkind
      exact absurd hmissing hkind
    · intro h
      exact absurd (level_le_two v) (by omega)
  · exact ⟨fun _ => ⟨hstarted, hbefore⟩, fun _ => ⟨t, ht, hkind⟩⟩
  · exact fun _ => hone

theorem upKind_ne (stale : Bool) : upKind stale ≠ .missing := by
  cases stale <;> decide

theorem exactFor_of_fit (hfit : Fit pass v) (hstep : VolumeStep pass v r) :
    ExactFor pass v r := by
  cases hstep with
  | outOfScope hscope =>
    constructor
    · exact fun _ => rfl
    · simp
    · simp [BroughtOnline]
    · simp
  | gone hscope habsent hbound =>
    constructor
    · intro h
      rw [hscope] at h
      cases h
    · simp [level_pos hbound]
    · simp [BroughtOnline, Volume.markMissing]
    · simp
  | absent hscope habsent hbound =>
    exact exact_silent hscope (Nat.le_refl _) rfl (fun h => ⟨h, by simp⟩) (by simp)
  | left hscope hpresent h =>
    exact exact_silent hscope (Nat.le_refl _) rfl (fun h => ⟨h, by simp⟩) (by simp)
  | refused hacted hopen hrefused =>
    have hlive : isMountStale pass v = false := by
      rw [← Bool.not_eq_true]
      intro hstale
      obtain ⟨found, hfound, -⟩ := (hfit hacted).remount hstale
      exact hrefused found hfound
    rw [hlive]
    exact exact_silent hacted.inScope (Nat.le_refl _) rfl (fun h => ⟨h, by simp [tearDown]⟩)
      (by simp [tearDown])
  | @rebound hacted hopen found hfound hcan w hw =>
    refine exact_online hacted.inScope rfl (upKind_ne _) hw.isStarted ?_
      (length_eq_one_iff.mpr ⟨found, hfound.1⟩)
    rcases hacted.off with hstale | hoff
    · exact .inr (by simp [hstale, tearDown])
    · exact .inl hoff
  | @reboundOnly hacted hopen found hfound hcannot w hw =>
    have hpresent : w.isPresent = true := present_of_device hw.device
    have hoff : w.isStarted = false := hw.isStarted
    refine exact_silent hacted.inScope ?_ rfl (fun h => by rw [hoff] at h; cases h)
      (fun _ => length_eq_one_iff.mpr ⟨found, hfound.1⟩)
    have hstopped : v.isStarted = false := by
      rcases hacted.off with hstale | h
      · rw [← Bool.not_eq_true]
        intro hstarted
        obtain ⟨found', hfound', hcan⟩ := (hfit hacted).remount hstale
        have heq : found' = found := Option.some_inj.mp (hfound'.1.symm.trans hfound.1)
        rw [heq] at hcan
        rw [hcan hstarted] at hcannot
        cases hcannot
      · exact h
    exact (level_le hstopped).trans (level_pos hpresent)
  | restarted hacted hlive hbound hcan hw =>
    obtain ⟨found, hfound, -⟩ := (hfit hacted).restart hlive hbound hcan
    refine exact_online hacted.inScope rfl (upKind_ne false) hw.isStarted ?_
      (length_eq_one_iff.mpr ⟨found, hfound⟩)
    exact .inl (hacted.off.resolve_left (by simp [hlive]))
  | notRestarted hacted hlive hbound hcannot hw =>
    have hlevel := level_congr hw.isStarted (present_of_device hw.device)
    refine exact_silent hacted.inScope hlevel.ge rfl (fun h => ?_) (by simp)
    exact ⟨hw.isStarted.symm.trans h, by simp⟩

/-- A pass says nothing of what it does not act on and has bound to a device that is there. -/
theorem transition_eq_none
    (h : inScope w = true → if isPresentIn pass.devices w then
      pass.autoRecover = false ∨ (w.isStarted = true ∧ isMountStale pass w = false)
      else w.isPresent = false) :
    (reconcileVolume pass w).transition = none := by
  have hidle : ¬ ActedOn pass w := by
    intro hacted
    have hsettled := h hacted.inScope
    rw [if_pos hacted.present, hacted.recovering] at hsettled
    obtain ⟨hstarted, hlive⟩ := hsettled.resolve_left (by decide)
    rcases hacted.off with hstale | hoff
    · rw [hlive] at hstale
      cases hstale
    · rw [hstarted] at hoff
      cases hoff
  have hstep := reconcileVolume_step pass w
  generalize reconcileVolume pass w = r at hstep
  cases hstep with
  | outOfScope => rfl
  | gone hscope habsent hbound =>
    have hsettled := h hscope
    rw [if_neg (by simp [habsent]), hbound] at hsettled
    cases hsettled
  | absent => rfl
  | left => rfl
  | refused hacted => exact absurd hacted hidle
  | rebound hacted => exact absurd hacted hidle
  | reboundOnly hacted => exact absurd hacted hidle
  | restarted hacted => exact absurd hacted hidle
  | notRestarted hacted => exact absurd hacted hidle

theorem mountable_of_canStart {found : CachedDevice × CachedPartition}
    (h : canStart pass (v.rebind found) = true) : mountable found.2 = true := by
  simp only [canStart, Bool.and_eq_true, Bool.or_eq_true] at h
  simp only [mountable, Bool.or_eq_true]
  rcases h.1 with hmounted | hfs
  · exact .inl hmounted
  · exact .inr hfs.1.2

theorem rebind_boundTo (v : Volume) (found : CachedDevice × CachedPartition) :
    boundTo (v.rebind found) found.2 = true := by
  unfold boundTo
  split <;> simp [Volume.rebind, Volume.bindDevice]

theorem boundTo_congr {partition : CachedPartition} (h : w.device = v.device) :
    boundTo w partition = boundTo v partition := by
  have henc := isEncrypted_congr h
  simp only [Volume.device, Prod.mk.injEq] at h
  simp only [boundTo, henc, h]

theorem bindable_congr {second : Pass} {found : CachedDevice × CachedPartition}
    (hconfig : w.config = v.config) (hdevices : second.devices = pass.devices) :
    Bindable second w found ↔ Bindable pass v found := by
  simp only [Volume.config, Prod.mk.injEq] at hconfig
  simp only [Bindable, hdevices, hconfig]

/-- A volume started from the binding it had, and mounted by that. -/
theorem quiet_restarted {found : CachedDevice × CachedPartition} {second : Pass}
    (hw : Started v w)
    (honly : onlyMatch pass.devices v.partitionUuid = some found)
    (hbound : found.2.size = v.bytesTotal → mountable found.2 = true → boundTo v found.2 = true)
    (hdevices : second.devices = pass.devices)
    (hmounts : ∀ point, w.mountPoint = some point → second.mounts point = w.mountSource)
    (hbacking : w.isEncrypted →
      second.backing (mapperName w.uuid) = w.blockPath.map withoutDev)
    (hfailed : NothingFailed (reconcileVolume second w).actions) :
    (reconcileVolume second w).transition = none := by
  have honly' : onlyMatch second.devices w.partitionUuid = some found := by
    have hconfig := hw.config
    simp only [Volume.config, Prod.mk.injEq] at hconfig
    rw [hdevices, hconfig.2.2.1]
    exact honly
  have hlive := live_of_mounted hw.isMounted honly' hmounts hbacking
  have hpresent := (w.mounted hw.isMounted).1
  have hnotOpen : isMountStale second w = true ∨ w.isPresent = false →
      boundTo v found.2 = false := by
    intro hopen
    have hstale := hopen.resolve_right (by simp [hpresent])
    rw [← Bool.not_eq_true, ← boundTo_congr hw.device, ← hlive, hstale]
    decide
  have hstep := reconcileVolume_step second w
  generalize reconcileVolume second w = r at hstep hfailed
  cases hstep with
  | outOfScope => rfl
  | gone hscope habsent =>
    rw [isPresentIn_of_onlyMatch honly'] at habsent
    cases habsent
  | absent => rfl
  | left => rfl
  | refused => rfl
  | rebound hacted hopen hfound hcan =>
    have hfound' := (bindable_congr hw.config hdevices).mp hfound
    have heq := Option.some_inj.mp (hfound'.1.symm.trans honly)
    subst heq
    rw [hbound hfound'.2 (mountable_of_canStart hcan)] at hnotOpen
    cases hnotOpen hopen
  | reboundOnly => rfl
  | restarted hacted hlive' =>
    rcases hacted.off with hstale | hoff
    · rw [hlive'] at hstale
      cases hstale
    · rw [hw.isStarted] at hoff
      cases hoff
  | notRestarted => rfl

theorem quietFor_of_fit (hfit : Fit pass v) (hstep : VolumeStep pass v r) : QuietFor pass v r := by
  intro second hfollows hfirst hsecond
  cases hstep with
  | outOfScope hscope =>
    apply transition_eq_none
    intro h
    rw [hscope] at h
    cases h
  | gone hscope habsent hbound =>
    apply transition_eq_none
    intro _
    have habsent' : isPresentIn second.devices v.markMissing = false := by
      rw [hfollows.devices]
      exact habsent
    rw [if_neg (by simp [habsent'])]
    rfl
  | absent hscope habsent hbound =>
    apply transition_eq_none
    intro _
    rw [hfollows.devices, if_neg (by simp [habsent])]
    exact hbound
  | left hscope hpresent h =>
    apply transition_eq_none
    intro _
    rw [hfollows.devices, if_pos hpresent, hfollows.autoRecover]
    refine h.imp id fun ⟨hstarted, hlive⟩ => ⟨hstarted, ?_⟩
    by_cases hmounted : v.isMounted
    · obtain ⟨hmounts, hbacking⟩ := hfollows.kept ⟨hmounted, by simp, by simp⟩
      rw [live_congr rfl rfl rfl rfl hfollows.devices hmounts hbacking]
      exact hlive
    · rw [← Bool.not_eq_true]
      exact fun hstale => hmounted (isMounted_of_stale hstale)
  | refused => exact absurd hfirst.1 (by simp)
  | @rebound hacted hopen found hfound hcan w hw =>
    obtain ⟨hmounts, hbacking⟩ := hfollows.mounted (fun h => h.2.2 (by simp)) hw.isMounted
    have hconfig : w.config = v.config := hw.config
    have huuid : w.uuid = v.uuid := congrArg (fun c => c.2.1) hconfig
    have honly : onlyMatch second.devices w.partitionUuid = some found :=
      ((bindable_congr hconfig hfollows.devices).mpr hfound).1
    apply transition_eq_none
    intro _
    rw [if_pos (isPresentIn_of_onlyMatch honly)]
    refine .inr ⟨hw.isStarted, ?_⟩
    rw [live_of_mounted hw.isMounted honly hmounts (by rw [huuid]; exact hbacking),
      boundTo_congr hw.device]
    exact rebind_boundTo v found
  | reboundOnly => exact absurd hfirst.2 (by simp)
  | restarted hacted hlive hbound hcan hw =>
    rename_i w
    obtain ⟨found, honly, hcurrent⟩ := (hfit hacted).restart hlive hbound hcan
    have huuid : w.uuid = v.uuid := congrArg (fun c => c.2.1) hw.config
    by_cases hmounted : v.isMounted = true
    · obtain ⟨hmounts, hbacking⟩ := hfollows.kept ⟨hmounted, by simp, by simp⟩
      apply transition_eq_none
      intro _
      rw [isPresentIn_congr hw.config, hfollows.devices, if_pos hacted.present]
      refine .inr ⟨hw.isStarted, ?_⟩
      rw [live_congr hw.config hw.device (hw.isMounted.trans hmounted.symm)
        (hw.mountPoint.trans (if_pos hmounted)) hfollows.devices hmounts hbacking]
      exact hlive
    · obtain ⟨hmounts, hbacking⟩ := hfollows.mounted (fun h => hmounted h.1) hw.isMounted
      exact quiet_restarted hw honly (hcurrent (by simpa using hmounted)) hfollows.devices hmounts
        (by rw [huuid]; exact hbacking) hsecond
  | notRestarted => exact absurd hfirst.2 (by simp)

theorem remount_of_exact (hexact : ExactFor pass v r) (hstep : VolumeStep pass v r)
    (hacted : ActedOn pass v) (hstale : isMountStale pass v = true) :
    ∃ found, Bindable pass v found ∧
      (v.isStarted = true → canStart pass (v.rebind found) = true) := by
  have hpresent : v.isPresent = true := (v.mounted (isMounted_of_stale hstale)).1
  have hlevel : r.transition = none → v.level ≤ r.volume.level := by
    intro hnone
    rw [← Nat.not_lt, ← hexact.missing_iff, hnone]
    rintro ⟨t, h, -⟩
    cases h
  cases hstep with
  | outOfScope hscope =>
    rw [hacted.inScope] at hscope
    cases hscope
  | gone hscope habsent =>
    rw [hacted.present] at habsent
    cases habsent
  | absent hscope habsent =>
    rw [hacted.present] at habsent
    cases habsent
  | left hscope hthere h =>
    rcases h with hfrozen | ⟨-, hlive⟩
    · rw [hacted.recovering] at hfrozen
      cases hfrozen
    · rw [hstale] at hlive
      cases hlive
  | refused =>
    have hdropped := hlevel rfl
    rw [if_pos hstale, level_markMissing] at hdropped
    exact absurd (level_pos hpresent) (by omega)
  | @rebound _ _ found hfound hcan => exact ⟨found, hfound, fun _ => hcan⟩
  | @reboundOnly _ _ found hfound hcannot w hw =>
    refine ⟨found, hfound, fun hstarted => ?_⟩
    have hdropped : v.level ≤ w.level := hlevel rfl
    have hoff : w.isStarted = false := hw.isStarted
    rw [level_started hstarted] at hdropped
    exact absurd (level_le hoff) (by omega)
  | restarted _ hlive =>
    rw [hstale] at hlive
    cases hlive
  | notRestarted _ hlive =>
    rw [hstale] at hlive
    cases hlive

/-- The rack as a second pass finds it after one volume was mounted, when everything works. -/
def after (pass : Pass) (w : Volume) : Pass where
  devices := pass.devices
  mounts := fun _ => w.mountSource
  backing := fun _ => w.blockPath.map withoutDev
  autoRecover := pass.autoRecover
  mounting := fun _ => true
  verifying := fun _ => true

/-- A volume that was mounted from another node than its partition has is remounted by the next
pass. -/
theorem noisy_after (hacted : ActedOn pass v) (hw : Started v w)
    {found : CachedDevice × CachedPartition} (hfound : Bindable pass v found)
    (hmountable : mountable found.2 = true) (hbound : boundTo v found.2 = false) :
    NothingFailed (reconcileVolume (after pass w) w).actions ∧
      (reconcileVolume (after pass w) w).transition ≠ none := by
  have hfound' : Bindable (after pass w) w found := (bindable_congr hw.config rfl).mpr hfound
  have hstale : isMountStale (after pass w) w = true := by
    rw [← Bool.not_eq_false, live_of_mounted hw.isMounted hfound'.1 (fun _ _ => rfl) fun _ => rfl,
      boundTo_congr hw.device, hbound]
    decide
  have hpresent : isPresentIn (after pass w).devices w = true := isPresentIn_of_onlyMatch hfound'.1
  have hscope : inScope w = true := (inScope_congr hw.config).trans hacted.inScope
  have hstep := reconcileVolume_step (after pass w) w
  generalize reconcileVolume (after pass w) w = r at hstep
  cases hstep with
  | outOfScope hout =>
    rw [hscope] at hout
    cases hout
  | gone _ habsent =>
    rw [hpresent] at habsent
    cases habsent
  | absent _ habsent =>
    rw [hpresent] at habsent
    cases habsent
  | left _ _ h =>
    rcases h with hfrozen | ⟨-, hlive⟩
    · exact absurd (hacted.recovering.symm.trans hfrozen) (by decide)
    · rw [hstale] at hlive
      cases hlive
  | refused _ _ hrefused => exact absurd hfound' (hrefused found)
  | rebound => exact ⟨by simp [NothingFailed, hstale, tearDown], by simp⟩
  | @reboundOnly _ _ found' hfound'' hcannot =>
    have heq : found' = found := Option.some_inj.mp (hfound''.1.symm.trans hfound'.1)
    subst heq
    have hpath : truthy (w.rebind found').blockPath = true := by
      simp [truthy, Volume.rebind, Volume.bindDevice, found'.2.node_ne]
    have hcan : canStart (after pass w) (w.rebind found') = true := by
      simp only [mountable, Bool.or_eq_true] at hmountable
      simp only [canStart, hpath, after, Bool.and_true, Bool.true_and, Bool.or_eq_true]
      exact hmountable
    rw [hcan] at hcannot
    cases hcannot
  | restarted _ hlive =>
    rw [hstale] at hlive
    cases hlive
  | notRestarted _ hlive =>
    rw [hstale] at hlive
    cases hlive

theorem restart_of_exact (hexact : ExactFor pass v r) (hquiet : QuietFor pass v r)
    (hstep : VolumeStep pass v r) (hacted : ActedOn pass v) (hlive : isMountStale pass v = false)
    (hbound : v.isPresent = true) (hcan : canStart pass v = true) :
    ∃ found, onlyMatch pass.devices v.partitionUuid = some found ∧
      (v.isMounted = false → found.2.size = v.bytesTotal → mountable found.2 = true →
        boundTo v found.2 = true) := by
  have hclosed : ¬ (isMountStale pass v = true ∨ v.isPresent = false) := by
    simp [hlive, hbound]
  cases hstep with
  | outOfScope hscope =>
    rw [hacted.inScope] at hscope
    cases hscope
  | gone hscope habsent =>
    rw [hacted.present] at habsent
    cases habsent
  | absent hscope habsent =>
    rw [hacted.present] at habsent
    cases habsent
  | left hscope hthere h =>
    rcases h with hfrozen | ⟨hstarted, -⟩
    · rw [hacted.recovering] at hfrozen
      cases hfrozen
    · have hoff := hacted.off.resolve_left (by simp [hlive])
      rw [hstarted] at hoff
      cases hoff
  | refused _ hopen => exact absurd hopen hclosed
  | rebound _ hopen => exact absurd hopen hclosed
  | reboundOnly _ hopen => exact absurd hopen hclosed
  | @restarted _ _ _ _ w hw =>
    obtain ⟨found, honly⟩ := length_eq_one_iff.mp (hexact.guarded (.inr (by simp)))
    refine ⟨found, honly, fun hunmounted hsize hmountable => ?_⟩
    by_contra hother
    rw [Bool.not_eq_true] at hother
    obtain ⟨hworked, hnoisy⟩ := noisy_after hacted hw ⟨honly, hsize⟩ hmountable hother
    refine hnoisy (hquiet (after pass w) ?_ (by simp [NothingFailed]) hworked)
    constructor
    · rfl
    · rfl
    · intro hkept
      exact absurd hkept.1 (by simp [hunmounted])
    · exact fun _ _ => ⟨fun _ _ => rfl, fun _ => rfl⟩
  | notRestarted _ _ _ hcannot =>
    rw [hcan] at hcannot
    cases hcannot

theorem fit_iff (hstep : VolumeStep pass v r) :
    ExactFor pass v r ∧ QuietFor pass v r ↔ Fit pass v := by
  constructor
  · rintro ⟨hexact, hquiet⟩ hacted
    constructor
    · exact remount_of_exact hexact hstep hacted
    · exact restart_of_exact hexact hquiet hstep hacted
  · intro hfit
    exact ⟨exactFor_of_fit hfit hstep, quietFor_of_fit hfit hstep⟩

theorem step_config (hstep : VolumeStep pass v r) : r.volume.config = v.config := by
  cases hstep with
  | refused =>
    simp only
    split <;> rfl
  | rebound _ _ _ _ hw => exact hw.config
  | reboundOnly _ _ _ _ hw => exact hw.config
  | restarted _ _ _ _ hw => exact hw.config
  | notRestarted _ _ _ _ hw => exact hw.config
  | _ => rfl

theorem reconcileVolume_id (pass : Pass) (v : Volume) : (reconcileVolume pass v).volume.id = v.id :=
  congrArg Prod.fst (step_config (reconcileVolume_step pass v))

theorem transition_id {t : Transition} (hstep : VolumeStep pass v r) (ht : r.transition = some t) :
    t.volumeId = v.id := by
  cases hstep <;> cases ht <;> rfl

end Volumes

/-! ## The fleet -/

/-- The volumes of the fleet in the order of their ids. -/
structure Fleet where
  volumes : List Volume
  nodup : (volumes.map Volume.id).Nodup

/-- The fleet after a pass, what the pass returns, and what it did to which volume. -/
structure Reconciled where
  fleet : Fleet
  transitions : List Transition
  actions : List (ℕ × Action)

/-- A mount table that cannot be read ends a pass before its first volume. -/
def reconcile (pass : Pass) (fleet : Fleet) : Reconciled where
  fleet :=
    { volumes := fleet.volumes.map fun v => (reconcileVolume pass v).volume
      nodup := by
        rw [List.map_map]
        have hids : Volume.id ∘ (fun v => (reconcileVolume pass v).volume) = Volume.id :=
          funext fun v => reconcileVolume_id pass v
        rw [hids]
        exact fleet.nodup }
  transitions := fleet.volumes.filterMap fun v => (reconcileVolume pass v).transition
  actions := fleet.volumes.flatMap fun v => (reconcileVolume pass v).actions.map fun a => (v.id, a)

section Fleets

variable {pass : Pass} {fleet : Fleet} {v w : Volume}

theorem eq_of_id (hv : v ∈ fleet.volumes) (hw : w ∈ fleet.volumes) (h : v.id = w.id) : v = w :=
  List.inj_on_of_nodup_map fleet.nodup hv hw h

theorem mem_volumes (hv : v ∈ fleet.volumes) :
    (w ∈ (reconcile pass fleet).fleet.volumes ∧ w.id = v.id) ↔
      w = (reconcileVolume pass v).volume := by
  simp only [reconcile, List.mem_map]
  constructor
  · rintro ⟨⟨u, hu, rfl⟩, hid⟩
    rw [reconcileVolume_id] at hid
    rw [eq_of_id hu hv hid]
  · rintro rfl
    exact ⟨⟨v, hv, rfl⟩, reconcileVolume_id pass v⟩

theorem mem_transitions (hv : v ∈ fleet.volumes) {t : Transition} :
    (t ∈ (reconcile pass fleet).transitions ∧ t.volumeId = v.id) ↔
      (reconcileVolume pass v).transition = some t := by
  simp only [reconcile, List.mem_filterMap]
  constructor
  · rintro ⟨⟨u, hu, ht⟩, hid⟩
    have hid' := transition_id (reconcileVolume_step pass u) ht
    rw [eq_of_id hv hu (hid.symm.trans hid')]
    exact ht
  · intro ht
    exact ⟨⟨v, hv, ht⟩, transition_id (reconcileVolume_step pass v) ht⟩

theorem mem_actions (hv : v ∈ fleet.volumes) {a : Action} :
    (v.id, a) ∈ (reconcile pass fleet).actions ↔ a ∈ (reconcileVolume pass v).actions := by
  simp only [reconcile, List.mem_flatMap, List.mem_map, Prod.mk.injEq]
  constructor
  · rintro ⟨u, hu, b, hb, hid, rfl⟩
    rw [eq_of_id hv hu hid.symm]
    exact hb
  · intro ha
    exact ⟨v, hv, a, ha, rfl, rfl⟩

end Fleets

/-- The transitions of a pass are what it did to the fleet. -/
structure Exact (pass : Pass) (fleet : Fleet) : Prop where
  untouched : ∀ v ∈ fleet.volumes, inScope v = false →
    v ∈ (reconcile pass fleet).fleet.volumes ∧
      (∀ t ∈ (reconcile pass fleet).transitions, t.volumeId ≠ v.id) ∧
      ∀ a, (v.id, a) ∉ (reconcile pass fleet).actions
  missing_iff : ∀ v ∈ fleet.volumes, ∀ w ∈ (reconcile pass fleet).fleet.volumes, w.id = v.id →
    ((∃ t ∈ (reconcile pass fleet).transitions, t.volumeId = v.id ∧ t.kind = .missing) ↔
      w.level < v.level)
  online_iff : ∀ v ∈ fleet.volumes, ∀ w ∈ (reconcile pass fleet).fleet.volumes, w.id = v.id →
    ((∃ t ∈ (reconcile pass fleet).transitions, t.volumeId = v.id ∧ t.kind ≠ .missing) ↔
      w.isStarted = true ∧
        (v.isStarted = false ∨ (v.id, .tornDown) ∈ (reconcile pass fleet).actions))
  once : ((reconcile pass fleet).transitions.map Transition.volumeId).Nodup
  guarded : ∀ v ∈ fleet.volumes, ((v.id, .bound) ∈ (reconcile pass fleet).actions ∨
      (v.id, .started) ∈ (reconcile pass fleet).actions) →
    (partitionsWithUuid pass.devices v.partitionUuid).length = 1

def NoFailureOf (id : ℕ) (r : Reconciled) : Prop :=
  (id, .bindRefused) ∉ r.actions ∧ (id, .startFailed) ∉ r.actions

/-- A second pass over the same rack says nothing of a volume with which nothing failed. -/
def Quiet (pass : Pass) (fleet : Fleet) : Prop :=
  ∀ v ∈ fleet.volumes, ∀ second, Follows pass v (reconcileVolume pass v) second →
    NoFailureOf v.id (reconcile pass fleet) →
    NoFailureOf v.id (reconcile second (reconcile pass fleet).fleet) →
    ∀ t ∈ (reconcile second (reconcile pass fleet).fleet).transitions, t.volumeId ≠ v.id

section Fleets

variable {pass : Pass} {fleet : Fleet} {v w : Volume}

theorem transitions_nodup (pass : Pass) (fleet : Fleet) :
    ((reconcile pass fleet).transitions.map Transition.volumeId).Nodup := by
  have hsub : ((reconcile pass fleet).transitions.map Transition.volumeId).Sublist
      (fleet.volumes.map Volume.id) := by
    simp only [reconcile]
    induction fleet.volumes with
    | nil => exact .slnil
    | cons v rest ih =>
      cases ht : (reconcileVolume pass v).transition with
      | none =>
        rw [List.filterMap_cons_none (f := fun v => (reconcileVolume pass v).transition) ht]
        exact ih.cons _
      | some t =>
        rw [List.filterMap_cons_some (f := fun v => (reconcileVolume pass v).transition) ht,
          List.map_cons, List.map_cons, transition_id (reconcileVolume_step pass v) ht]
        exact ih.cons_cons _
  exact hsub.nodup fleet.nodup

theorem exists_transition (hv : v ∈ fleet.volumes) (q : Kind → Prop) :
    (∃ t ∈ (reconcile pass fleet).transitions, t.volumeId = v.id ∧ q t.kind) ↔
      ∃ t, (reconcileVolume pass v).transition = some t ∧ q t.kind := by
  constructor
  · rintro ⟨t, ht, hid, hq⟩
    exact ⟨t, (mem_transitions hv).mp ⟨ht, hid⟩, hq⟩
  · rintro ⟨t, ht, hq⟩
    obtain ⟨hmem, hid⟩ := (mem_transitions hv).mpr ht
    exact ⟨t, hmem, hid, hq⟩

theorem exactFor_of_exact (h : Exact pass fleet) (hv : v ∈ fleet.volumes) :
    ExactFor pass v (reconcileVolume pass v) := by
  obtain ⟨hmem, hid⟩ : (reconcileVolume pass v).volume ∈ (reconcile pass fleet).fleet.volumes ∧
      (reconcileVolume pass v).volume.id = v.id := (mem_volumes hv).mpr rfl
  constructor
  · intro hscope
    have hstep := reconcileVolume_step pass v
    generalize reconcileVolume pass v = r at hstep
    cases hstep with
    | outOfScope => rfl
    | gone hin => exact absurd (hin.symm.trans hscope) (by decide)
    | absent hin => exact absurd (hin.symm.trans hscope) (by decide)
    | left hin => exact absurd (hin.symm.trans hscope) (by decide)
    | refused hacted => exact absurd (hacted.inScope.symm.trans hscope) (by decide)
    | rebound hacted => exact absurd (hacted.inScope.symm.trans hscope) (by decide)
    | reboundOnly hacted => exact absurd (hacted.inScope.symm.trans hscope) (by decide)
    | restarted hacted => exact absurd (hacted.inScope.symm.trans hscope) (by decide)
    | notRestarted hacted => exact absurd (hacted.inScope.symm.trans hscope) (by decide)
  · exact (exists_transition hv (· = .missing)).symm.trans (h.missing_iff v hv _ hmem hid)
  · rw [BroughtOnline, ← mem_actions hv]
    exact (exists_transition hv (· ≠ .missing)).symm.trans (h.online_iff v hv _ hmem hid)
  · intro hactions
    refine h.guarded v hv ?_
    rw [mem_actions hv, mem_actions hv]
    exact hactions

theorem exact_of_exactFor (h : ∀ v ∈ fleet.volumes, ExactFor pass v (reconcileVolume pass v)) :
    Exact pass fleet := by
  constructor
  · intro v hv hscope
    have hr := (h v hv).untouched hscope
    have hstays : v = (reconcileVolume pass v).volume := by rw [hr]
    refine ⟨((mem_volumes hv).mpr hstays).1, ?_, ?_⟩
    · intro t ht hid
      have hnone := (mem_transitions hv).mp ⟨ht, hid⟩
      rw [hr] at hnone
      cases hnone
    · intro a ha
      rw [mem_actions hv, hr] at ha
      cases ha
  · intro v hv w hw hid
    rw [(mem_volumes hv).mp ⟨hw, hid⟩, exists_transition hv (· = .missing)]
    exact (h v hv).missing_iff
  · intro v hv w hw hid
    rw [(mem_volumes hv).mp ⟨hw, hid⟩, exists_transition hv (· ≠ .missing), mem_actions hv]
    exact (h v hv).online_iff
  · exact transitions_nodup pass fleet
  · intro v hv hactions
    rw [mem_actions hv, mem_actions hv] at hactions
    exact (h v hv).guarded hactions

theorem noFailureOf_iff (hv : v ∈ fleet.volumes) :
    NoFailureOf v.id (reconcile pass fleet) ↔ NothingFailed (reconcileVolume pass v).actions := by
  rw [NoFailureOf, NothingFailed, mem_actions hv, mem_actions hv]

theorem quiet_iff :
    Quiet pass fleet ↔ ∀ v ∈ fleet.volumes, QuietFor pass v (reconcileVolume pass v) := by
  have hsecond : ∀ v ∈ fleet.volumes, ∀ second : Pass,
      (reconcileVolume pass v).volume ∈ (reconcile pass fleet).fleet.volumes ∧
        (reconcileVolume pass v).volume.id = v.id := by
    intro v hv _
    exact (mem_volumes hv).mpr rfl
  constructor
  · intro hquiet v hv second hfollows hfirst hlater
    obtain ⟨hmem, hid⟩ := hsecond v hv second
    rw [Option.eq_none_iff_forall_ne_some]
    intro t ht
    obtain ⟨htmem, htid⟩ := (mem_transitions hmem).mpr ht
    refine hquiet v hv second hfollows ((noFailureOf_iff hv).mpr hfirst) ?_ t htmem
      (htid.trans hid)
    rw [← hid]
    exact (noFailureOf_iff hmem).mpr hlater
  · intro hquiet v hv second hfollows hfirst hlater t ht htid
    obtain ⟨hmem, hid⟩ := hsecond v hv second
    rw [← hid] at hlater
    have hnone := hquiet v hv second hfollows ((noFailureOf_iff hv).mp hfirst)
      ((noFailureOf_iff hmem).mp hlater)
    have hsome := (mem_transitions hmem).mp ⟨ht, htid.trans hid.symm⟩
    rw [hnone] at hsome
    cases hsome

/-- If nothing fails with any volume, the second pass returns nothing. -/
theorem no_transitions (hquiet : Quiet pass fleet) {second : Pass}
    (hfollows : ∀ v ∈ fleet.volumes, Follows pass v (reconcileVolume pass v) second)
    (hfirst : ∀ id, NoFailureOf id (reconcile pass fleet))
    (hlater : ∀ id, NoFailureOf id (reconcile second (reconcile pass fleet).fleet)) :
    (reconcile second (reconcile pass fleet).fleet).transitions = [] := by
  rw [List.eq_nil_iff_forall_not_mem]
  intro t ht
  have htransition := ht
  simp only [reconcile, List.mem_filterMap, List.mem_map] at htransition
  obtain ⟨w, ⟨v, hv, rfl⟩, hw⟩ := htransition
  have hid := (transition_id (reconcileVolume_step _ _) hw).trans (reconcileVolume_id pass v)
  exact hquiet v hv second (hfollows v hv) (hfirst v.id) (hlater v.id) t ht hid

/-- A pass says exactly what it did, and a second one is silent, if and only if each volume with a
stale mount can be bound again and is brought back as far as it was, and each volume started from
the binding it had is bound to the one partition with its uuid. -/
theorem reconcile_exact (pass : Pass) (fleet : Fleet) :
    (Exact pass fleet ∧ Quiet pass fleet ↔ ∀ v ∈ fleet.volumes, Fit pass v) ∧
      ((∀ v ∈ fleet.volumes, Fit pass v) → ∀ second,
        (∀ v ∈ fleet.volumes, Follows pass v (reconcileVolume pass v) second) →
        (∀ id, NoFailureOf id (reconcile pass fleet)) →
        (∀ id, NoFailureOf id (reconcile second (reconcile pass fleet).fleet)) →
        (reconcile second (reconcile pass fleet).fleet).transitions = []) := by
  have hiff : Exact pass fleet ∧ Quiet pass fleet ↔ ∀ v ∈ fleet.volumes, Fit pass v := by
    rw [quiet_iff]
    constructor
    · rintro ⟨hexact, hquiet⟩ v hv
      exact (fit_iff (reconcileVolume_step pass v)).mp ⟨exactFor_of_exact hexact hv, hquiet v hv⟩
    · intro hfit
      have hboth := fun v hv => (fit_iff (reconcileVolume_step pass v)).mpr (hfit v hv)
      exact ⟨exact_of_exactFor fun v hv => (hboth v hv).1, fun v hv => (hboth v hv).2⟩
  refine ⟨hiff, ?_⟩
  intro hfit second hfollows hfirst hlater
  exact no_transitions (hiff.mpr hfit).2 hfollows hfirst hlater

/-- The partition of a volume, or of a copy of its disk. -/
def shownPartition (name : Text) : CachedPartition where
  name := name
  path := none
  uuid := some "p7".toList
  size := 1000
  fsType := some "ext4".toList
  mountPoint := none
  path_ne := by decide

def cloned (started : Bool) : Volume where
  id := 7
  uuid := "u7".toList
  partitionUuid := some "p7".toList
  bytesTotal := 1000
  isDeleted := false
  isEnabled := true
  isDraining := false
  isPresent := true
  isStarted := started
  isMounted := started
  deviceName := some "sdf".toList
  blockPath := some "/dev/sdf1".toList
  fsType := some "ext4".toList
  mountPoint := some (mountDirectory "u7".toList)
  bound := by decide
  started := fun _ => rfl
  mounted := fun _ => ⟨rfl, by decide⟩

def clonedFleet (started : Bool) : Fleet where
  volumes := [cloned started]
  nodup := List.nodup_singleton 7

def clonePass : Pass where
  devices := [⟨"sdf".toList, [shownPartition "sdf1".toList]⟩,
    ⟨"sdg".toList, [shownPartition "sdg1".toList]⟩]
  mounts := fun _ => some "/dev/sdf1".toList
  backing := fun _ => none
  autoRecover := true
  mounting := fun _ => true
  verifying := fun _ => true

/-- With a copy of its disk in the rack, a volume that is online is taken down and nothing is
returned. One that is bound but stopped is started from the binding it has. -/
theorem clone_unreported :
    (reconcile clonePass (clonedFleet true)).transitions = [] ∧
      (reconcile clonePass (clonedFleet true)).fleet.volumes.map Volume.level = [0] ∧
      (reconcile clonePass (clonedFleet false)).actions = [(7, .started)] ∧
      (partitionsWithUuid clonePass.devices (cloned false).partitionUuid).length = 2 ∧
      ¬ Exact clonePass (clonedFleet true) ∧ ¬ Exact clonePass (clonedFleet false) := by
  have htaken : (reconcile clonePass (clonedFleet true)).transitions = [] ∧
      (reconcile clonePass (clonedFleet true)).fleet.volumes.map Volume.level = [0] := by
    decide
  have hstarted : (reconcile clonePass (clonedFleet false)).actions = [(7, .started)] ∧
      (partitionsWithUuid clonePass.devices (cloned false).partitionUuid).length = 2 := by
    decide
  refine ⟨htaken.1, htaken.2, hstarted.1, hstarted.2, ?_, ?_⟩
  · intro hexact
    have hdropped := (hexact.missing_iff (cloned true) (List.mem_singleton_self _) _
      (List.mem_singleton_self _) (reconcileVolume_id _ _)).mpr (by decide)
    obtain ⟨t, ht, -⟩ := hdropped
    rw [htaken.1] at ht
    cases ht
  · intro hexact
    have hone := hexact.guarded (cloned false) (List.mem_singleton_self _)
      (.inr (by rw [hstarted.1]; exact List.mem_singleton_self _))
    rw [hstarted.2] at hone
    cases hone

end Fleets

end VolumeFleet
