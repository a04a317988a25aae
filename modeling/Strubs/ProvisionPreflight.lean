import Strubs.DeviceIdentityProbe
import Strubs.DeviceProvisioner
import Strubs.RecoveryGate

/-! # What is checked before a disk is destroyed

A disk is looked at, wiped if that is asked for, looked at again, partitioned, encrypted and
formatted. Each check refuses, and each command that writes to a disk is logged. -/
namespace ProvisionPreflight

open CooperativeTasks
open DeviceIdentityProbe (ProbeResult assertDeviceIsNotOurs)
open DeviceProvisioner (getNextVolumeId)
open LuksRecoveryKey (Passphrase truthy)
open NamespaceRecord (Text)
open RecoveryGate (normalizeIdentity)

/-- What lies on a device, with what lies on that. -/
inductive RawBlockDeviceChild where
  | mk (name : Text) (uuid mountpoint : Option Text) (children : List RawBlockDeviceChild)

namespace RawBlockDeviceChild

def name : RawBlockDeviceChild → Text
  | .mk name _ _ _ => name

def uuid : RawBlockDeviceChild → Option Text
  | .mk _ uuid _ _ => uuid

end RawBlockDeviceChild

mutual

def isMounted : RawBlockDeviceChild → Bool
  | .mk _ _ mountpoint children => (truthy mountpoint).isSome || anyMounted children

/-- A mount may be on a mapper underneath the partition. -/
def anyMounted : List RawBlockDeviceChild → Bool
  | [] => false
  | child :: rest => isMounted child || anyMounted rest

end

/-- A disk as `lsblk` lists it. Its serial is that of the enclosure. -/
structure RawBlockDevice where
  path : Text
  serial : Option Text
  pttype : Option Text
  ptuuid : Option Text
  children : List RawBlockDeviceChild

def getDeviceIdentityKey (device : RawBlockDevice) : Option Text :=
  match truthy device.serial, truthy device.pttype, truthy device.ptuuid with
  | some serial, some pttype, some ptuuid => some (serial ++ ':' :: pttype ++ ':' :: ptuuid)
  | _, _, _ => none

structure FleetVolume where
  id : ℕ
  deviceSerial : Option Text
  partitionUuid : Option Text
  deriving DecidableEq

/-- All that writes to a disk. -/
inductive Command where
  | mklabel (path : Text)
  | mkpart (path : Text)
  | luksFormat (path partition : Text)
  | addPassphrase (path partition : Text)
  | mkfs (path target : Text)
  | writeNameplate (path : Text) (volumeId : ℕ)
  | claimIdentity (path : Text) (volume : FleetVolume)
  deriving DecidableEq

inductive Refusal where
  | badWipe
  | wipeRequired
  | encryptRequired
  | recovering
  | rotating
  | noSmartSerial
  | otherDisk
  | notFound
  | wentAway
  | swapped
  | notOurs (refusal : DeviceIdentityProbe.Refusal)
  | mounted
  | notFoundAfterWipe
  | tableWithoutPartitions
  | alreadyPartitioned
  | noSerial
  | alreadyRegistered
  | noKeyfile
  | passphraseUnusable
  | noPassphrase
  | doesNotOpenTheFleet
  | doesNotMatchTheVerifier
  | partitionTimeout
  | notRecoverable
  | notOpened
  | otherMapper
  | noPartitionUuid
  | noDeviceSerial
  | noIdentity
  | noPartitionNumber
  | noNameplate
  | notRecorded
  | commandFailed (command : Command)
  | unavailable
  deriving DecidableEq

/-- The refusals for a reason that was there before anything was done: the keyfile, the passphrase,
the registration, the serial, a mount, or whose disk it is. -/
def Preventable : Refusal → Prop
  | .noKeyfile | .passphraseUnusable | .noPassphrase | .doesNotOpenTheFleet
  | .doesNotMatchTheVerifier | .alreadyRegistered | .noSerial | .noDeviceSerial | .noSmartSerial
  | .mounted | .notOurs _ => True
  | _ => False

instance : DecidablePred Preventable := fun r => by
  cases r <;> unfold Preventable <;> infer_instance

/-- The rack, the fleet and the encryption configuration, and the commands that were run. -/
structure World where
  identity : Option Text
  encryptNewVolumes : Bool
  rotating : Bool
  devices : List RawBlockDevice
  probe : RawBlockDevice → ProbeResult
  volumes : List FleetVolume
  keyfileReadable : Bool
  sealedPassphrase : Option Passphrase
  hasVerifier : Bool
  opensTheFleet : Passphrase → Bool
  matchesVerifier : Passphrase → Bool
  rows : List ℕ
  log : List Command

inductive Call where
  | getRuntimeConfig
  | takeEncryptionSlot
  | instanceIdentity
  | currentDiskIdentity (path : Text)
  | listRawBlockDevices
  | probeDeviceForStrubsIdentity (device : RawBlockDevice)
  | getVolumeEntries
  | keyfileReadable
  | sealedRecoveryPassphrase
  | hasRecoveryPassphrase
  | assertPassphraseOpensTheFleet (p : Passphrase)
  | assertFleetRecoveryPassphrase (p : Passphrase)
  | run (command : Command)
  | assertRecoverable (partition : Text)
  | testPassphrase (partition : Text) (p : Passphrase)
  | openContainer (partition volumeUuid : Text)
  | mapperBackingDevice (volumeUuid : Text)
  | close (volumeUuid : Text)
  | nameplateIsPresent (path : Text) (number volumeId : ℕ)
  | getVolumes
  | deleteVolume (id : ℕ)
  | deregisterVolume (id : ℕ)
  | createVolume (id : ℕ)
  | updateVolumeFlags (id : ℕ)

@[reducible] def Answer : Call → Type
  | .getRuntimeConfig | .keyfileReadable | .hasRecoveryPassphrase | .testPassphrase _ _
  | .nameplateIsPresent _ _ _ => Bool
  | .instanceIdentity | .currentDiskIdentity _ | .mapperBackingDevice _ => Option Text
  | .sealedRecoveryPassphrase => Option Passphrase
  | .listRawBlockDevices => List RawBlockDevice
  | .probeDeviceForStrubsIdentity _ => ProbeResult
  | .getVolumeEntries => List FleetVolume
  | .getVolumes => List ℕ
  | _ => Unit

/-- How a call turns out: whether it is rejected, and if so, whether it was done all the same, what
the drive says its serial is, which disks are not listed, what the kernel shows on a disk after it
was written to, and what a new container answers. -/
structure Env where
  rejected : Bool
  landed : Bool
  smart : Option Text
  hidden : Text → Bool
  created : List RawBlockDeviceChild
  holds : Bool
  backing : Option Text

/-- A GUID that is in the identity of no disk. It is longer than all of them. -/
def freshGuid (devices : List RawBlockDevice) : Text :=
  '0' :: (devices.map fun d => (getDeviceIdentityKey d).getD []).flatten

def World.setDevice (w : World) (path : Text) (f : RawBlockDevice → RawBlockDevice) : World :=
  { w with devices := w.devices.map fun d => if d.path = path then f d else d }

def findDeviceByPath (devices : List RawBlockDevice) (path : Text) : Option RawBlockDevice :=
  devices.find? fun d => d.path = path

/-- A table is new after `mklabel`. Every command may change what the kernel shows. -/
def Command.effect (env : Env) (w : World) : Command → World
  | .mklabel path => w.setDevice path fun d =>
    { d with
      pttype := some "gpt".toList
      ptuuid := some (freshGuid w.devices)
      children := env.created }
  | .mkpart path | .luksFormat path _ | .mkfs path _ =>
    w.setDevice path fun d => { d with children := env.created }
  | .claimIdentity _ volume => { w with volumes := w.volumes ++ [volume] }
  | .addPassphrase _ _ | .writeNameplate _ _ => w

def act (env : Env) (w : World) : (c : Call) → Except Refusal (Answer c) × World
  | .getRuntimeConfig => (.ok w.encryptNewVolumes, w)
  | .takeEncryptionSlot => (if w.rotating then .error .rotating else .ok (), w)
  | .instanceIdentity => (.ok w.identity, w)
  | .currentDiskIdentity _ => (.ok env.smart, w)
  | .listRawBlockDevices => (.ok (w.devices.filter fun d => !env.hidden d.path), w)
  | .probeDeviceForStrubsIdentity device => (.ok (w.probe device), w)
  | .getVolumeEntries => (.ok w.volumes, w)
  | .keyfileReadable => (.ok w.keyfileReadable, w)
  | .sealedRecoveryPassphrase => (.ok w.sealedPassphrase, w)
  | .hasRecoveryPassphrase => (.ok w.hasVerifier, w)
  | .assertPassphraseOpensTheFleet p =>
    (if w.opensTheFleet p then .ok () else .error .doesNotOpenTheFleet, w)
  | .assertFleetRecoveryPassphrase p =>
    (if w.matchesVerifier p then .ok () else .error .doesNotMatchTheVerifier, w)
  | .run command => (.ok (), { command.effect env w with log := w.log ++ [command] })
  | .assertRecoverable _ => (if env.holds then .ok () else .error .notRecoverable, w)
  | .testPassphrase _ _ => (.ok env.holds, w)
  | .openContainer _ _ => (.ok (), w)
  | .mapperBackingDevice _ => (.ok env.backing, w)
  | .close _ => (.ok (), w)
  | .nameplateIsPresent _ _ _ => (.ok env.holds, w)
  | .getVolumes => (.ok w.rows, w)
  | .deleteVolume id => (.ok (), { w with rows := w.rows.erase id })
  | .deregisterVolume id => (.ok (), { w with volumes := w.volumes.filter (·.id ≠ id) })
  | .createVolume id => (.ok (), { w with rows := w.rows ++ [id] })
  | .updateVolumeFlags _ => (.ok (), w)

/-- What is in memory is always there. -/
def isSync : Call → Bool
  | .instanceIdentity | .getVolumeEntries => true
  | _ => false

def rejection : Call → Refusal
  | .run command => .commandFailed command
  | _ => .unavailable

def exec (env : Env) (c : Call) (w : World) : Except Refusal (Answer c) × World :=
  if env.rejected && !isSync c then
    (.error (rejection c), if env.landed then (act env w c).2 else w)
  else act env w c

abbrev Provision := Task Answer Refusal

def call (c : Call) : Provision (Answer c) := perform c

def refuseIf (c : Prop) [Decidable c] (e : Refusal) : Provision Unit :=
  if c then throw e else pure ()

/-! ## Provisioning -/

inductive WipeOption where
  | absent
  | flag (wipe : Bool)
  | other
  deriving DecidableEq

structure ProvisionOptions where
  blockPath : Text
  wipe : WipeOption
  encrypt : Option Bool
  recoveryPassphrase : Option Passphrase
  expectDiskSerial : Option Text
  convertVolumeId : Option ℕ

/-- A locked disk shows no more than the first digits of its identity. -/
def sameIdentity (ours : Option Text) (theirs : Text) : Bool :=
  let a := normalizeIdentity (ours.getD [])
  let b := normalizeIdentity theirs
  let shared := min a.length b.length
  16 ≤ shared && a.take shared = b.take shared

def validateOptions (options : ProvisionOptions) : Provision Unit := do
  refuseIf (options.wipe = .other) .badWipe
  refuseIf (options.convertVolumeId.isSome ∧ options.wipe ≠ .flag true) .wipeRequired
  refuseIf (options.convertVolumeId.isSome ∧ options.encrypt ≠ some true) .encryptRequired

def orRefuse {α : Type} (a : Option α) (e : Refusal) : Provision α :=
  match a with
  | some a => return a
  | none => throw e

/-- A path names a disk as long as the drive there has the same serial. -/
def assertStillTheSameDisk (blockPath diskSerial : Text) : Provision Unit := do
  let now ← call (.currentDiskIdentity blockPath)
  let now ← orRefuse (truthy now) .wentAway
  refuseIf (now ≠ diskSerial) .swapped

def fencedWrite (blockPath diskSerial : Text) (command : Command) : Provision Unit := do
  assertStillTheSameDisk blockPath diskSerial
  call (.run command)

/-- The drive says who it is before the rack is listed. -/
def anchor (options : ProvisionOptions) : Provision Text := do
  let serial ← call (.currentDiskIdentity options.blockPath)
  let diskSerial ← orRefuse (truthy serial) .noSmartSerial
  let expected := truthy options.expectDiskSerial
  refuseIf (expected.isSome ∧ expected ≠ some diskSerial) .otherDisk
  return diskSerial

def checkOwner (options : ProvisionOptions) (device : RawBlockDevice) : Provision Unit := do
  let probe ← call (.probeDeviceForStrubsIdentity device)
  let identity ← call .instanceIdentity
  match assertDeviceIsNotOurs (sameIdentity identity) options.convertVolumeId probe with
  | .ok () => return
  | .error e => throw (.notOurs e)

/-- A listed disk, and all that were listed with it. -/
structure Listing where
  targetDevice : RawBlockDevice
  devices : List RawBlockDevice

def listDisk (blockPath : Text) (e : Refusal) : Provision Listing := do
  let devices ← call .listRawBlockDevices
  let targetDevice ← orRefuse (findDeviceByPath devices blockPath) e
  return ⟨targetDevice, devices⟩

/-- The serial of the drive, and the disk as it was listed and probed. -/
def vet (options : ProvisionOptions) : Provision (Text × Listing) := do
  validateOptions options
  let identity ← call .instanceIdentity
  refuseIf (identity = none) .recovering
  let diskSerial ← anchor options
  let listing ← listDisk options.blockPath .notFound
  assertStillTheSameDisk options.blockPath diskSerial
  checkOwner options listing.targetDevice
  assertStillTheSameDisk options.blockPath diskSerial
  return (diskSerial, listing)

def wipeDevice (blockPath diskSerial : Text) (targetDevice : RawBlockDevice) :
    Provision Listing := do
  refuseIf (anyMounted targetDevice.children = true) .mounted
  fencedWrite blockPath diskSerial (.mklabel blockPath)
  listDisk blockPath .notFoundAfterWipe

def hasTable (device : RawBlockDevice) : Bool :=
  (truthy device.pttype).isSome || (truthy device.ptuuid).isSome

/-- Without a wipe, a disk is not taken for blank if it has a table and no partitions. -/
def clear (options : ProvisionOptions) (diskSerial : Text) (listing : Listing) :
    Provision Listing :=
  if options.wipe = .flag true then wipeDevice options.blockPath diskSerial listing.targetDevice
  else do
    refuseIf (hasTable listing.targetDevice = true) .tableWithoutPartitions
    return listing

/-- The volumes that are registered for the disk, by its serial or by its table. -/
def registeredVolumes (volumes : List FleetVolume) (devices : List RawBlockDevice)
    (targetDevice : RawBlockDevice) : List FleetVolume :=
  let bySerial := volumes.filter fun v =>
    (truthy v.deviceSerial).isSome && truthy v.deviceSerial = truthy targetDevice.serial
  let keyOf (v : FleetVolume) : Option Text := do
    let uuid ← truthy v.partitionUuid
    let device ← devices.find? fun d => d.children.any fun c => c.uuid = some uuid
    getDeviceIdentityKey device
  let byTable := volumes.filter fun v =>
    (keyOf v).isSome && keyOf v = getDeviceIdentityKey targetDevice
  if bySerial = [] then byTable else bySerial

/-- The last volume with a serial, or with a table, is the one that is found. -/
def ensureDeviceNotRegistered (options : ProvisionOptions) (listing : Listing) :
    Provision (Option ℕ) := do
  let volumes ← call .getVolumeEntries
  let registered := registeredVolumes volumes listing.devices listing.targetDevice
  refuseIf (registered ≠ [] ∧ options.convertVolumeId = none) .alreadyRegistered
  return registered.getLast?.map FleetVolume.id

/-- Nobody is asked for the passphrase. If none is handed in the sealed one is used. -/
def knownPassphrase : Option Passphrase → Provision (Option Passphrase)
  | some p => return some p
  | none => call .sealedRecoveryPassphrase

def assertEncryptionIsPossible (passphrase : Option Passphrase) : Provision Passphrase := do
  let readable ← call .keyfileReadable
  refuseIf (readable = false) .noKeyfile
  let known ← knownPassphrase passphrase
  match truthy known with
  | none => do
    let recorded ← call .hasRecoveryPassphrase
    throw (if recorded then .passphraseUnusable else .noPassphrase)
  | some known => do
    call (.assertPassphraseOpensTheFleet known)
    call (.assertFleetRecoveryPassphrase known)
    return known

def passphraseIf (encrypt : Bool) (passphrase : Option Passphrase) :
    Provision (Option Passphrase) :=
  if encrypt then do
    let known ← assertEncryptionIsPossible passphrase
    return some known
  else return none

/-- What is checked of the disk as it is listed now, the passphrase last. The result is the id of
the volume that is replaced, and the passphrase. -/
def preflight (options : ProvisionOptions) (encrypt : Bool) (listing : Listing) :
    Provision (Option ℕ × Option Passphrase) := do
  refuseIf (listing.targetDevice.children ≠ []) .alreadyPartitioned
  refuseIf (truthy listing.targetDevice.serial = none) .noSerial
  let registered ← ensureDeviceNotRegistered options listing
  let passphrase ← passphraseIf encrypt options.recoveryPassphrase
  return (options.convertVolumeId.or registered, passphrase)

/-- A wipe has made the label. -/
def partitionDevice (options : ProvisionOptions) (diskSerial : Text) : Provision Unit :=
  if options.wipe = .flag true then
    fencedWrite options.blockPath diskSerial (.mkpart options.blockPath)
  else do
    fencedWrite options.blockPath diskSerial (.mklabel options.blockPath)
    fencedWrite options.blockPath diskSerial (.mkpart options.blockPath)

def firstPartition (devices : List RawBlockDevice) (blockPath : Text) :
    Option (RawBlockDevice × RawBlockDeviceChild) := do
  let device ← findDeviceByPath devices blockPath
  let partition ← device.children.head?
  return (device, partition)

/-- The first partition, as soon as there is one. -/
def waitForPartition (blockPath : Text) : ℕ → Provision (RawBlockDevice × RawBlockDeviceChild)
  | 0 => throw .partitionTimeout
  | attempts + 1 => do
    let devices ← call .listRawBlockDevices
    match firstPartition devices blockPath with
    | some found => return found
    | none => waitForPartition blockPath attempts

/-- The disk that a partition is on, by its name. -/
def parentPath (backing : Text) : Text :=
  match backing.reverse.dropWhile Char.isDigit with
  | 'p' :: rest =>
    if backing.getLast?.any Char.isDigit then "/dev/".toList ++ rest.reverse
    else "/dev/".toList ++ backing
  | rest => "/dev/".toList ++ rest.reverse

def tearDownAndThrow (volumeUuid : Text) : Provision Unit := do
  tryCatch (call (.close volumeUuid)) fun _ => return
  throw .otherMapper

/-- The mapper holds a disk and not a path. -/
def assertMapperBackedByExpectedDisk (volumeUuid diskSerial : Text) : Provision Unit := do
  let backing ← call (.mapperBackingDevice volumeUuid)
  match truthy backing with
  | none => tearDownAndThrow volumeUuid
  | some backing => do
    let backingSerial ← call (.currentDiskIdentity (parentPath backing))
    if backingSerial = some diskSerial then return else tearDownAndThrow volumeUuid

def encryptPartition (blockPath diskSerial partitionPath volumeUuid : Text)
    (passphrase : Passphrase) : Provision Text := do
  fencedWrite blockPath diskSerial (.luksFormat blockPath partitionPath)
  fencedWrite blockPath diskSerial (.addPassphrase blockPath partitionPath)
  assertStillTheSameDisk blockPath diskSerial
  call (.assertRecoverable partitionPath)
  assertStillTheSameDisk blockPath diskSerial
  let newHeaderOpens ← call (.testPassphrase partitionPath passphrase)
  assertStillTheSameDisk blockPath diskSerial
  refuseIf (newHeaderOpens = false) .notOpened
  call (.openContainer partitionPath volumeUuid)
  assertMapperBackedByExpectedDisk volumeUuid diskSerial
  return "/dev/mapper/strubs-".toList ++ volumeUuid

def filesystemTarget (blockPath diskSerial partitionPath volumeUuid : Text) :
    Option Passphrase → Provision Text
  | some passphrase => encryptPartition blockPath diskSerial partitionPath volumeUuid passphrase
  | none => return partitionPath

def partitionPath (partition : RawBlockDeviceChild) : Text := "/dev/".toList ++ partition.name

def build (blockPath diskSerial volumeUuid : Text) (passphrase : Option Passphrase) :
    Provision (RawBlockDevice × RawBlockDeviceChild) := do
  let found ← waitForPartition blockPath 20
  assertStillTheSameDisk blockPath diskSerial
  let target ← filesystemTarget blockPath diskSerial (partitionPath found.2) volumeUuid passphrase
  fencedWrite blockPath diskSerial (.mkfs blockPath target)
  let found ← waitForPartition blockPath 20
  assertStillTheSameDisk blockPath diskSerial
  return found

/-- The record of a volume that is converted is read before it goes. -/
def forget : Option ℕ → Provision Unit
  | none => return
  | some 0 => do
    let _ ← call .getVolumes
  | some id => do
    let _ ← call .getVolumes
    call (.deleteVolume id)
    call (.deregisterVolume id)

def createVolumeConfig (device : RawBlockDevice) (partition : RawBlockDeviceChild)
    (replaceVolumeId : Option ℕ) : Provision FleetVolume := do
  let existing ← call .getVolumes
  let serial ← orRefuse (truthy device.serial) .noDeviceSerial
  let uuid ← orRefuse (truthy partition.uuid) .noPartitionUuid
  return ⟨replaceVolumeId.getD (getNextVolumeId existing), some serial, some uuid⟩

/-- The digits at the end of a name. -/
def partitionNumberOf (partition : RawBlockDeviceChild) : Option ℕ :=
  match (partition.name.reverse.takeWhile Char.isDigit).reverse with
  | [] => none
  | digits => some (digits.foldl (fun n c => 10 * n + (c.toNat - '0'.toNat)) 0)

def stampNameplate (blockPath : Text) (partition : RawBlockDeviceChild) (volumeId : ℕ) :
    Provision Unit := do
  let identity ← call .instanceIdentity
  refuseIf (truthy identity = none) .noIdentity
  let number ← orRefuse (partitionNumberOf partition) .noPartitionNumber
  call (.run (.writeNameplate blockPath volumeId))
  let present ← call (.nameplateIsPresent blockPath number volumeId)
  refuseIf (present = false) .noNameplate

/-- An encrypted disk gets its nameplate. -/
def stampIf (encrypt : Bool) (blockPath diskSerial : Text) (partition : RawBlockDeviceChild)
    (volumeId : ℕ) : Provision Unit :=
  if encrypt then do
    assertStillTheSameDisk blockPath diskSerial
    stampNameplate blockPath partition volumeId
  else return

/-- The disk is claimed before there is a record. -/
def recordVolume (blockPath diskSerial : Text) (volume : FleetVolume) : Provision Unit := do
  fencedWrite blockPath diskSerial (.claimIdentity blockPath volume)
  tryCatch (call (.createVolume volume.id)) fun _ => do
    tryCatch (call (.deregisterVolume volume.id)) fun _ => return
    throw .notRecorded
  call (.updateVolumeFlags volume.id)
  call (.updateVolumeFlags volume.id)

/-- All that comes after the checks. -/
def carryOut (options : ProvisionOptions) (encrypt : Bool) (diskSerial volumeUuid : Text)
    (replacedVolumeId : Option ℕ) (passphrase : Option Passphrase) : Provision FleetVolume := do
  partitionDevice options diskSerial
  let found ← build options.blockPath diskSerial volumeUuid passphrase
  refuseIf (truthy found.2.uuid = none) .noPartitionUuid
  forget replacedVolumeId
  let volume ← createVolumeConfig found.1 found.2 replacedVolumeId
  stampIf encrypt options.blockPath diskSerial found.2 volume.id
  recordVolume options.blockPath diskSerial volume
  return volume

def doProvision (options : ProvisionOptions) (encrypt : Bool) (volumeUuid : Text) :
    Provision FleetVolume := do
  let vetted ← vet options
  let listing ← clear options vetted.1 vetted.2
  let checked ← preflight options encrypt listing
  carryOut options encrypt vetted.1 volumeUuid checked.1 checked.2

/-- The fleet decides where the request does not. -/
def shouldEncrypt : Option Bool → Provision Bool
  | some encrypt => return encrypt
  | none => call .getRuntimeConfig

/-- No passphrase is rotated while a disk is encrypted. -/
def withEncryptionSlot {α : Type} (encrypt : Bool) (task : Provision α) : Provision α :=
  if encrypt then do
    call .takeEncryptionSlot
    task
  else task

def provision (options : ProvisionOptions) (volumeUuid : Text) : Provision FleetVolume := do
  let encrypt ← shouldEncrypt options.encrypt
  withEncryptionSlot encrypt (doProvision options encrypt volumeUuid)

/-! ## The rules of a call -/

section Rules

variable {α : Type} {w : World} {I : World → Prop} {E : Refusal → Prop}

theorem refuseIf_spec {c : Prop} [Decidable c] {e : Refusal} (h : c → E e) :
    Triple exec I (refuseIf c e) (fun _ => ¬ c) E := by
  unfold refuseIf
  split
  case isTrue hc => exact Triple.thrown (h hc)
  case isFalse hc => exact Triple.returned hc

theorem orRefuse_spec {a : Option α} {e : Refusal} (h : a = none → E e) :
    Triple exec I (orRefuse a e) (fun b => a = some b) E := by
  cases a with
  | none => exact Triple.thrown (h rfl)
  | some b => exact Triple.returned rfl

theorem call_spec {c : Call} {Q : Answer c → Prop}
    (hkept : ∀ w, I w → ∀ env, I (act env w c).2)
    (hanswer : ∀ w, I w → ∀ env a, (act env w c).1 = .ok a → Q a)
    (herror : ∀ w, I w → ∀ env e, (act env w c).1 = .error e → E e)
    (hrejected : isSync c = false → E (rejection c)) : Triple exec I (call c) Q E := by
  refine Triple.performed fun w hw env => ?_
  unfold exec
  split
  case isTrue h =>
    simp only [Bool.and_eq_true, Bool.not_eq_true'] at h
    refine ⟨?_, hrejected h.2⟩
    split
    · exact hkept w hw env
    · exact hw
  case isFalse h =>
    have hI := hkept w hw env
    have hok := hanswer w hw env
    have herr := herror w hw env
    generalize act env w c = outcome at hI hok herr
    obtain ⟨e | a, w'⟩ := outcome
    · exact ⟨hI, herr e rfl⟩
    · exact ⟨hI, hok a rfl⟩

/-- A call that has an answer unless it is rejected. -/
theorem ask_spec {c : Call} {Q : Answer c → Prop} (hkept : ∀ w, I w → ∀ env, I (act env w c).2)
    (hanswer : ∀ w, I w → ∀ env, ∃ a, (act env w c).1 = .ok a ∧ Q a)
    (hrejected : isSync c = false → E (rejection c)) : Triple exec I (call c) Q E := by
  refine call_spec hkept (fun w hw env a h => ?_) (fun w hw env e h => ?_) hrejected
  · obtain ⟨a', ha, hQ⟩ := hanswer w hw env
    rw [ha] at h
    cases h
    exact hQ
  · obtain ⟨a', ha, -⟩ := hanswer w hw env
    rw [ha] at h
    cases h

end Rules

/-! ## The checks before the wipe -/

section Checks

variable {w : World} {options : ProvisionOptions} {E : Refusal → Prop}

/-- The refusals that no look at a disk beforehand could have come to. -/
def Unforeseen (e : Refusal) : Prop := ¬ Preventable e

theorem findDeviceByPath_filter (devices : List RawBlockDevice) (hidden : Text → Bool)
    (path : Text) {d : RawBlockDevice}
    (h : findDeviceByPath (devices.filter fun d => !hidden d.path) path = some d) :
    findDeviceByPath devices path = some d := by
  unfold findDeviceByPath at h ⊢
  induction devices with
  | nil => exact h
  | cons e rest ih =>
    by_cases hhidden : hidden e.path
    · rw [List.filter_cons_of_neg (by simp [hhidden])] at h
      have hfound := ih h
      rw [List.find?_cons_of_neg]
      · exact hfound
      · intro hpath
        -- a device that is listed under the path shows that the path is not hidden
        have hmem := List.mem_of_find?_eq_some h
        have hd := List.find?_some h
        simp only [decide_eq_true_eq] at hd hpath
        rw [List.mem_filter, hd, ← hpath, hhidden] at hmem
        simp at hmem
    · rw [List.filter_cons_of_pos (by simp [hhidden])] at h
      by_cases hpath : e.path = path
      · rw [List.find?_cons_of_pos (by simpa using hpath)] at h ⊢
        exact h
      · rw [List.find?_cons_of_neg (by simpa using hpath)] at h ⊢
        exact ih h

theorem assertStillTheSameDisk_spec {I : World → Prop} {blockPath diskSerial : Text}
    (haway : E .wentAway) (hswapped : E .swapped) (hrejected : E .unavailable) :
    Triple exec I (assertStillTheSameDisk blockPath diskSerial) (fun _ => True) E := by
  refine Triple.bind (P := fun _ => True) ?_ fun now _ => ?_
  · exact ask_spec (fun _ hw _ => hw) (fun _ _ env => ⟨env.smart, rfl, trivial⟩)
      fun _ => hrejected
  · refine Triple.bind (orRefuse_spec fun _ => haway) fun now _ => ?_
    exact (refuseIf_spec fun _ => hswapped).mono (fun _ _ => trivial) fun _ h => h

/-- What a disk has to be before anything is done to it. -/
structure Vetted (w : World) (options : ProvisionOptions) (t : RawBlockDevice) : Prop where
  wipe : options.wipe ≠ .other
  convert : options.convertVolumeId.isSome →
    options.wipe = .flag true ∧ options.encrypt = some true
  identity : w.identity ≠ none
  listed : findDeviceByPath w.devices options.blockPath = some t
  owner : assertDeviceIsNotOurs (sameIdentity w.identity) options.convertVolumeId (w.probe t) =
    .ok ()

theorem validateOptions_spec {I : World → Prop} :
    Triple exec I (validateOptions options) (fun _ => options.wipe ≠ .other ∧
      (options.convertVolumeId.isSome →
        options.wipe = .flag true ∧ options.encrypt = some true)) (fun _ => True) := by
  refine Triple.bind (refuseIf_spec fun _ => trivial) fun _ hwipe => ?_
  refine Triple.bind (refuseIf_spec fun _ => trivial) fun _ hconvert => ?_
  refine (refuseIf_spec fun _ => trivial).mono (fun _ hencrypt => ⟨hwipe, fun h => ?_⟩)
    fun _ h => h
  constructor
  · by_contra hne
    exact hconvert ⟨h, hne⟩
  · by_contra hne
    exact hencrypt ⟨h, hne⟩

theorem anchor_spec {I : World → Prop} :
    Triple exec I (anchor options) (fun _ => True) (fun _ => True) := by
  refine Triple.bind (P := fun _ => True) ?_ fun serial _ => ?_
  · exact ask_spec (fun _ hw _ => hw) (fun _ _ env => ⟨env.smart, rfl, trivial⟩) fun _ => trivial
  · refine Triple.bind (orRefuse_spec fun _ => trivial) fun diskSerial _ => ?_
    refine Triple.bind (refuseIf_spec fun _ => trivial) fun _ _ => ?_
    exact Triple.returned trivial

/-- A disk that is listed, with the others that are. -/
def Listed (w : World) (blockPath : Text) (listing : Listing) : Prop :=
  findDeviceByPath w.devices blockPath = some listing.targetDevice ∧
    ∀ d ∈ listing.devices, d ∈ w.devices

theorem listDisk_spec {blockPath : Text} {e : Refusal} (he : E e) (hrejected : E .unavailable) :
    Triple exec (· = w) (listDisk blockPath e) (Listed w blockPath) E := by
  refine Triple.bind (P := fun devices => ∃ hidden : Text → Bool,
    devices = w.devices.filter fun d => !hidden d.path) ?_ ?_
  · refine ask_spec (fun _ hw _ => hw) (fun w' hw env => ?_) fun _ => hrejected
    subst hw
    exact ⟨_, rfl, env.hidden, rfl⟩
  · rintro devices ⟨hidden, rfl⟩
    refine Triple.bind (orRefuse_spec fun _ => he) fun target htarget => ?_
    exact Triple.returned ⟨findDeviceByPath_filter _ _ _ htarget,
      fun d hd => (List.mem_filter.mp hd).1⟩

theorem checkOwner_spec {t : RawBlockDevice} :
    Triple exec (· = w) (checkOwner options t) (fun _ => assertDeviceIsNotOurs
      (sameIdentity w.identity) options.convertVolumeId (w.probe t) = .ok ()) (fun _ => True) := by
  refine Triple.bind (P := fun probe => probe = w.probe t) ?_ ?_
  · refine ask_spec (fun _ hw _ => hw) (fun w' hw env => ?_) fun _ => trivial
    subst hw
    exact ⟨_, rfl, rfl⟩
  · rintro probe rfl
    refine Triple.bind (P := fun identity => identity = w.identity) ?_ ?_
    · refine ask_spec (fun _ hw _ => hw) (fun w' hw env => ?_) fun _ => trivial
      subst hw
      exact ⟨_, rfl, rfl⟩
    · rintro identity rfl
      cases howner : assertDeviceIsNotOurs (sameIdentity w.identity) options.convertVolumeId
          (w.probe t) with
      | ok => exact Triple.returned rfl
      | error e => exact Triple.thrown trivial

theorem vet_spec :
    Triple exec (· = w) (vet options) (fun vetted => Vetted w options vetted.2.targetDevice ∧
      Listed w options.blockPath vetted.2) (fun _ => True) := by
  refine Triple.bind validateOptions_spec fun _ hoptions => ?_
  refine Triple.bind (P := fun identity => identity = w.identity) ?_ ?_
  · refine ask_spec (fun _ hw _ => hw) (fun w' hw env => ?_) fun _ => trivial
    subst hw
    exact ⟨_, rfl, rfl⟩
  rintro identity rfl
  refine Triple.bind (refuseIf_spec fun _ => trivial) fun _ hidentity => ?_
  refine Triple.bind anchor_spec fun diskSerial _ => ?_
  refine Triple.bind (listDisk_spec trivial trivial) fun listing hlisting => ?_
  refine Triple.bind (assertStillTheSameDisk_spec trivial trivial trivial) fun _ _ => ?_
  refine Triple.bind checkOwner_spec fun _ howner => ?_
  refine Triple.bind (assertStillTheSameDisk_spec trivial trivial trivial) fun _ _ => ?_
  exact Triple.returned ⟨⟨hoptions.1, hoptions.2, hidentity, hlisting.1, howner⟩, hlisting⟩

/-! ## The checks on the disk as it is listed last -/

def EncryptionPossible (w : World) (passphrase : Option Passphrase) : Prop :=
  w.keyfileReadable = true ∧ ∃ known, truthy (passphrase.or w.sealedPassphrase) = some known ∧
    w.opensTheFleet known = true ∧ w.matchesVerifier known = true

/-- What the checks after a wipe ask for. -/
structure Ready (w : World) (options : ProvisionOptions) (encrypt : Bool) (t : RawBlockDevice) :
    Prop where
  serial : truthy t.serial ≠ none
  unregistered : options.convertVolumeId = none →
    ∀ v ∈ w.volumes, truthy v.deviceSerial ≠ truthy t.serial
  possible : encrypt = true → EncryptionPossible w options.recoveryPassphrase

theorem knownPassphrase_spec {passphrase : Option Passphrase} (hrejected : E .unavailable) :
    Triple exec (· = w) (knownPassphrase passphrase)
      (fun known => known = passphrase.or w.sealedPassphrase) E := by
  cases passphrase with
  | some p => exact Triple.returned rfl
  | none =>
    refine ask_spec (fun _ hw _ => hw) (fun w' hw env => ?_) fun _ => hrejected
    subst hw
    exact ⟨_, rfl, rfl⟩

theorem assertEncryptionIsPossible_spec {passphrase : Option Passphrase}
    (hrejected : E .unavailable) (himpossible : ¬ EncryptionPossible w passphrase → ∀ e, E e) :
    Triple exec (· = w) (assertEncryptionIsPossible passphrase) (fun _ => True) E := by
  refine Triple.bind (P := fun readable => readable = w.keyfileReadable) ?_ ?_
  · refine ask_spec (fun _ hw _ => hw) (fun w' hw env => ?_) fun _ => hrejected
    subst hw
    exact ⟨_, rfl, rfl⟩
  rintro readable rfl
  refine Triple.bind (refuseIf_spec fun h => himpossible (fun hp => ?_) _) fun _ _ => ?_
  · rw [hp.1] at h
    cases h
  refine Triple.bind (knownPassphrase_spec hrejected) ?_
  rintro known rfl
  cases hknown : truthy (passphrase.or w.sealedPassphrase) with
  | none =>
    have hno : ¬ EncryptionPossible w passphrase := by
      rintro ⟨-, p, hp, -⟩
      rw [hknown] at hp
      cases hp
    refine Triple.bind (P := fun _ => True) ?_ fun _ _ => Triple.thrown (himpossible hno _)
    exact ask_spec (fun _ hw _ => hw) (fun w' _ _ => ⟨w'.hasVerifier, rfl, trivial⟩)
      fun _ => hrejected
  | some p =>
    have hp : EncryptionPossible w passphrase →
        w.opensTheFleet p = true ∧ w.matchesVerifier p = true := by
      rintro ⟨-, q, hq, hboth⟩
      rw [hknown, Option.some_inj] at hq
      rw [hq]
      exact hboth
    refine Triple.bind (P := fun _ => True) ?_ fun _ _ => ?_
    · refine call_spec (fun _ hw _ => hw) (fun _ _ _ _ _ => trivial) (fun w' hw env e h => ?_)
        fun _ => hrejected
      subst hw
      exact himpossible (fun h' => by simp [act, (hp h').1] at h) e
    refine Triple.bind (P := fun _ => True) ?_ fun _ _ => Triple.returned trivial
    refine call_spec (fun _ hw _ => hw) (fun _ _ _ _ _ => trivial) (fun w' hw env e h => ?_)
      fun _ => hrejected
    subst hw
    exact himpossible (fun h' => by simp [act, (hp h').2] at h) e

/-- The checks leave everything as it is. Each refuses for its own reason. -/
theorem preflight_spec {encrypt : Bool} {listing : Listing} (hrejected : E .unavailable)
    (hpartitioned : E .alreadyPartitioned)
    (hserial : truthy listing.targetDevice.serial = none → E .noSerial)
    (hregistered : listing.targetDevice.children = [] → options.convertVolumeId = none →
      registeredVolumes w.volumes listing.devices listing.targetDevice ≠ [] →
      E .alreadyRegistered)
    (himpossible : encrypt = true → ¬ EncryptionPossible w options.recoveryPassphrase →
      ∀ e, E e) :
    Triple exec (· = w) (preflight options encrypt listing)
      (fun _ => truthy listing.targetDevice.serial ≠ none) E := by
  refine Triple.bind (refuseIf_spec fun _ => hpartitioned) fun _ hchildren => ?_
  refine Triple.bind (refuseIf_spec hserial) fun _ hpresent => ?_
  refine Triple.bind (P := fun _ => True) ?_ fun registered _ => ?_
  · refine Triple.bind (P := fun volumes => volumes = w.volumes) ?_ ?_
    · refine ask_spec (fun _ hw _ => hw) (fun w' hw env => ?_) fun h => absurd h (by decide)
      subst hw
      exact ⟨_, rfl, rfl⟩
    · rintro volumes rfl
      refine Triple.bind (refuseIf_spec fun h => ?_) fun _ _ => Triple.returned trivial
      exact hregistered (not_not.mp hchildren) h.2 h.1
  refine Triple.bind (P := fun _ => True) ?_ fun _ _ => Triple.returned hpresent
  unfold passphraseIf
  split
  case isTrue h =>
    exact Triple.bind (assertEncryptionIsPossible_spec hrejected (himpossible h)) fun _ _ =>
      Triple.returned trivial
  case isFalse => exact Triple.returned trivial

end Checks

/-! ## The wipe -/

section Wipe

variable {w : World} {options : ProvisionOptions} {blockPath diskSerial : Text}
  {created : List RawBlockDeviceChild} {d t : RawBlockDevice}

/-- A disk with a new table. -/
def relabel (devices : List RawBlockDevice) (created : List RawBlockDeviceChild)
    (d : RawBlockDevice) : RawBlockDevice :=
  { d with
    pttype := some "gpt".toList
    ptuuid := some (freshGuid devices)
    children := created }

def wiped (w : World) (blockPath : Text) (created : List RawBlockDeviceChild) : World :=
  { w.setDevice blockPath (relabel w.devices created) with log := w.log ++ [.mklabel blockPath] }

theorem key_length {devices : List RawBlockDevice} (hd : d ∈ devices) {key : Text}
    (hkey : getDeviceIdentityKey d = some key) : key.length < (freshGuid devices).length := by
  have hsub : key.Sublist (devices.map fun d => (getDeviceIdentityKey d).getD []).flatten :=
    List.sublist_flatten_of_mem (List.mem_map.mpr ⟨d, hd, by rw [hkey, Option.getD_some]⟩)
  rw [freshGuid, List.length_cons]
  exact Nat.lt_succ_of_le hsub.length_le

theorem key_relabel {key : Text}
    (hkey : getDeviceIdentityKey (relabel w.devices created d) = some key) :
    (freshGuid w.devices).length ≤ key.length := by
  have hguid : truthy (some (freshGuid w.devices)) = some (freshGuid w.devices) := by
    simp [truthy, freshGuid, Option.filter_some]
  have htype : truthy (some "gpt".toList) = some "gpt".toList := by decide
  simp only [getDeviceIdentityKey, relabel, hguid, htype] at hkey
  cases hserial : truthy d.serial with
  | none => simp [hserial] at hkey
  | some serial =>
    rw [hserial] at hkey
    simp only [Option.some_inj] at hkey
    rw [← hkey]
    simp only [List.length_append, List.length_cons]
    omega

theorem findDeviceByPath_wiped
    (hd : findDeviceByPath (wiped w blockPath created).devices blockPath = some d) :
    ∃ t, findDeviceByPath w.devices blockPath = some t ∧ d = relabel w.devices created t := by
  simp only [wiped, World.setDevice, findDeviceByPath, List.find?_map] at hd
  rw [Option.map_eq_some_iff] at hd
  obtain ⟨t, ht, heq⟩ := hd
  have hcomp : ((fun d : RawBlockDevice => decide (d.path = blockPath)) ∘ fun d =>
      if d.path = blockPath then relabel w.devices created d else d) =
      fun d => decide (d.path = blockPath) := by
    funext d
    simp only [Function.comp_apply]
    split
    · next h => simp [relabel, h]
    · rfl
  rw [hcomp] at ht
  have hpath := List.find?_some ht
  simp only [decide_eq_true_eq] at hpath
  rw [if_pos hpath] at heq
  exact ⟨t, ht, heq.symm⟩

/-- A blank disk with a new table is registered only by its serial. -/
theorem registeredVolumes_wiped {devices : List RawBlockDevice}
    (hdevices : ∀ d ∈ devices, d ∈ (wiped w blockPath []).devices)
    (hserial : ∀ v ∈ w.volumes, truthy v.deviceSerial ≠ truthy t.serial) :
    registeredVolumes w.volumes devices (relabel w.devices [] t) = [] := by
  have hbySerial : (w.volumes.filter fun v => (truthy v.deviceSerial).isSome &&
      truthy v.deviceSerial = truthy (relabel w.devices [] t).serial) = [] := by
    rw [List.filter_eq_nil_iff]
    intro v hv h
    simp only [Bool.and_eq_true, decide_eq_true_eq] at h
    exact hserial v hv h.2
  simp only [registeredVolumes, hbySerial, ite_true, List.filter_eq_nil_iff]
  intro v hv h
  simp only [Bool.and_eq_true, decide_eq_true_eq] at h
  obtain ⟨hsome, hkey⟩ := h
  rw [hkey, Option.isSome_iff_exists] at hsome
  obtain ⟨key, hfresh⟩ := hsome
  rw [hfresh] at hkey
  -- the device that the volume is on is not one that was wiped
  cases huuid : truthy v.partitionUuid with
  | none => simp [huuid] at hkey
  | some uuid =>
    rw [huuid, Option.bind_eq_bind, Option.bind_some, Option.bind_eq_bind,
      Option.bind_eq_some_iff] at hkey
    obtain ⟨d, hd, hdkey⟩ := hkey
    have hmem := hdevices d (List.mem_of_find?_eq_some hd)
    have hchild := List.find?_some hd
    simp only [wiped, World.setDevice, List.mem_map] at hmem
    obtain ⟨e, he, rfl⟩ := hmem
    split at hchild
    · simp [relabel] at hchild
    · next hother =>
      rw [if_neg hother] at hdkey
      have hshort := key_length he hdkey
      have hlong := key_relabel hfresh
      omega

theorem mklabel_spec : Always exec (call (.run (.mklabel blockPath))) (fun result w' =>
    match result with
    | .ok _ => ∃ created, w' = wiped w blockPath created
    | .error e => Unforeseen e) w := by
  refine Always.perform fun env => ?_
  cases hrejected : env.rejected with
  | true =>
    simp only [exec, hrejected, isSync, Bool.not_false, Bool.and_self, ite_true]
    exact fun h => h
  | false =>
    simp only [exec, hrejected, Bool.false_and, Bool.false_eq_true, ite_false]
    exact ⟨env.created, rfl⟩

theorem wipeDevice_spec : Always exec (wipeDevice blockPath diskSerial t) (fun result w' =>
    match result with
    | .ok listing => anyMounted t.children = false ∧ ∃ created, w' = wiped w blockPath created ∧
        Listed w' blockPath listing
    | .error e => w'.log = w.log ∨ Unforeseen e) w := by
  have hsame : Triple exec (· = w) (refuseIf (anyMounted t.children = true) .mounted)
      (fun _ => ¬ anyMounted t.children = true) (fun _ => True) := refuseIf_spec fun _ => trivial
  refine Always.bind ((hsame w rfl).mono fun result v h => ?_)
  cases result with
  | error e => exact .inl (by rw [h.1])
  | ok _ =>
    obtain ⟨rfl, hunmounted⟩ := h
    rw [Bool.not_eq_true] at hunmounted
    have hfence : Triple exec (· = v) (assertStillTheSameDisk blockPath diskSerial)
        (fun _ => True) (fun _ => True) := assertStillTheSameDisk_spec trivial trivial trivial
    refine Always.bind (Always.bind ((hfence v rfl).mono fun result v' h => ?_))
    cases result with
    | error e => exact .inl (by rw [h.1])
    | ok _ =>
      obtain ⟨rfl, -⟩ := h
      refine mklabel_spec.mono fun result v h => ?_
      cases result with
      | error e => exact .inr h
      | ok _ =>
        obtain ⟨created, rfl⟩ := h
        have hlist : Triple exec (· = wiped v' blockPath created)
            (listDisk blockPath .notFoundAfterWipe)
            (Listed (wiped v' blockPath created) blockPath) Unforeseen :=
          listDisk_spec (fun h => h) fun h => h
        refine (hlist _ rfl).mono fun result v h => ?_
        cases result with
        | error e => exact .inr h.2
        | ok listing =>
          obtain ⟨rfl, hlisting⟩ := h
          exact ⟨hunmounted, created, rfl, hlisting⟩

end Wipe

/-! ## After the checks -/

section CarryOut

variable {blockPath diskSerial volumeUuid : Text} {w : World}

/-- A disk that is listed under the path has a serial. -/
def HasSerial (blockPath : Text) (w : World) : Prop :=
  ∀ d, findDeviceByPath w.devices blockPath = some d → truthy d.serial ≠ none

theorem hasSerial_setDevice {path : Text} {f : RawBlockDevice → RawBlockDevice}
    (hpath : ∀ d, (f d).path = d.path) (hserial : ∀ d, (f d).serial = d.serial)
    (hw : HasSerial blockPath w) : HasSerial blockPath (w.setDevice path f) := by
  intro d hd
  simp only [World.setDevice, findDeviceByPath, List.find?_map, Option.map_eq_some_iff] at hd
  obtain ⟨t, ht, rfl⟩ := hd
  have hcomp : ((fun d : RawBlockDevice => decide (d.path = blockPath)) ∘ fun d =>
      if d.path = path then f d else d) = fun d => decide (d.path = blockPath) := by
    funext d
    simp only [Function.comp_apply]
    split
    · rw [hpath]
    · rfl
  rw [hcomp] at ht
  have hsome := hw t ht
  split
  · rw [hserial]
    exact hsome
  · exact hsome

theorem act_hasSerial (env : Env) (c : Call) (hw : HasSerial blockPath w) :
    HasSerial blockPath (act env w c).2 := by
  cases c with
  | run command =>
    cases command with
    | claimIdentity => exact hw
    | addPassphrase => exact hw
    | writeNameplate => exact hw
    | _ => exact hasSerial_setDevice (fun _ => rfl) (fun _ => rfl) hw
  | _ => exact hw

/-- All calls but those that ask for the passphrase. -/
theorem work_spec {c : Call} (hwork : ∀ w env e, (act env w c).1 = .error e → Unforeseen e) :
    Triple exec (HasSerial blockPath) (call c) (fun _ => True) Unforeseen := by
  refine call_spec (fun w hw env => act_hasSerial env c hw) (fun _ _ _ _ _ => trivial)
    (fun w _ env e h => hwork w env e h) fun _ => ?_
  cases c <;> exact fun h => h

theorem run_spec (command : Command) :
    Triple exec (HasSerial blockPath) (call (.run command)) (fun _ => True) Unforeseen :=
  work_spec fun _ _ _ h => by cases h

theorem fence_spec {path : Text} : Triple exec (HasSerial blockPath)
    (assertStillTheSameDisk path diskSerial) (fun _ => True) Unforeseen :=
  assertStillTheSameDisk_spec (fun h => h) (fun h => h) fun h => h

theorem fencedWrite_spec (command : Command) : Triple exec (HasSerial blockPath)
    (fencedWrite blockPath diskSerial command) (fun _ => True) Unforeseen :=
  Triple.bind fence_spec fun _ _ => run_spec command

theorem partitionDevice_spec {options : ProvisionOptions} :
    Triple exec (HasSerial options.blockPath) (partitionDevice options diskSerial)
      (fun _ => True) Unforeseen := by
  unfold partitionDevice
  split
  · exact fencedWrite_spec _
  · exact Triple.bind (fencedWrite_spec _) fun _ _ => fencedWrite_spec _

theorem waitForPartition_spec (attempts : ℕ) :
    Triple exec (HasSerial blockPath) (waitForPartition blockPath attempts)
      (fun found => truthy found.1.serial ≠ none) Unforeseen := by
  induction attempts with
  | zero => exact Triple.thrown fun h => h
  | succ attempts ih =>
    refine Triple.bind (P := fun devices => ∀ d, findDeviceByPath devices blockPath = some d →
      truthy d.serial ≠ none) ?_ fun devices hdevices => ?_
    · refine ask_spec (fun _ hw _ => hw) (fun w hw env => ⟨_, rfl, fun d hd => ?_⟩) fun _ h => h
      exact hw d (findDeviceByPath_filter _ _ _ hd)
    · cases hfound : firstPartition devices blockPath with
      | none => exact ih
      | some found =>
        refine Triple.returned ?_
        simp only [firstPartition, Option.bind_eq_bind, Option.bind_eq_some_iff] at hfound
        obtain ⟨d, hd, p, hp, hpair⟩ := hfound
        cases hpair
        exact hdevices d hd

theorem tearDownAndThrow_spec : Triple exec (HasSerial blockPath) (tearDownAndThrow volumeUuid)
    (fun _ => True) Unforeseen := by
  refine Triple.bind (P := fun _ => True) ?_ fun _ _ => Triple.thrown fun h => h
  exact Triple.caught (work_spec fun _ _ _ h => by cases h) fun _ _ => Triple.returned trivial

theorem encryptPartition_spec {partition : Text} {passphrase : Passphrase} :
    Triple exec (HasSerial blockPath)
      (encryptPartition blockPath diskSerial partition volumeUuid passphrase)
      (fun _ => True) Unforeseen := by
  refine Triple.bind (fencedWrite_spec _) fun _ _ => ?_
  refine Triple.bind (fencedWrite_spec _) fun _ _ => ?_
  refine Triple.bind fence_spec fun _ _ => ?_
  refine Triple.bind (work_spec fun w env e h => ?_) fun _ _ => ?_
  · simp only [act] at h
    split at h
    · cases h
    · cases h
      exact fun h => h
  refine Triple.bind fence_spec fun _ _ => ?_
  refine Triple.bind (work_spec fun _ _ _ h => by cases h) fun newHeaderOpens _ => ?_
  refine Triple.bind fence_spec fun _ _ => ?_
  refine Triple.bind (refuseIf_spec fun _ h => h) fun _ _ => ?_
  refine Triple.bind (work_spec fun _ _ _ h => by cases h) fun _ _ => ?_
  refine Triple.bind (P := fun _ => True) ?_ fun _ _ => Triple.returned trivial
  refine Triple.bind (work_spec fun _ _ _ h => by cases h) fun backing _ => ?_
  cases truthy backing with
  | none => exact tearDownAndThrow_spec
  | some backing =>
    refine Triple.bind (work_spec fun _ _ _ h => by cases h) fun backingSerial _ => ?_
    split
    · exact Triple.returned trivial
    · exact tearDownAndThrow_spec

theorem build_spec {passphrase : Option Passphrase} : Triple exec (HasSerial blockPath)
    (build blockPath diskSerial volumeUuid passphrase)
    (fun found => truthy found.1.serial ≠ none) Unforeseen := by
  refine Triple.bind (waitForPartition_spec 20) fun found _ => ?_
  refine Triple.bind fence_spec fun _ _ => ?_
  refine Triple.bind (P := fun _ => True) ?_ fun target _ => ?_
  · cases passphrase with
    | none => exact Triple.returned trivial
    | some passphrase => exact encryptPartition_spec
  refine Triple.bind (fencedWrite_spec _) fun _ _ => ?_
  refine Triple.bind (waitForPartition_spec 20) fun found hfound => ?_
  exact Triple.bind fence_spec fun _ _ => Triple.returned hfound

theorem forget_spec {replacedVolumeId : Option ℕ} : Triple exec (HasSerial blockPath)
    (forget replacedVolumeId) (fun _ => True) Unforeseen := by
  unfold forget
  split
  · exact Triple.returned trivial
  · exact Triple.bind (work_spec fun _ _ _ h => by cases h) fun _ _ => Triple.returned trivial
  · refine Triple.bind (work_spec fun _ _ _ h => by cases h) fun _ _ => ?_
    refine Triple.bind (work_spec fun _ _ _ h => by cases h) fun _ _ => ?_
    exact work_spec fun _ _ _ h => by cases h

/-- A disk whose serial was checked still has one when the record of its volume is made. -/
theorem createVolumeConfig_spec {device : RawBlockDevice} {partition : RawBlockDeviceChild}
    {replacedVolumeId : Option ℕ} (hserial : truthy device.serial ≠ none) :
    Triple exec (HasSerial blockPath) (createVolumeConfig device partition replacedVolumeId)
      (fun _ => True) Unforeseen := by
  refine Triple.bind (work_spec fun _ _ _ h => by cases h) fun existing _ => ?_
  refine Triple.bind (orRefuse_spec fun h => absurd h hserial) fun serial _ => ?_
  refine Triple.bind (orRefuse_spec fun _ h => h) fun uuid _ => ?_
  exact Triple.returned trivial

theorem stampIf_spec {encrypt : Bool} {partition : RawBlockDeviceChild} {volumeId : ℕ} :
    Triple exec (HasSerial blockPath)
      (stampIf encrypt blockPath diskSerial partition volumeId) (fun _ => True) Unforeseen := by
  unfold stampIf
  split
  case isFalse => exact Triple.returned trivial
  case isTrue =>
    refine Triple.bind fence_spec fun _ _ => ?_
    refine Triple.bind (work_spec fun _ _ _ h => by cases h) fun identity _ => ?_
    refine Triple.bind (refuseIf_spec fun _ h => h) fun _ _ => ?_
    refine Triple.bind (orRefuse_spec fun _ h => h) fun number _ => ?_
    refine Triple.bind (run_spec _) fun _ _ => ?_
    refine Triple.bind (work_spec fun _ _ _ h => by cases h) fun landed _ => ?_
    exact (refuseIf_spec fun _ h => h).mono (fun _ _ => trivial) fun _ h => h

theorem recordVolume_spec {volume : FleetVolume} : Triple exec (HasSerial blockPath)
    (recordVolume blockPath diskSerial volume) (fun _ => True) Unforeseen := by
  refine Triple.bind (fencedWrite_spec _) fun _ _ => ?_
  refine Triple.bind (P := fun _ => True) ?_ fun _ _ => ?_
  · refine Triple.caught (work_spec fun _ _ _ h => by cases h) fun _ _ => ?_
    refine Triple.bind (P := fun _ => True) ?_ fun _ _ => Triple.thrown fun h => h
    exact Triple.caught (work_spec fun _ _ _ h => by cases h) fun _ _ => Triple.returned trivial
  refine Triple.bind (work_spec fun _ _ _ h => by cases h) fun _ _ => ?_
  exact work_spec fun _ _ _ h => by cases h

/-- Once the checks are passed, nothing is refused for a reason that was there before. -/
theorem carryOut_spec {options : ProvisionOptions} {encrypt : Bool} {replacedVolumeId : Option ℕ}
    {passphrase : Option Passphrase} : Triple exec (HasSerial options.blockPath)
    (carryOut options encrypt diskSerial volumeUuid replacedVolumeId passphrase)
    (fun _ => True) Unforeseen := by
  refine Triple.bind partitionDevice_spec fun _ _ => ?_
  refine Triple.bind build_spec fun found hfound => ?_
  refine Triple.bind (refuseIf_spec fun _ h => h) fun _ _ => ?_
  refine Triple.bind forget_spec fun _ _ => ?_
  refine Triple.bind (createVolumeConfig_spec hfound) fun volume _ => ?_
  refine Triple.bind stampIf_spec fun _ _ => ?_
  exact Triple.bind recordVolume_spec fun _ _ => Triple.returned trivial

end CarryOut

/-! ## What a refusal leaves behind -/

section Refusals

variable {w : World} {options : ProvisionOptions} {encrypt : Bool} {diskSerial volumeUuid : Text}

def encrypts (w : World) (options : ProvisionOptions) : Bool :=
  options.encrypt.getD w.encryptNewVolumes

/-- A refusal that could have come before anything was done has come before. -/
def Untouched {α : Type} (w : World) : Except Refusal α → World → Prop
  | .ok _, _ => True
  | .error e, w' => Preventable e → w'.log = w.log

/-- If a wipe would be started, then the checks that come after it are known to pass. -/
def Prepared (w : World) (options : ProvisionOptions) : Prop :=
  options.wipe = .flag true → (encrypts w options = true → w.rotating = false) →
    ∀ t, Vetted w options t → anyMounted t.children = false →
      Ready w options (encrypts w options) t

theorem untouched_of_eq {α : Type} {e : Refusal} {v : World} (h : v = w) :
    Untouched w (.error e : Except Refusal α) v := by
  intro _
  rw [h]

theorem carryOut_untouched {replacedVolumeId : Option ℕ} {passphrase : Option Passphrase}
    {v : World} (hv : HasSerial options.blockPath v) :
    Always exec (carryOut options encrypt diskSerial volumeUuid replacedVolumeId passphrase)
      (Untouched w) v := by
  refine (carryOut_spec v hv).mono fun result v' h => ?_
  cases result with
  | ok a => trivial
  | error e => exact fun he => absurd he h.2

/-- With no wipe, nothing is done before the last check. -/
theorem unwiped_untouched {listing : Listing} (hwipe : options.wipe ≠ .flag true)
    (hlisted : Listed w options.blockPath listing) :
    Always exec (clear options diskSerial listing >>= fun listing => do
      let checked ← preflight options encrypt listing
      carryOut options encrypt diskSerial volumeUuid checked.1 checked.2) (Untouched w) w := by
  have hclear : Triple exec (· = w) (clear options diskSerial listing)
      (fun listing' => listing' = listing) (fun _ => True) := by
    rw [clear, if_neg hwipe]
    exact Triple.bind (refuseIf_spec fun _ => trivial) fun _ _ => Triple.returned rfl
  refine Always.bind ((hclear w rfl).mono fun result v h => ?_)
  cases result with
  | error e => exact untouched_of_eq h.1
  | ok listing' =>
    obtain ⟨rfl, rfl⟩ := h
    have hchecks : Triple exec (· = v) (preflight options encrypt listing')
        (fun _ => truthy listing'.targetDevice.serial ≠ none) (fun _ => True) :=
      preflight_spec trivial trivial (fun _ => trivial) (fun _ _ _ => trivial)
        fun _ _ _ => trivial
    refine Always.bind ((hchecks v rfl).mono fun result v' h => ?_)
    cases result with
    | error e => exact untouched_of_eq h.1
    | ok checked =>
      obtain ⟨rfl, hserial⟩ := h
      refine carryOut_untouched fun d hd => ?_
      rw [hlisted.1, Option.some_inj] at hd
      rw [← hd]
      exact hserial

theorem ready_wiped {listing : Listing} {t : RawBlockDevice} {created : List RawBlockDeviceChild}
    (ht : findDeviceByPath w.devices options.blockPath = some t)
    (hready : Ready w options encrypt t)
    (hlisted : Listed (wiped w options.blockPath created) options.blockPath listing) :
    Triple exec (· = wiped w options.blockPath created) (preflight options encrypt listing)
      (fun _ => truthy listing.targetDevice.serial ≠ none) Unforeseen := by
  obtain ⟨t', ht', htarget⟩ := findDeviceByPath_wiped hlisted.1
  obtain rfl : t = t' := Option.some_inj.mp (ht.symm.trans ht')
  refine preflight_spec (fun h => h) (fun h => h) (fun h => ?_) ?_ ?_
  · rw [htarget] at h
    exact absurd h hready.serial
  · intro hchildren hconvert hregistered
    rw [htarget] at hchildren hregistered
    have hblank : created = [] := hchildren
    subst hblank
    exact absurd (registeredVolumes_wiped hlisted.2 (hready.unregistered hconvert)) hregistered
  · intro hencrypt himpossible
    exact absurd (hready.possible hencrypt) himpossible

theorem wiped_untouched {listing : Listing} (hwipe : options.wipe = .flag true)
    (ht : findDeviceByPath w.devices options.blockPath = some listing.targetDevice)
    (hready : anyMounted listing.targetDevice.children = false →
      Ready w options encrypt listing.targetDevice) :
    Always exec (clear options diskSerial listing >>= fun listing => do
      let checked ← preflight options encrypt listing
      carryOut options encrypt diskSerial volumeUuid checked.1 checked.2) (Untouched w) w := by
  rw [clear, if_pos hwipe]
  refine Always.bind (wipeDevice_spec.mono fun result v h => ?_)
  cases result with
  | error e => exact fun he => h.resolve_right fun hunforeseen => hunforeseen he
  | ok listing' =>
    obtain ⟨hunmounted, created, rfl, hlisted⟩ := h
    have hready' := hready hunmounted
    refine Always.bind ((ready_wiped ht hready' hlisted _ rfl).mono fun result v h => ?_)
    cases result with
    | error e => exact fun he => absurd he h.2
    | ok checked =>
      obtain ⟨rfl, -⟩ := h
      refine carryOut_untouched fun d hd => ?_
      obtain ⟨t', ht', rfl⟩ := findDeviceByPath_wiped hd
      rw [ht, Option.some_inj] at ht'
      rw [← ht']
      exact hready'.serial

theorem shouldEncrypt_spec : Triple exec (· = w) (shouldEncrypt options.encrypt)
    (fun encrypt => encrypt = encrypts w options) (fun _ => True) := by
  unfold encrypts
  cases options.encrypt with
  | some encrypt => exact Triple.returned rfl
  | none =>
    refine ask_spec (fun _ hw _ => hw) (fun v hv env => ?_) fun _ => trivial
    subst hv
    exact ⟨_, rfl, rfl⟩

theorem doProvision_untouched (hready : options.wipe = .flag true → ∀ t, Vetted w options t →
      anyMounted t.children = false → Ready w options encrypt t) :
    Always exec (doProvision options encrypt volumeUuid) (Untouched w) w := by
  refine Always.bind ((vet_spec w rfl).mono fun result v h => ?_)
  cases result with
  | error e => exact untouched_of_eq h.1
  | ok vetted =>
    obtain ⟨rfl, hvetted, hlisted⟩ := h
    by_cases hwipe : options.wipe = .flag true
    · exact wiped_untouched hwipe hlisted.1 (hready hwipe _ hvetted)
    · exact unwiped_untouched hwipe hlisted

theorem untouched_of_prepared (h : Prepared w options) :
    Always exec (provision options volumeUuid) (Untouched w) w := by
  refine Always.bind ((shouldEncrypt_spec w rfl).mono fun result v hresult => ?_)
  cases result with
  | error e => exact untouched_of_eq hresult.1
  | ok encrypt =>
    obtain ⟨rfl, rfl⟩ := hresult
    by_cases hencrypt : encrypts v options = true
    · simp only [withEncryptionSlot, hencrypt, ite_true]
      have hslot : Triple exec (· = v) (call .takeEncryptionSlot)
          (fun _ => v.rotating = false) (fun _ => True) := by
        refine call_spec (fun _ hw _ => hw) (fun w' hw env a ha => ?_)
          (fun _ _ _ _ _ => trivial) fun _ => trivial
        subst hw
        simp only [act] at ha
        split at ha
        · cases ha
        · next hfree => simpa using hfree
      refine Always.bind ((hslot v rfl).mono fun result v' hresult => ?_)
      cases result with
      | error e => exact untouched_of_eq hresult.1
      | ok _ =>
        obtain ⟨rfl, hfree⟩ := hresult
        refine doProvision_untouched fun hwipe => ?_
        have hready := h hwipe fun _ => hfree
        rw [hencrypt] at hready
        exact hready
    · simp only [withEncryptionSlot, hencrypt, Bool.false_eq_true, ite_false]
      have hplain : encrypts v options = false := by simpa using hencrypt
      rw [← hplain]
      exact doProvision_untouched fun hwipe => h hwipe fun h' => absurd h' hencrypt

end Refusals

/-! ## A wipe that is not followed through -/

section Wasted

variable {w : World} {options : ProvisionOptions} {encrypt : Bool} {t : RawBlockDevice}
  {α : Type} {env : Env}

/-- Every call succeeds, and the drive is the one that was scanned. -/
def calm (options : ProvisionOptions) : Env where
  rejected := false
  landed := false
  smart := some ((truthy options.expectDiskSerial).getD "S".toList)
  hidden := fun _ => false
  created := []
  holds := true
  backing := none

def calmSerial (options : ProvisionOptions) : Text :=
  (truthy options.expectDiskSerial).getD "S".toList

theorem truthy_calm (options : ProvisionOptions) :
    truthy (calm options).smart = some (calmSerial options) := by
  show truthy (some (calmSerial options)) = _
  unfold calmSerial
  cases hexpected : truthy options.expectDiskSerial with
  | none => decide
  | some serial =>
    have hne := (Option.filter_eq_some_iff.mp hexpected).2
    simpa [truthy, Option.filter_some] using hne

theorem calls {c : Call} : Runs exec (calm options) (call c) w (act (calm options) w c).1
    (act (calm options) w c).2 :=
  Runs.performed rfl

theorem passes {c : Prop} [Decidable c] {e : Refusal} (h : ¬c) :
    Runs exec env (refuseIf c e) w (.ok ()) w := by
  rw [refuseIf, if_neg h]
  exact Runs.returned

theorem refuses {c : Prop} [Decidable c] {e : Refusal} (h : c) :
    Runs exec env (refuseIf c e) w (.error e) w := by
  rw [refuseIf, if_pos h]
  exact Runs.thrown

theorem has {o : Option α} {a : α} {e : Refusal} (h : o = some a) :
    Runs exec env (orRefuse o e) w (.ok a) w := by
  rw [h]
  exact Runs.returned

theorem same_disk {blockPath : Text} : Runs exec (calm options)
    (assertStillTheSameDisk blockPath (calmSerial options)) w (.ok ()) w :=
  Runs.bind calls (Runs.bind (has (truthy_calm options)) (passes fun h => h rfl))

theorem list_calm {blockPath : Text} {e : Refusal}
    (ht : findDeviceByPath w.devices blockPath = some t) :
    Runs exec (calm options) (listDisk blockPath e) w (.ok ⟨t, w.devices⟩) w := by
  have hall : (w.devices.filter fun d => !(calm options).hidden d.path) = w.devices :=
    List.filter_eq_self.mpr fun _ _ => rfl
  refine Runs.bind calls ?_
  simp only [act, hall]
  exact Runs.bind (has ht) Runs.returned

theorem vet_calm (h : Vetted w options t) : Runs exec (calm options) (vet options) w
    (.ok (calmSerial options, ⟨t, w.devices⟩)) w := by
  have hvalid : Runs exec (calm options) (validateOptions options) w (.ok ()) w :=
    Runs.bind (passes h.wipe) (Runs.bind (passes fun hc => hc.2 (h.convert hc.1).1)
      (passes fun hc => hc.2 (h.convert hc.1).2))
  have hanchor : Runs exec (calm options) (anchor options) w (.ok (calmSerial options)) w := by
    refine Runs.bind calls (Runs.bind (has (truthy_calm options)) (Runs.bind (passes ?_)
      Runs.returned))
    rintro ⟨hsome, hne⟩
    obtain ⟨serial, hserial⟩ := Option.isSome_iff_exists.mp hsome
    rw [calmSerial, hserial] at hne
    exact hne rfl
  have howner : Runs exec (calm options) (checkOwner options t) w (.ok ()) w := by
    refine Runs.bind calls (Runs.bind calls ?_)
    simp only [act, h.owner]
    exact Runs.returned
  exact Runs.bind hvalid (Runs.bind calls (Runs.bind (passes h.identity) (Runs.bind hanchor
    (Runs.bind (list_calm h.listed) (Runs.bind same_disk (Runs.bind howner
      (Runs.bind same_disk Runs.returned)))))))

theorem find_wiped (ht : findDeviceByPath w.devices options.blockPath = some t) :
    findDeviceByPath (wiped w options.blockPath []).devices options.blockPath =
      some (relabel w.devices [] t) := by
  have hpath := List.find?_some ht
  simp only [decide_eq_true_eq] at hpath
  cases hfound : findDeviceByPath (wiped w options.blockPath []).devices options.blockPath with
  | some d =>
    obtain ⟨t', ht', rfl⟩ := findDeviceByPath_wiped hfound
    rw [ht, Option.some_inj] at ht'
    rw [ht']
  | none =>
    have hnone := List.find?_eq_none.mp hfound (relabel w.devices [] t)
      (List.mem_map.mpr ⟨t, List.mem_of_find?_eq_some ht, if_pos hpath⟩)
    exact absurd (decide_eq_true hpath) hnone

theorem clear_calm (hwipe : options.wipe = .flag true)
    (ht : findDeviceByPath w.devices options.blockPath = some t)
    (hunmounted : anyMounted t.children = false) {devices : List RawBlockDevice} :
    Runs exec (calm options) (clear options (calmSerial options) ⟨t, devices⟩) w
      (.ok ⟨relabel w.devices [] t, (wiped w options.blockPath []).devices⟩)
      (wiped w options.blockPath []) := by
  rw [clear, if_pos hwipe]
  exact Runs.bind (passes (by simp [hunmounted])) (Runs.bind (Runs.bind same_disk calls)
    (list_calm (find_wiped ht)))

theorem impossible_calm {passphrase : Option Passphrase}
    (himpossible : ¬ EncryptionPossible w passphrase) :
    ∃ e, Preventable e ∧ Runs exec (calm options) (assertEncryptionIsPossible passphrase) w
      (.error e) w := by
  cases hkeyfile : w.keyfileReadable with
  | false => exact ⟨.noKeyfile, trivial, Runs.bind calls (Runs.bind_error (refuses hkeyfile))⟩
  | true =>
    have hknown : Runs exec (calm options) (knownPassphrase passphrase) w
        (.ok (passphrase.or w.sealedPassphrase)) w := by
      cases passphrase with
      | some p => exact Runs.returned
      | none => exact calls
    have hreadable : ¬ w.keyfileReadable = false := by simp [hkeyfile]
    cases htruthy : truthy (passphrase.or w.sealedPassphrase) with
    | none =>
      refine ⟨if w.hasVerifier then .passphraseUnusable else .noPassphrase, ?_, ?_⟩
      · split <;> trivial
      · refine Runs.bind calls (Runs.bind (passes hreadable) (Runs.bind hknown ?_))
        rw [htruthy]
        exact Runs.bind calls Runs.thrown
    | some p =>
      cases hopens : w.opensTheFleet p with
      | false =>
        refine ⟨.doesNotOpenTheFleet, trivial,
          Runs.bind calls (Runs.bind (passes hreadable) (Runs.bind hknown ?_))⟩
        rw [htruthy]
        exact Runs.bind_error (Runs.performed (by simp [exec, act, calm, hopens]))
      | true =>
        cases hmatches : w.matchesVerifier p with
        | false =>
          refine ⟨.doesNotMatchTheVerifier, trivial,
            Runs.bind calls (Runs.bind (passes hreadable) (Runs.bind hknown ?_))⟩
          have hfleet : Runs exec (calm options) (call (.assertPassphraseOpensTheFleet p)) w
              (.ok ()) w := Runs.performed (by simp [exec, act, calm, hopens])
          rw [htruthy]
          exact Runs.bind hfleet
            (Runs.bind_error (Runs.performed (by simp [exec, act, calm, hmatches])))
        | true => exact absurd ⟨hkeyfile, p, htruthy, hopens, hmatches⟩ himpossible

/-- What is not ready is refused, after the wipe. -/
theorem preflight_calm (hunready : ¬ Ready w options encrypt t) {devices : List RawBlockDevice} :
    ∃ e, Preventable e ∧ Runs exec (calm options)
      (preflight options encrypt ⟨relabel w.devices [] t, devices⟩)
      (wiped w options.blockPath []) (.error e) (wiped w options.blockPath []) := by
  have hblank : ¬ (relabel w.devices [] t).children ≠ [] := fun h => h rfl
  by_cases hserial : truthy t.serial = none
  · exact ⟨.noSerial, trivial, Runs.bind (passes hblank) (Runs.bind_error (refuses hserial))⟩
  set registered := registeredVolumes w.volumes devices (relabel w.devices [] t) with hregistered
  by_cases hrefused : registered ≠ [] ∧ options.convertVolumeId = none
  · exact ⟨.alreadyRegistered, trivial, Runs.bind (passes hblank) (Runs.bind (passes hserial)
      (Runs.bind_error (Runs.bind calls (Runs.bind_error (refuses hrefused)))))⟩
  have hunregistered : options.convertVolumeId = none →
      ∀ v ∈ w.volumes, truthy v.deviceSerial ≠ truthy t.serial := by
    intro hconvert v hv heq
    refine hrefused ⟨?_, hconvert⟩
    obtain ⟨serial, hsome⟩ := Option.ne_none_iff_exists'.mp hserial
    have hmem : v ∈ w.volumes.filter fun v => (truthy v.deviceSerial).isSome &&
        truthy v.deviceSerial = truthy (relabel w.devices [] t).serial := by
      refine List.mem_filter.mpr ⟨hv, ?_⟩
      simp [relabel, heq, hsome]
    rw [hregistered, registeredVolumes, if_neg (List.ne_nil_of_mem hmem)]
    exact List.ne_nil_of_mem hmem
  have himpossible : encrypt = true ∧ ¬ EncryptionPossible w options.recoveryPassphrase := by
    by_contra hpossible
    refine hunready ⟨hserial, hunregistered, fun hencrypt => ?_⟩
    by_contra hno
    exact hpossible ⟨hencrypt, hno⟩
  obtain ⟨e, he, hrun⟩ : ∃ e, Preventable e ∧ Runs exec (calm options)
      (assertEncryptionIsPossible options.recoveryPassphrase) (wiped w options.blockPath [])
      (.error e) (wiped w options.blockPath []) := impossible_calm himpossible.2
  refine ⟨e, he, Runs.bind (passes hblank) (Runs.bind (passes hserial)
    (Runs.bind (Runs.bind calls (Runs.bind (passes hrefused) Runs.returned))
      (Runs.bind_error ?_)))⟩
  rw [passphraseIf, if_pos himpossible.1]
  exact Runs.bind_error hrun

theorem wiped_calm (hwipe : options.wipe = .flag true) (hvetted : Vetted w options t)
    (hunmounted : anyMounted t.children = false)
    (hunready : ¬ Ready w options encrypt t) (volumeUuid : Text) :
    ∃ e, Preventable e ∧ Runs exec (calm options) (doProvision options encrypt volumeUuid) w
      (.error e) (wiped w options.blockPath []) := by
  obtain ⟨e, he, hrun⟩ := preflight_calm hunready
  exact ⟨e, he, Runs.bind (vet_calm hvetted) (Runs.bind (clear_calm hwipe hvetted.listed hunmounted)
    (Runs.bind_error hrun))⟩

/-- A refusal that could have come before anything was done comes before it, if and only if no
wipe is started on a disk that the checks after it do not pass. -/
theorem refused_first_iff (w : World) (options : ProvisionOptions) (volumeUuid : Text) :
    Always exec (provision options volumeUuid) (Untouched w) w ↔ Prepared w options := by
  constructor
  · intro hfirst hwipe hfree t hvetted hunmounted
    by_contra hunready
    obtain ⟨e, he, hrun⟩ := wiped_calm hwipe hvetted hunmounted hunready volumeUuid
    have hencrypt : Runs exec (calm options) (shouldEncrypt options.encrypt) w
        (.ok (encrypts w options)) w := by
      unfold encrypts
      cases options.encrypt with
      | some encrypt => exact Runs.returned
      | none => exact calls
    have hslot : Runs exec (calm options) (withEncryptionSlot (encrypts w options)
        (doProvision options (encrypts w options) volumeUuid)) w (.error e)
        (wiped w options.blockPath []) := by
      unfold withEncryptionSlot
      by_cases h : encrypts w options = true
      · have htaken : Runs exec (calm options) (call .takeEncryptionSlot) w (.ok ()) w :=
          Runs.performed (by simp [exec, act, calm, hfree h])
        rw [if_pos h]
        exact Runs.bind htaken hrun
      · rw [if_neg h]
        exact hrun
    have hlog : w.log ++ [.mklabel options.blockPath] = w.log :=
      hfirst.run (Runs.bind hencrypt hslot) he
    simp at hlog
  · exact untouched_of_prepared

/-- A bare disk, of an enclosure that has a serial or not, in an array without a keyfile. -/
def bareRack (serial : Option Text) : World where
  identity := some "2fb05f231d5e4c00".toList
  encryptNewVolumes := false
  rotating := false
  devices := [⟨"/dev/sdb".toList, serial, none, none, []⟩]
  probe := fun _ => .clean
  volumes := []
  keyfileReadable := false
  sealedPassphrase := none
  hasVerifier := false
  opensTheFleet := fun _ => true
  matchesVerifier := fun _ => true
  rows := []
  log := []

def wipeRequest (encrypt : Bool) : ProvisionOptions where
  blockPath := "/dev/sdb".toList
  wipe := .flag true
  encrypt := some encrypt
  recoveryPassphrase := none
  expectDiskSerial := none
  convertVolumeId := none

/-- The keyfile is missed, and the serial of the enclosure, when the disk is wiped. -/
theorem refused_after_wipe :
    Runs exec (calm (wipeRequest true)) (provision (wipeRequest true) [])
        (bareRack (some "SER".toList)) (.error .noKeyfile)
        (wiped (bareRack (some "SER".toList)) "/dev/sdb".toList []) ∧
      Runs exec (calm (wipeRequest false)) (provision (wipeRequest false) []) (bareRack none)
        (.error .noSerial) (wiped (bareRack none) "/dev/sdb".toList []) ∧
      ¬ Always exec (provision (wipeRequest true) []) (Untouched (bareRack (some "SER".toList)))
        (bareRack (some "SER".toList)) ∧
      ¬ Always exec (provision (wipeRequest false) []) (Untouched (bareRack none))
        (bareRack none) := by
  have hkeyfile : Runs exec (calm (wipeRequest true)) (provision (wipeRequest true) [])
      (bareRack (some "SER".toList)) (.error .noKeyfile)
      (wiped (bareRack (some "SER".toList)) "/dev/sdb".toList []) := fun _ => rfl
  have hserial : Runs exec (calm (wipeRequest false)) (provision (wipeRequest false) [])
      (bareRack none) (.error .noSerial) (wiped (bareRack none) "/dev/sdb".toList []) :=
    fun _ => rfl
  refine ⟨hkeyfile, hserial, fun h => ?_, fun h => ?_⟩
  · have hlog : [Command.mklabel "/dev/sdb".toList] = [] := h.run hkeyfile trivial
    cases hlog
  · have hlog : [Command.mklabel "/dev/sdb".toList] = [] := h.run hserial trivial
    cases hlog

end Wasted

end ProvisionPreflight
