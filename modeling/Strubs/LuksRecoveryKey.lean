import Mathlib.Algebra.Ring.Nat
import Strubs.CooperativeTasks
import Strubs.NamespaceRecord

/-! # The fleet recovery passphrase

Every encrypted disk opens with the keyfile, and with a passphrase that is the same for all of
them. A hash of it is recorded, and a sealed copy. The database, the disks and `cryptsetup` are
called one at a time, and other tasks take their turns between two calls. -/
namespace LuksRecoveryKey

open CooperativeTasks
open NamespaceRecord (Text)

abbrev Passphrase := Text

def minLength : ℕ := 12

/-- The length of a string, in UTF-16 code units. -/
def codeUnits (s : Text) : ℕ := (s.map fun c => if c.toNat < 65536 then 1 else 2).sum

/-- An empty passphrase counts as none. -/
def truthy (p : Option Passphrase) : Option Passphrase := p.filter (· ≠ [])

/-- argon2id. No second passphrase is found for a hash. -/
structure Argon2 (V : Type) where
  hash : Passphrase → V
  verify : Passphrase → V → Bool
  verify_hash : ∀ p, verify p (hash p) = true
  verify_unique : ∀ {p q v}, verify p v = true → verify q v = true → p = q

/-- What is written outside of the container, in the partition table. Of an identity it has the
first sixteen digits. -/
structure Nameplate where
  identity : Text
  volumeId : ℕ
  deriving DecidableEq

/-- A disk and its one partition. Of the keyslots these are the ones besides the keyfile's, and
there are none without a LUKS container. A new partition table does not touch what is written
where the partition begins. -/
structure Disk where
  partitioned : Bool
  uuid : Option ℕ
  nameplate : Option Nameplate
  keyslots : Option (List Passphrase)
  deriving DecidableEq

structure Volume where
  id : ℕ
  partitionUuid : Option ℕ
  isDeleted : Bool
  isEncrypted : Bool
  deriving DecidableEq

structure World (V : Type) where
  identity : Option Text
  disks : ℕ → Disk
  attached : List ℕ
  nextUuid : ℕ
  fleet : List Volume
  rows : List ℕ
  verifier : Option V
  sealedCopy : Option Passphrase
  rotating : Bool
  encryptionsInFlight : ℕ
  /-- The encrypted disks that were not there, or were deleted, during a rotation. -/
  missedRotation : ℕ → Bool
  /-- The encrypted disks that were not there while no passphrase was on record. -/
  missedFirst : ℕ → Bool

namespace World

variable {V : Type} (w : World V)

/-- An encrypted disk with the nameplate of this array. -/
def isOurs (d : ℕ) : Bool :=
  (w.disks d).partitioned && (w.disks d).keyslots.isSome &&
    (w.disks d).nameplate.any fun plate => w.identity = some plate.identity

def opens (d : ℕ) (p : Passphrase) : Bool := (w.disks d).keyslots.any (p ∈ ·)

def isDeleted (d : ℕ) : Bool :=
  (w.disks d).nameplate.any fun plate =>
    w.fleet.any fun volume => volume.id = plate.volumeId && volume.isDeleted

def isAway (d : ℕ) : Bool := d ∉ w.attached || w.isDeleted d

/-- The disks that are away are kept in mind for as long as this matters. -/
def observe : World V :=
  { w with
    missedRotation := fun d => w.missedRotation d || w.rotating && w.isOurs d && w.isAway d
    missedFirst := fun d =>
      w.missedFirst d || w.verifier.isNone && w.isOurs d && decide (d ∉ w.attached) }

def setDisk (d : ℕ) (disk : Disk) : World V := { w with disks := Function.update w.disks d disk }

@[simp] theorem setDisk_disks_self (d : ℕ) (disk : Disk) : (w.setDisk d disk).disks d = disk := by
  simp [setDisk]

theorem setDisk_disks_ne {d e : ℕ} (he : e ≠ d) (disk : Disk) :
    (w.setDisk d disk).disks e = w.disks e := by
  simp [setDisk, he]

variable {w} {w' : World V} {d : ℕ}

theorem isOurs_congr (hdisk : w'.disks d = w.disks d) (hidentity : w'.identity = w.identity) :
    w'.isOurs d = w.isOurs d := by
  rw [isOurs, isOurs, hdisk, hidentity]

theorem opens_congr {p : Passphrase} (hdisk : w'.disks d = w.disks d) :
    w'.opens d p = w.opens d p := by
  rw [opens, opens, hdisk]

end World

/-! ## Calls -/

inductive HeaderSpec where
  | path (d : ℕ)
  | uuid (uuid : ℕ)

inductive PassphraseVerdict where
  | opens
  | rejected
  | unreadable
  deriving DecidableEq

structure EncryptedDisk where
  path : ℕ
  volumeId : ℕ
  luksUuid : Option ℕ

structure FleetScan where
  ours : List EncryptedDisk
  unknown : List ℕ
  absent : List ℕ

inductive RecoveryKeyError where
  | failed
  | noIdentity
  | passphraseRequired
  | tooShort
  | notTheFleets
  | unidentified (paths : List ℕ)
  | unrecorded (encrypted : ℕ)
  | absent (ids : List ℕ)
  | keyNotUnique
  | sameAsCurrent
  | currentRequired
  | currentWrong
  | noLuksUuid (volumeId : ℕ)
  | notOneHeader (uuid count : ℕ)
  | doesNotOpen (volumeId : ℕ)
  | disarmed (volumeId : ℕ)
  | onRecord (ids : List ℕ)
  | split (volumeId : ℕ)
  | noneAnswered
  | notSealed
  | noKeyfile
  | passphraseUnusable
  | noPassphrase
  | wipeRequired
  | alreadyPartitioned
  | notRecoverable
  | notOpened
  | noPartitionUuid
  | noNameplate
  deriving DecidableEq

inductive Call (V : Type) where
  | instanceIdentity
  | getVerifier
  | setVerifier (v : V)
  | setVerifierIfAbsent (v : V)
  | runtimeConfigKeyIsUnique
  | readSealed
  | writeSealed (p : Passphrase)
  | keyfileReadable
  | volumeEntries
  | scanFleet (volumes : List Volume)
  | encryptedVolumeIds
  | assertExactlyOneLuksHeader (uuid : ℕ)
  | testPassphrase (header : HeaderSpec) (p : Passphrase)
  | addPassphrase (header : HeaderSpec) (p : Passphrase)
  | removePassphrase (header : HeaderSpec) (p : Passphrase)
  | keyslotCount (header : HeaderSpec)
  | inspect (d : ℕ)
  | mklabel (d : ℕ)
  | mkpart (d : ℕ)
  | luksFormat (d : ℕ)
  | waitForPartition (d : ℕ)
  | writeNameplate (d : ℕ) (plate : Nameplate)
  | nameplateIsPresent (d : ℕ) (plate : Nameplate)
  | getVolumes
  | deleteVolume (id : ℕ)
  | createVolume (id : ℕ)
  | deregisterVolume (id : ℕ)
  | registerVolume (volume : Volume)

@[reducible] def Answer {V : Type} : Call V → Type
  | .instanceIdentity => Option Text
  | .getVerifier => Option V
  | .setVerifierIfAbsent _ | .runtimeConfigKeyIsUnique | .keyfileReadable => Bool
  | .inspect _ | .nameplateIsPresent _ _ => Bool
  | .readSealed => Option Passphrase
  | .volumeEntries => List Volume
  | .scanFleet _ => FleetScan
  | .encryptedVolumeIds | .getVolumes => List ℕ
  | .testPassphrase _ _ => PassphraseVerdict
  | .keyslotCount _ => Option ℕ
  | .waitForPartition _ => Option ℕ
  | _ => Unit

inductive Fault where
  | before
  | after

/-- How a call turns out: where it breaks off, the partitions that cannot be read while it is
made, and the answer to what the model leaves open. -/
structure Env where
  fault : Option Fault
  unread : List ℕ
  yes : Bool

section Calls

variable {V : Type} (w : World V)

/-- What `lsblk` shows under a uuid. -/
def withUuid (uuid : ℕ) : List ℕ :=
  w.attached.filter fun d => (w.disks d).partitioned && (w.disks d).uuid = some uuid

/-- The partition that `cryptsetup` is pointed at. -/
def resolve : HeaderSpec → Option ℕ
  | .path d => if d ∈ w.attached ∧ (w.disks d).partitioned then some d else none
  | .uuid uuid => (withUuid w uuid).head?

/-- A partition that cannot be read counts as a container, and shows no uuid. -/
def findEncryptedPartitions (unread : List ℕ) : List EncryptedDisk × List ℕ :=
  let found := w.attached.filter fun d =>
    (w.disks d).partitioned && ((w.disks d).keyslots.isSome || decide (d ∈ unread))
  (found.filterMap fun d => (w.disks d).nameplate.bind fun plate =>
      if w.identity = some plate.identity then
        some ⟨d, plate.volumeId, if d ∈ unread then none else (w.disks d).uuid⟩
      else none,
    found.filter fun d => (w.disks d).nameplate.isNone)

/-- Asked of the disks. A volume that is deleted is not asked for. -/
def absentVolumeIds (volumes : List Volume) : List ℕ :=
  ((volumes.filter (!·.isDeleted)).filter fun volume =>
    !volume.partitionUuid.any fun uuid => withUuid w uuid ≠ []).map (·.id)

/-- Of one enumeration of the disks. -/
def scan (volumes : List Volume) (unread : List ℕ) : FleetScan where
  ours := (findEncryptedPartitions w unread).1
  unknown := (findEncryptedPartitions w unread).2
  absent := absentVolumeIds w volumes

def onHeader {α : Type} (header : HeaderSpec)
    (f : ℕ → List Passphrase → Except RecoveryKeyError α × World V) :
    Except RecoveryKeyError α × World V :=
  match resolve w header with
  | none => (.error .failed, w)
  | some d =>
    match (w.disks d).keyslots with
    | none => (.error .failed, w)
    | some keyslots => f d keyslots

/-- A destructive write is fenced: it goes to the disk it is meant for, or nowhere. -/
def onDisk (d : ℕ) (f : Disk → World V) : Except RecoveryKeyError Unit × World V :=
  if d ∈ w.attached then (.ok (), f (w.disks d)) else (.error .failed, w)

def testPassphraseVerdict (unread : List ℕ) (header : HeaderSpec) (p : Passphrase) :
    PassphraseVerdict :=
  match resolve w header with
  | none => .unreadable
  | some d =>
    if d ∈ unread then .unreadable
    else
      match (w.disks d).keyslots with
      | none => .unreadable
      | some keyslots => if p ∈ keyslots then .opens else .rejected

/-- What a call does when nothing interferes. The checks of a disk before the first write, and
the keyfile, are left to the environment. -/
def act (env : Env) : (c : Call V) → Except RecoveryKeyError (Answer c) × World V
  | .instanceIdentity => (.ok w.identity, w)
  | .getVerifier => (.ok w.verifier, w)
  | .setVerifier v => (.ok (), { w with verifier := some v })
  | .setVerifierIfAbsent v =>
    if w.verifier.isNone then (.ok true, { w with verifier := some v }) else (.ok false, w)
  | .runtimeConfigKeyIsUnique => (.ok env.yes, w)
  | .readSealed => (.ok (if env.yes then w.sealedCopy else none), w)
  | .writeSealed p => (.ok (), if env.yes then { w with sealedCopy := some p } else w)
  | .keyfileReadable => (.ok env.yes, w)
  | .volumeEntries => (.ok w.fleet, w)
  | .scanFleet volumes => (.ok (scan w volumes env.unread), w)
  | .encryptedVolumeIds =>
    (.ok ((w.fleet.filter fun volume => volume.isEncrypted && !volume.isDeleted).map (·.id)), w)
  | .assertExactlyOneLuksHeader uuid =>
    (if (withUuid w uuid).length = 1 then .ok ()
      else .error (.notOneHeader uuid (withUuid w uuid).length), w)
  | .testPassphrase header p => (.ok (testPassphraseVerdict w env.unread header p), w)
  | .addPassphrase header p =>
    if p = [] then (.error .passphraseRequired, w)
    else onHeader w header fun d keyslots =>
      (.ok (), w.setDisk d { w.disks d with keyslots := some (p :: keyslots) })
  | .removePassphrase header p => onHeader w header fun d keyslots =>
    if p ∈ keyslots then
      (.ok (), w.setDisk d { w.disks d with keyslots := some (keyslots.erase p) })
    else (.error .failed, w)
  | .keyslotCount header =>
    (.ok ((resolve w header).bind fun d => (w.disks d).keyslots.map (·.length + 1)), w)
  | .inspect d =>
    (if d ∈ w.attached ∧ env.yes then .ok (w.disks d).partitioned else .error .failed, w)
  | .mklabel d => onDisk w d fun disk =>
    w.setDisk d { disk with partitioned := false, nameplate := none }
  | .mkpart d => onDisk w d fun disk =>
    w.setDisk d { disk with partitioned := true, nameplate := none }
  | .luksFormat d => onDisk w d fun disk =>
    { w.setDisk d { disk with uuid := some w.nextUuid, keyslots := some [] } with
      nextUuid := w.nextUuid + 1
      missedRotation := Function.update w.missedRotation d false
      missedFirst := Function.update w.missedFirst d false }
  | .waitForPartition d =>
    (if d ∈ w.attached ∧ (w.disks d).partitioned then .ok (w.disks d).uuid else .error .failed, w)
  | .writeNameplate d plate =>
    if env.yes then onDisk w d fun disk => w.setDisk d { disk with nameplate := some plate }
    else (.ok (), w)
  | .nameplateIsPresent d plate =>
    (.ok (decide (d ∈ w.attached ∧ (w.disks d).nameplate = some plate)), w)
  | .getVolumes => (.ok w.rows, w)
  | .deleteVolume id => (.ok (), { w with rows := w.rows.filter (· ≠ id) })
  | .createVolume id => (.ok (), { w with rows := w.rows ++ [id] })
  | .deregisterVolume id => (.ok (), { w with fleet := w.fleet.filter (·.id ≠ id) })
  | .registerVolume volume => (.ok (), { w with fleet := w.fleet ++ [volume] })

/-- A call that breaks off may have had its effect. -/
def exec (env : Env) (c : Call V) (w : World V) :
    Except RecoveryKeyError (Answer c) × World V :=
  match env.fault with
  | none => ((act w env c).1, (act w env c).2.observe)
  | some .before => (.error .failed, w)
  | some .after => (.error .failed, (act w env c).2.observe)

end Calls

abbrev Step (V : Type) := Task (@Answer V) RecoveryKeyError

variable {V : Type}

def call (c : Call V) : Step V (Answer c) := perform c

def refuseIf (c : Prop) [Decidable c] (e : RecoveryKeyError) : Step V Unit :=
  if c then throw e else pure ()

def getVerifier : Step V (Option V) := call .getVerifier

/-- The volumes are listed first, and then the disks. -/
def scanFleet : Step V FleetScan := do
  let volumes ← call .volumeEntries
  call (.scanFleet volumes)

def testPassphrase (header : HeaderSpec) (p : Passphrase) : Step V PassphraseVerdict :=
  call (.testPassphrase header p)

/-- Without an identity no disk can be told to be ours. -/
def assertIdentity : Step V Text := do
  let identity ← call .instanceIdentity
  match identity with
  | none => throw .noIdentity
  | some identity => return identity

/-- Failing to seal never fails what has set the passphrase. -/
def reseal (p : Passphrase) : Step V Unit :=
  tryCatch (call (.writeSealed p)) fun _ => pure ()

variable (argon : Argon2 V)

/-- The passphrase if it is known. What was sealed is not trusted without the hash. -/
def sealedRecoveryPassphrase : Step V (Option Passphrase) := do
  match ← getVerifier with
  | none => return none
  | some verifier =>
    let stored ← call .readSealed
    return stored.filter fun p => argon.verify p verifier

/-- The check that gates an encryption. If nothing is on record the first to be asked for is
recorded, but not while there is an encrypted disk, or one that might be. -/
def assertFleetRecoveryPassphrase (passphrase : Passphrase) : Step V Unit := do
  let _ ← assertIdentity
  refuseIf (codeUnits passphrase < minLength) .tooShort
  match ← getVerifier with
  | some existing =>
    refuseIf (argon.verify passphrase existing = false) .notTheFleets
    match ← sealedRecoveryPassphrase argon with
    | none => reseal passphrase
    | some _ => return
  | none =>
    let fleet ← scanFleet
    refuseIf (fleet.unknown ≠ []) (.unidentified fleet.unknown)
    refuseIf (fleet.ours.length ≠ 0) (.unrecorded fleet.ours.length)
    refuseIf (fleet.absent ≠ []) (.absent fleet.absent)
    let unique ← call .runtimeConfigKeyIsUnique
    refuseIf (unique = false) .keyNotUnique
    let first ← call (.setVerifierIfAbsent (argon.hash passphrase))
    if first then reseal passphrase
    else
      let winner ← getVerifier
      refuseIf (winner.any (argon.verify passphrase) = false) .notTheFleets
      reseal passphrase

/-- A header is found by its own uuid. -/
def headerSpec (disk : EncryptedDisk) : Step V HeaderSpec :=
  match disk.luksUuid with
  | none => throw (.noLuksUuid disk.volumeId)
  | some uuid => do
    call (.assertExactlyOneLuksHeader uuid)
    return .uuid uuid

/-! ## The proof by one disk -/

/-- A disk that cannot be asked has not said no. -/
def askDisk (passphrase : Passphrase) (disk : EncryptedDisk) : Step V PassphraseVerdict := do
  match ← tryCatch (some <$> headerSpec disk) fun _ => pure none with
  | none => return .unreadable
  | some header => testPassphrase header passphrase

def askFleet (passphrase : Passphrase) : List EncryptedDisk → Step V Unit
  | [] => throw .noneAnswered
  | disk :: rest => do
    match ← askDisk passphrase disk with
    | .opens => return
    | .unreadable => askFleet passphrase rest
    | .rejected => throw (.split disk.volumeId)

def assertPassphraseOpensTheFleet (passphrase : Passphrase) : Step V Unit := do
  let fleet ← scanFleet
  refuseIf (fleet.unknown ≠ []) (.unidentified fleet.unknown)
  refuseIf (fleet.absent ≠ []) (.absent fleet.absent)
  if fleet.ours.length = 0 then
    let onRecord ← call .encryptedVolumeIds
    refuseIf (onRecord ≠ []) (.onRecord onRecord)
  else askFleet passphrase fleet.ours

/-- The passphrase is handed back, to be sealed again. -/
def handleEncryptionSealRequest (passphrase : Passphrase) : Step V Unit := do
  refuseIf (passphrase = []) .passphraseRequired
  assertPassphraseOpensTheFleet passphrase
  assertFleetRecoveryPassphrase argon passphrase
  let usable ← sealedRecoveryPassphrase argon
  refuseIf (usable = none) .notSealed

/-! ## Changing the passphrase -/

/-- A disk that opens already is left alone, and the others are asked afterwards. -/
def enroll (next : Passphrase) (disk : EncryptedDisk) : Step V Unit := do
  let header ← headerSpec disk
  let before ← testPassphrase header next
  if before = .opens then return
  else
    let header ← headerSpec disk
    call (.addPassphrase header next)
    let header ← headerSpec disk
    let after ← testPassphrase header next
    refuseIf (after ≠ .opens) (.doesNotOpen disk.volumeId)

/-- That the old passphrase stays is not held against the rotation. -/
def retire (next current : Passphrase) (disk : EncryptedDisk) : Step V Unit := do
  tryCatch (headerSpec disk >>= fun header => call (.removePassphrase header current))
    fun _ => pure ()
  let header ← headerSpec disk
  let after ← testPassphrase header next
  refuseIf (after ≠ .opens) (.disarmed disk.volumeId)

/-- To change the passphrase is to know it. -/
def assertCurrent (existing : Option V) (current : Option Passphrase) : Step V Unit :=
  match existing, truthy current with
  | none, _ => return
  | some _, none => throw .currentRequired
  | some verifier, some current => refuseIf (argon.verify current verifier = false) .currentWrong

/-- The new passphrase is added everywhere, then recorded, and then the old one is removed. -/
def rotate (next : Passphrase) (current : Option Passphrase) : Step V Unit := do
  let _ ← assertIdentity
  refuseIf (codeUnits next < minLength) .tooShort
  refuseIf (truthy current = some next) .sameAsCurrent
  let existing ← getVerifier
  assertCurrent argon existing current
  let fleet ← scanFleet
  refuseIf (fleet.unknown ≠ []) (.unidentified fleet.unknown)
  refuseIf (fleet.absent ≠ []) (.absent fleet.absent)
  if fleet.ours.length = 0 then
    call (.setVerifier (argon.hash next))
    reseal next
  else
    fleet.ours.forM (enroll next)
    call (.setVerifier (argon.hash next))
    reseal next
    match truthy current with
    | none => return
    | some current => fleet.ours.forM (retire next current)

end LuksRecoveryKey
