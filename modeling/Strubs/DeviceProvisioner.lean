import Strubs.LuksRecoveryKey

/-! # Provisioning an encrypted disk

A blank disk, or one of ours that is converted, becomes a volume whose container opens with the
keyfile and with the passphrase of the fleet. The nameplate goes on last. -/
namespace DeviceProvisioner

open LuksRecoveryKey

variable {V : Type} (argon : Argon2 V)

structure ProvisionOptions where
  disk : ℕ
  wipe : Bool
  recoveryPassphrase : Option Passphrase
  convertVolumeId : Option ℕ

/-- Nobody is asked for the passphrase. If none is handed in the sealed one is used. -/
def knownPassphrase : Option Passphrase → Step V (Option Passphrase)
  | some p => return some p
  | none => sealedRecoveryPassphrase argon

/-- All that has to be true before the disk is touched. A disk is asked before anything is
recorded. -/
def assertEncryptionIsPossible (passphrase : Option Passphrase) : Step V Passphrase := do
  let readable ← call .keyfileReadable
  refuseIf (readable = false) .noKeyfile
  match truthy (← knownPassphrase argon passphrase) with
  | none =>
    let recorded ← getVerifier
    throw (if recorded.isSome then .passphraseUnusable else .noPassphrase)
  | some known =>
    assertPassphraseOpensTheFleet known
    assertFleetRecoveryPassphrase argon known
    return known

/-- The disk is listed again after it was wiped. -/
def wipeDevice (options : ProvisionOptions) (partitioned : Bool) : Step V Bool :=
  if options.wipe then do
    call (.mklabel options.disk)
    call (.inspect options.disk)
  else return partitioned

def partitionDevice (options : ProvisionOptions) : Step V Unit :=
  if options.wipe then call (.mkpart options.disk)
  else do
    call (.mklabel options.disk)
    call (.mkpart options.disk)

/-- The container is asked whether it opens before anything relies on it. -/
def encryptPartition (disk : ℕ) (passphrase : Passphrase) : Step V Unit := do
  call (.luksFormat disk)
  call (.addPassphrase (.path disk) passphrase)
  let slots ← call (.keyslotCount (.path disk))
  refuseIf (slots.getD 0 < 2) .notRecoverable
  let newHeaderOpens ← testPassphrase (.path disk) passphrase
  refuseIf (newHeaderOpens ≠ .opens) .notOpened

def getNextVolumeId (existing : List ℕ) : ℕ := existing.foldl max 0 + 1

/-- The record of a volume that is converted goes before the new one is made. -/
def createVolumeConfig : Option ℕ → Step V ℕ
  | some id => do
    call (.deleteVolume id)
    call (.deregisterVolume id)
    return id
  | none => do
    let existing ← call .getVolumes
    return getNextVolumeId existing

/-- Mandatory on an encrypted disk. It is looked at afterwards, for no error is thrown when it
could not be written. -/
def stampNameplate (disk volumeId : ℕ) : Step V Unit := do
  let identity ← assertIdentity
  call (.writeNameplate disk ⟨identity, volumeId⟩)
  let present ← call (.nameplateIsPresent disk ⟨identity, volumeId⟩)
  refuseIf (present = false) .noNameplate

/-- The disk has its claim before there is a record. -/
def recordVolume (id : ℕ) (uuid : Option ℕ) : Step V Unit := do
  call (.registerVolume ⟨id, uuid, false, true⟩)
  tryCatch (call (.createVolume id)) fun e => do
    tryCatch (call (.deregisterVolume id)) fun _ => pure ()
    throw e

/-- Of `provision` with `encrypt`. That the disk is not ours, or is the one to convert, is for
`inspect` to say. Opening the container and making the filesystem changes nothing here. -/
def doProvision (options : ProvisionOptions) : Step V Unit := do
  refuseIf (options.convertVolumeId.isSome ∧ options.wipe = false) .wipeRequired
  let _ ← assertIdentity
  let partitioned ← call (.inspect options.disk)
  let partitioned ← wipeDevice options partitioned
  refuseIf (partitioned = true) .alreadyPartitioned
  let passphrase ← assertEncryptionIsPossible argon options.recoveryPassphrase
  partitionDevice options
  encryptPartition options.disk passphrase
  let uuid ← call (.waitForPartition options.disk)
  refuseIf (uuid = none) .noPartitionUuid
  let id ← createVolumeConfig options.convertVolumeId
  stampNameplate options.disk id
  recordVolume id uuid

end DeviceProvisioner
