import Strubs.InsertionMap
import Strubs.KeyedWrites
import Strubs.NamespaceRecord
import Strubs.StateMachine

/-! # Remediation service

The faults of slices are kept in memory and written behind to the store, each change as a whole.
Nothing waits for a write, so the writes of one fault are chained. -/
namespace RemediationService

open InsertionMap StateMachine
open NamespaceRecord (Text)

inductive FaultSource where
  | read
  | verify
  | syslog
  | smart
  deriving DecidableEq

inductive RepairStatus where
  | pending
  | blocked
  deriving DecidableEq

inductive RepairBlockedReason where
  | insufficientSlices
  | targetUnwritable
  | unrecoverable
  | reconstructionMismatch
  deriving DecidableEq

structure RepairBlockDetails where
  requiredSlices : Option ℕ := none
  availableSlices : Option ℕ := none
  totalSlices : Option ℕ := none
  chunkIndex : Option ℕ := none
  availableSliceIndexes : Option (List ℕ) := none
  missingSliceIndexes : Option (List ℕ) := none
  failedSliceIndexes : Option (List ℕ) := none
  missingVolumeIds : Option (List ℕ) := none
  failedVolumeIds : Option (List ℕ) := none
  targetVolumeId : Option ℕ := none
  message : Option Text := none
  deriving DecidableEq

structure SliceFaultInput where
  objectId : Text
  sliceIndex : ℕ
  volumeId : Option ℕ
  source : FaultSource
  code : Option Text := none
  message : Option Text := none
  isChecksum : Option Bool := none
  deriving DecidableEq

structure SliceFault extends SliceFaultInput where
  key : Text
  firstSeen : ℕ
  lastSeen : ℕ
  count : ℕ
  repairStatus : Option RepairStatus := none
  repairBlockedReason : Option RepairBlockedReason := none
  repairBlockedAt : Option ℕ := none
  lastRepairAttemptAt : Option ℕ := none
  lastRepairError : Option Text := none
  repairDetails : Option RepairBlockDetails := none
  deriving DecidableEq

/-- The volume, the object and the slice. -/
def faultKey (input : SliceFaultInput) : Text :=
  (match input.volumeId with
    | some volumeId => Nat.toDigits 10 volumeId
    | none => "unknown".toList) ++
    ':' :: (input.objectId ++ ':' :: Nat.toDigits 10 input.sliceIndex)

/-- A row of the store. What is set to an undefined value is stored as null, `some none`. -/
structure FaultDocument where
  id : Text
  objectId : Text
  sliceIndex : ℕ
  volumeId : Option ℕ
  source : FaultSource
  code : Option (Option Text)
  message : Option (Option Text)
  isChecksum : Option (Option Bool)
  firstSeen : ℕ
  lastSeen : ℕ
  count : ℕ
  repairStatus : Option RepairStatus
  repairBlockedReason : Option RepairBlockedReason
  repairBlockedAt : Option ℕ
  lastRepairAttemptAt : Option ℕ
  lastRepairError : Option Text
  repairDetails : Option RepairBlockDetails
  deriving DecidableEq

inductive FieldUpdate (α : Type*) where
  | set (value : α)
  | unset

def setOptional {α : Type*} : Option α → FieldUpdate α
  | none => .unset
  | some value => .set value

/-- What a field holds after the update, whatever was there. -/
def FieldUpdate.result {α : Type*} : FieldUpdate α → Option α
  | .set value => some value
  | .unset => none

/-- Only a row that was not there takes the time at which the fault was first seen. -/
def upsert (fault : SliceFault) (row : Option FaultDocument) : FaultDocument where
  id := fault.key
  objectId := fault.objectId
  sliceIndex := fault.sliceIndex
  volumeId := fault.volumeId
  source := fault.source
  code := some fault.code
  message := some fault.message
  isChecksum := some fault.isChecksum
  firstSeen := (row.map (·.firstSeen)).getD fault.firstSeen
  lastSeen := fault.lastSeen
  count := fault.count
  repairStatus := (setOptional fault.repairStatus).result
  repairBlockedReason := (setOptional fault.repairBlockedReason).result
  repairBlockedAt := (setOptional fault.repairBlockedAt).result
  lastRepairAttemptAt := (setOptional fault.lastRepairAttemptAt).result
  lastRepairError := (setOptional fault.lastRepairError).result
  repairDetails := (setOptional fault.repairDetails).result

/-- What is queued: the fault as it was at that time, or that its row goes. -/
inductive StoreOp where
  | upsertFault (payload : SliceFault)
  | deleteFault
  deriving DecidableEq

def StoreOp.run : StoreOp → Option FaultDocument → Option FaultDocument
  | .upsertFault payload, row => some (upsert payload row)
  | .deleteFault, _ => none

/-- Every fault is kept under its own key. -/
structure Faults where
  table : Table Text SliceFault
  keyed : ∀ key fault, table.get key = some fault → fault.key = key

namespace Faults

def empty : Faults := ⟨Table.empty, fun _ _ h => by cases h⟩

def get (faults : Faults) (key : Text) : Option SliceFault := faults.table.get key

/-- A fault that is there changes in its place. -/
def put (faults : Faults) (fault : SliceFault) : Faults where
  table := faults.table.set fault.key fault
  keyed := by
    intro key other h
    rw [get_set] at h
    split at h
    · next hkey => rw [← Option.some.inj h, hkey]
    · exact faults.keyed key other h

def erase (faults : Faults) (key : Text) : Faults where
  table := faults.table.erase key
  keyed := by
    intro key' fault h
    rw [get_erase] at h
    split at h
    · cases h
    · exact faults.keyed key' fault h

end Faults

structure Service where
  faults : Faults
  persistence : KeyedWrites.State Text StoreOp (Option FaultDocument)

namespace Service

variable (s : Service)

def persist (fault : SliceFault) : Service :=
  { s with persistence := s.persistence.enqueue fault.key (.upsertFault fault) }

def record (now : ℕ) (input : SliceFaultInput) : SliceFault × Service :=
  let key := faultKey input
  match s.faults.get key with
  | some existing =>
    let existing := { existing with
      lastSeen := now
      count := existing.count + 1
      code := input.code.or existing.code
      message := input.message.or existing.message
      repairStatus := existing.repairStatus.or (some .pending) }
    (existing, { s with faults := s.faults.put existing })
  | none =>
    let fault := { input with
      key, firstSeen := now, lastSeen := now, count := 1, repairStatus := some .pending }
    (fault, { s with faults := s.faults.put fault })

def reportSliceFault (now : ℕ) (input : SliceFaultInput) : Service :=
  let (fault, s) := s.record now input
  s.persist fault

def listFaults : List SliceFault := s.faults.table.values

/-- A fault that is there changes and is written as it is then. -/
def mark (key : Text) (update : SliceFault → SliceFault) : Bool × Service :=
  match s.faults.get key with
  | none => (false, s)
  | some fault => (true, { s with faults := s.faults.put (update fault) }.persist (update fault))

def markRepairAttempted (now : ℕ) (key : Text) : Bool × Service :=
  s.mark key fun fault => { fault with
    repairStatus := some .pending
    lastRepairAttemptAt := some now
    repairBlockedReason := none
    repairBlockedAt := none
    lastRepairError := none
    repairDetails := none }

def markRepairFailed (now : ℕ) (key message : Text) : Bool × Service :=
  s.mark key fun fault => { fault with
    repairStatus := some .pending
    lastRepairAttemptAt := some now
    lastRepairError := some message
    repairBlockedReason := none
    repairBlockedAt := none
    repairDetails := none }

def markRepairBlocked (now : ℕ) (key : Text) (reason : RepairBlockedReason)
    (details : Option RepairBlockDetails) : Bool × Service :=
  s.mark key fun fault => { fault with
    repairStatus := some .blocked
    repairBlockedReason := some reason
    repairBlockedAt := some now
    lastRepairAttemptAt := some now
    lastRepairError := details.bind (·.message)
    repairDetails := details }

/-- The row is deleted even where there is no fault in memory. -/
def clearFault (key : Text) : Bool × Service :=
  ((s.faults.get key).isSome,
    { faults := s.faults.erase key, persistence := s.persistence.enqueue key .deleteFault })

end Service

inductive Call where
  | reportSliceFault (input : SliceFaultInput)
  | markRepairAttempted (key : Text)
  | markRepairFailed (key message : Text)
  | markRepairBlocked (key : Text) (reason : RepairBlockedReason)
      (details : Option RepairBlockDetails)
  | clearFault (key : Text)

/-- The fault that a call is about. -/
def Call.key : Call → Text
  | .reportSliceFault input => faultKey input
  | .markRepairAttempted key | .markRepairFailed key _ | .markRepairBlocked key _ _
  | .clearFault key => key

def Call.marks : Call → Bool
  | .reportSliceFault _ | .clearFault _ => false
  | _ => true

def Service.call (s : Service) (now : ℕ) : Call → Service
  | .reportSliceFault input => s.reportSliceFault now input
  | .markRepairAttempted key => (s.markRepairAttempted now key).2
  | .markRepairFailed key message => (s.markRepairFailed now key message).2
  | .markRepairBlocked key reason details => (s.markRepairBlocked now key reason details).2
  | .clearFault key => (s.clearFault key).2

inductive Event where
  | call (now : ℕ) (c : Call)
  | write (e : KeyedWrites.Event)

def enabled (s : Service) : Event → Bool
  | .call _ _ => true
  | .write e => KeyedWrites.enabled s.persistence e

def next (s : Service) : Event → Service
  | .call now c => s.call now c
  | .write e => { s with persistence := KeyedWrites.next StoreOp.run s.persistence e }

/-- A row tells what the fault is: a field that the fault does not have is null or absent, and
of the state of its repair absent. -/
structure Tells (doc : FaultDocument) (fault : SliceFault) : Prop where
  id : doc.id = fault.key
  objectId : doc.objectId = fault.objectId
  sliceIndex : doc.sliceIndex = fault.sliceIndex
  volumeId : doc.volumeId = fault.volumeId
  source : doc.source = fault.source
  code : doc.code.join = fault.code
  message : doc.message.join = fault.message
  isChecksum : doc.isChecksum.join = fault.isChecksum
  firstSeen : doc.firstSeen = fault.firstSeen
  lastSeen : doc.lastSeen = fault.lastSeen
  count : doc.count = fault.count
  repairStatus : doc.repairStatus = fault.repairStatus
  repairBlockedReason : doc.repairBlockedReason = fault.repairBlockedReason
  repairBlockedAt : doc.repairBlockedAt = fault.repairBlockedAt
  lastRepairAttemptAt : doc.lastRepairAttemptAt = fault.lastRepairAttemptAt
  lastRepairError : doc.lastRepairError = fault.lastRepairError
  repairDetails : doc.repairDetails = fault.repairDetails

/-- The store has a row for a key if and only if there is a fault in memory, and it tells it. -/
def Agrees (key : Text) : Option FaultDocument → Option SliceFault → Prop
  | none, none => True
  | some doc, some fault => doc.id = key ∧ Tells doc fault
  | _, _ => False

def machine : Machine Service Event where
  Initial s := s.persistence.writes = [] ∧ (∀ key, s.persistence.chains key = none) ∧
    ∀ key, Agrees key (s.persistence.store key) (s.faults.get key)
  Enabled s e := enabled s e
  next := next

instance (s : Service) (e : Event) : Decidable (machine.Enabled s e) :=
  inferInstanceAs (Decidable (enabled s e = true))

/-- What the queued writes will have made of the store agrees with memory. -/
def Converging (s : Service) : Prop :=
  ∃ base, KeyedWrites.Kept StoreOp.run base s.persistence ∧
    ∀ key, Agrees key ((s.persistence.queued key).foldl (fun row op => op.run row) (base key))
      (s.faults.get key)

variable {s : Service}

theorem result_setOptional {α : Type*} (value : Option α) : (setOptional value).result = value := by
  cases value <;> rfl

theorem tells_upsert (fault : SliceFault) (row : Option FaultDocument)
    (hrow : ∀ doc, row = some doc → doc.firstSeen = fault.firstSeen) :
    Tells (upsert fault row) fault := by
  have hfirst : (upsert fault row).firstSeen = fault.firstSeen := by
    cases row with
    | none => rfl
    | some doc => exact hrow doc rfl
  exact ⟨rfl, rfl, rfl, rfl, rfl, rfl, rfl, rfl, hfirst, rfl, rfl, result_setOptional _,
    result_setOptional _, result_setOptional _, result_setOptional _, result_setOptional _,
    result_setOptional _⟩

theorem get_put (faults : Faults) (fault : SliceFault) (key : Text) :
    (faults.put fault).get key = if key = fault.key then some fault else faults.get key :=
  get_set _ _ _ _

/-- A fault that keeps the time at which it was first seen may change in memory when the whole
of it is queued. -/
theorem converging_persist (h : Converging s) {fault : SliceFault}
    (hfirst : ∀ old, s.faults.get fault.key = some old → old.firstSeen = fault.firstSeen) :
    Converging ({ s with faults := s.faults.put fault }.persist fault) := by
  obtain ⟨base, hkept, hagrees⟩ := h
  refine ⟨base, KeyedWrites.kept_enqueue hkept _ _, fun key => ?_⟩
  rw [Service.persist, KeyedWrites.queued_enqueue, List.foldl_append, get_put]
  have hold := hagrees key
  by_cases hkey : fault.key = key
  · subst hkey
    rw [if_pos rfl, if_pos rfl]
    refine ⟨rfl, tells_upsert fault _ fun doc hdoc => ?_⟩
    rw [hdoc] at hold
    cases hget : s.faults.get fault.key with
    | none =>
      rw [hget] at hold
      exact hold.elim
    | some old =>
      rw [hget] at hold
      exact hold.2.firstSeen.trans (hfirst old hget)
  · rw [if_neg hkey, if_neg (Ne.symm hkey)]
    exact hold

theorem converging_mark (h : Converging s) (key : Text) (update : SliceFault → SliceFault)
    (hkey : ∀ fault, (update fault).key = fault.key)
    (hfirst : ∀ fault, (update fault).firstSeen = fault.firstSeen) :
    Converging (s.mark key update).2 := by
  rw [Service.mark]
  split
  · exact h
  · next fault hget =>
    refine converging_persist h fun old hold => ?_
    rw [hkey, s.faults.keyed key fault hget, hget] at hold
    rw [← Option.some.inj hold, hfirst]

theorem converging_report (h : Converging s) (now : ℕ) (input : SliceFaultInput) :
    Converging (s.reportSliceFault now input) := by
  rw [Service.reportSliceFault, Service.record]
  cases hget : s.faults.get (faultKey input) with
  | some existing =>
    refine converging_persist h fun old hold => ?_
    rw [s.faults.keyed _ existing hget, hget] at hold
    rw [← Option.some.inj hold]
  | none =>
    refine converging_persist h fun old hold => ?_
    rw [hget] at hold
    cases hold

theorem converging_clear (h : Converging s) (key : Text) : Converging (s.clearFault key).2 := by
  obtain ⟨base, hkept, hagrees⟩ := h
  refine ⟨base, KeyedWrites.kept_enqueue hkept _ _, fun key' => ?_⟩
  have hget : (s.faults.erase key).get key' = if key' = key then none else s.faults.get key' :=
    get_erase _ _ _
  rw [Service.clearFault, KeyedWrites.queued_enqueue, List.foldl_append, hget]
  by_cases hkey : key = key'
  · rw [if_pos hkey, if_pos hkey.symm]
    trivial
  · rw [if_neg hkey, if_neg (Ne.symm hkey)]
    exact hagrees key'

theorem converging_call (h : Converging s) (now : ℕ) (c : Call) : Converging (s.call now c) := by
  cases c with
  | reportSliceFault input => exact converging_report h now input
  | markRepairAttempted key => exact converging_mark h key _ (fun _ => rfl) fun _ => rfl
  | markRepairFailed key message => exact converging_mark h key _ (fun _ => rfl) fun _ => rfl
  | markRepairBlocked key reason details =>
    exact converging_mark h key _ (fun _ => rfl) fun _ => rfl
  | clearFault key => exact converging_clear h key

theorem converging_of_reachable (h : Reachable machine s) : Converging s := by
  refine h.invariant (fun s hs => ?_) fun s e hs he => ?_
  · obtain ⟨hwrites, hchains, hagrees⟩ := hs
    refine ⟨s.persistence.store, KeyedWrites.kept_nil hwrites hchains, fun key => ?_⟩
    rw [KeyedWrites.State.queued, KeyedWrites.State.log, hwrites]
    exact hagrees key
  · cases e with
    | call now c => exact converging_call hs now c
    | write e =>
      obtain ⟨base, hkept, hagrees⟩ := hs
      refine ⟨base, KeyedWrites.kept_next hkept he, fun key => ?_⟩
      have hqueued : ((machine.next s (.write e)).persistence).queued key =
          s.persistence.queued key := KeyedWrites.queued_next s.persistence e key
      rw [hqueued]
      exact hagrees key

theorem log_persist (s : Service) (fault : SliceFault) :
    s.persistence.log <+: (s.persist fault).persistence.log := by
  rw [Service.persist, KeyedWrites.log_enqueue]
  exact List.prefix_append _ _

theorem log_mark (s : Service) (key : Text) (update : SliceFault → SliceFault) :
    s.persistence.log <+: (s.mark key update).2.persistence.log := by
  rw [Service.mark]
  split
  · exact List.prefix_refl _
  · next fault _ =>
    exact log_persist { s with faults := s.faults.put (update fault) } (update fault)

theorem log_call (s : Service) (now : ℕ) (c : Call) :
    s.persistence.log <+: (s.call now c).persistence.log := by
  cases c with
  | reportSliceFault input =>
    rw [Service.call, Service.reportSliceFault, Service.record]
    cases s.faults.get (faultKey input) with
    | some existing => exact log_persist { s with faults := s.faults.put _ } _
    | none => exact log_persist { s with faults := s.faults.put _ } _
  | markRepairAttempted key => exact log_mark s key _
  | markRepairFailed key message => exact log_mark s key _
  | markRepairBlocked key reason details => exact log_mark s key _
  | clearFault key =>
    rw [Service.call, Service.clearFault, KeyedWrites.log_enqueue]
    exact List.prefix_append _ _

/-- The write that makes the row of what is in memory. -/
def StoreOp.of : Option SliceFault → StoreOp
  | none => .deleteFault
  | some fault => .upsertFault fault

/-- A call changes no other fault, and queues what has become of its own. A mark of a fault that
is not there does nothing. -/
structure Recorded (s s' : Service) (now : ℕ) (c : Call) : Prop where
  others : ∀ key ≠ c.key, s'.faults.get key = s.faults.get key
  queued : c.marks = false ∨ (s.faults.get c.key).isSome →
    s'.persistence.log = s.persistence.log ++ [(c.key, .of (s'.faults.get c.key))]
  ignored : c.marks → s.faults.get c.key = none → s' = s
  reported : ∀ input, c = .reportSliceFault input → ∃ fault, s'.faults.get c.key = some fault ∧
    fault.lastSeen = now ∧ fault.count = ((s.faults.get c.key).map (·.count)).getD 0 + 1
  marked : c.marks → ∀ old, s.faults.get c.key = some old → ∃ fault,
    s'.faults.get c.key = some fault ∧ fault.lastRepairAttemptAt = some now ∧
      fault.count = old.count
  cleared : ∀ key, c = .clearFault key → s'.faults.get c.key = none

theorem persist_spec (s : Service) (fault : SliceFault) :
    ({ s with faults := s.faults.put fault }.persist fault).faults.get fault.key = some fault ∧
      (∀ key ≠ fault.key,
        ({ s with faults := s.faults.put fault }.persist fault).faults.get key =
          s.faults.get key) ∧
      ({ s with faults := s.faults.put fault }.persist fault).persistence.log =
        s.persistence.log ++ [(fault.key, .upsertFault fault)] := by
  rw [Service.persist, KeyedWrites.log_enqueue]
  refine ⟨?_, fun key hkey => ?_, rfl⟩
  · rw [get_put, if_pos rfl]
  · rw [get_put, if_neg hkey]

theorem recorded_mark {now : ℕ} {c : Call} {update : SliceFault → SliceFault}
    (hmarks : c.marks) (hcall : s.call now c = (s.mark c.key update).2)
    (hupdate : ∀ fault, (update fault).key = fault.key ∧
      (update fault).lastRepairAttemptAt = some now ∧ (update fault).count = fault.count) :
    Recorded s (s.call now c) now c := by
  have hreport : ∀ input, c ≠ .reportSliceFault input := by
    rintro input rfl
    cases hmarks
  have hclear : ∀ key, c ≠ .clearFault key := by
    rintro key rfl
    cases hmarks
  rw [hcall, Service.mark]
  cases hget : s.faults.get c.key with
  | none =>
    refine ⟨fun _ _ => rfl, fun hqueued => ?_, fun _ _ => rfl,
      fun input h => absurd h (hreport input), fun _ old hold => ?_,
      fun key h => absurd h (hclear key)⟩
    · simp [hmarks, hget] at hqueued
    · rw [hget] at hold
      cases hold
  | some old =>
    obtain ⟨hkey, hattempt, hcount⟩ := hupdate old
    rw [s.faults.keyed _ old hget] at hkey
    obtain ⟨hself, hothers, hlog⟩ := persist_spec s (update old)
    rw [hkey] at hself hothers hlog
    refine ⟨hothers, fun _ => ?_, fun _ hnone => ?_, fun input h => absurd h (hreport input),
      fun _ old' hold => ⟨update old, hself, hattempt, ?_⟩, fun key h => absurd h (hclear key)⟩
    · rw [hself, hlog]
      rfl
    · rw [hget] at hnone
      cases hnone
    · rw [hcount, Option.some.inj (hget.symm.trans hold)]

theorem recorded_report (s : Service) (now : ℕ) (input : SliceFaultInput) :
    Recorded s (s.call now (.reportSliceFault input)) now (.reportSliceFault input) := by
  obtain ⟨fault, hcall, hkey, hseen, hcount⟩ : ∃ fault,
      s.reportSliceFault now input = { s with faults := s.faults.put fault }.persist fault ∧
        fault.key = faultKey input ∧ fault.lastSeen = now ∧
        fault.count = ((s.faults.get (faultKey input)).map (·.count)).getD 0 + 1 := by
    rw [Service.reportSliceFault, Service.record]
    cases hget : s.faults.get (faultKey input) with
    | none => exact ⟨_, rfl, rfl, rfl, rfl⟩
    | some existing => exact ⟨_, rfl, s.faults.keyed _ existing hget, rfl, rfl⟩
  obtain ⟨hself, hothers, hlog⟩ := persist_spec s fault
  rw [hkey] at hself hothers hlog
  rw [Service.call, hcall]
  refine ⟨hothers, fun _ => ?_, nofun, fun _ _ => ⟨fault, hself, hseen, hcount⟩, nofun, nofun⟩
  rw [hlog, Call.key, hself]
  rfl

theorem recorded_clear (s : Service) (now : ℕ) (key : Text) :
    Recorded s (s.call now (.clearFault key)) now (.clearFault key) := by
  have hget : ∀ key', (s.faults.erase key).get key' =
      if key' = key then none else s.faults.get key' := get_erase _ _
  rw [Service.call, Service.clearFault]
  refine ⟨fun key' hkey => ?_, fun _ => ?_, nofun, nofun, nofun, fun _ _ => ?_⟩
  · exact (hget key').trans (if_neg hkey)
  · rw [KeyedWrites.log_enqueue]
    exact congrArg (fun op => s.persistence.log ++ [(key, StoreOp.of op)])
      ((hget key).trans (if_pos rfl)).symm
  · exact (hget key).trans (if_pos rfl)

theorem recorded_call (s : Service) (now : ℕ) (c : Call) : Recorded s (s.call now c) now c := by
  cases c with
  | reportSliceFault input => exact recorded_report s now input
  | markRepairAttempted key => exact recorded_mark rfl rfl fun _ => ⟨rfl, rfl, rfl⟩
  | markRepairFailed key message => exact recorded_mark rfl rfl fun _ => ⟨rfl, rfl, rfl⟩
  | markRepairBlocked key reason details => exact recorded_mark rfl rfl fun _ => ⟨rfl, rfl, rfl⟩
  | clearFault key => exact recorded_clear s now key

/-- A write keeps its place behind those that were queued before. -/
theorem log_steps {s' : Service} (h : Steps machine s s') :
    s.persistence.log <+: s'.persistence.log := by
  induction h with
  | refl => exact List.prefix_refl _
  | @step s' e h he ih =>
    refine ih.trans ?_
    cases e with
    | call now c => exact log_call s' now c
    | write e => exact (KeyedWrites.log_next s'.persistence e).symm ▸ List.prefix_refl _

/-- No write is stuck behind another one. -/
theorem write_goes_on (h : Reachable machine s)
    (hrunning : ∃ w ∈ s.persistence.writes, w.stage ≠ .finished) : ∃ n,
      machine.Enabled s (.write (.start n)) ∨ machine.Enabled s (.write (.apply n)) ∨
        machine.Enabled s (.write (.finish n)) := by
  obtain ⟨base, hkept, -⟩ := converging_of_reachable h
  exact KeyedWrites.exists_enabled hkept.toOrdered hrunning

/-- Each call queues what it makes of its fault, and the writes of a fault run one at a time as
they were queued. Once they have finished the store tells the fault as it is in memory, and it
does not come back after its row was deleted unless a later write brings it. -/
theorem faultStore_converges (h : Reachable machine s) :
    (∀ now c, Recorded s (s.call now c) now c) ∧
    (∀ s', Steps machine s s' → s.persistence.log <+: s'.persistence.log) ∧
    (∀ (i n : ℕ) (v w : KeyedWrites.Write Text StoreOp), i < n →
      s.persistence.writes[i]? = some v → s.persistence.writes[n]? = some w → v.key = w.key →
      w.stage ≠ .waiting → v.stage = .finished) ∧
    (∀ key, (∀ w ∈ s.persistence.writes, w.key = key → w.stage = .finished) →
      Agrees key (s.persistence.store key) (s.faults.get key)) ∧
    (∀ (n : ℕ) (w : KeyedWrites.Write Text StoreOp), s.persistence.writes[n]? = some w →
      w.op = .deleteFault → w.stage.isApplied →
      (∀ (i : ℕ) (v : KeyedWrites.Write Text StoreOp), n < i →
        s.persistence.writes[i]? = some v → v.key = w.key → v.stage.isApplied = false) →
      s.persistence.store w.key = none) := by
  obtain ⟨base, hkept, hagrees⟩ := converging_of_reachable h
  refine ⟨recorded_call s, fun _ => log_steps, hkept.serial, fun key hfinished => ?_,
    fun n w hw hop happlied hlast => ?_⟩
  · rw [hkept.store_eq hfinished]
    exact hagrees key
  · obtain ⟨row, hrow⟩ := hkept.store_last hw happlied hlast
    rw [hrow, hop]
    rfl

/-- A read fails twice and the fault is cleared. Only then do its writes begin. -/
def clearedBeforeWritten : List Event :=
  let input : SliceFaultInput := ⟨"a".toList, 0, some 3, .read, some "EIO".toList, none, none⟩
  [.call 1 (.reportSliceFault input), .call 2 (.reportSliceFault input),
    .call 3 (.clearFault (faultKey input)), .write (.start 0), .write (.apply 0),
    .write (.finish 0), .write (.start 1), .write (.apply 1), .write (.finish 1),
    .write (.start 2), .write (.apply 2), .write (.finish 2)]

def emptyService : Service := ⟨.empty, [], fun _ => none, fun _ => none⟩

theorem faultStore_converges_cleared :
    let s := clearedBeforeWritten.foldl machine.next emptyService
    (∀ w ∈ s.persistence.writes, w.stage = .finished) ∧
      Agrees "3:a:0".toList (s.persistence.store "3:a:0".toList) (s.faults.get "3:a:0".toList) := by
  have hinitial : machine.Initial emptyService := ⟨rfl, fun _ => rfl, fun _ => trivial⟩
  have hreach := (Reachable.initial hinitial).run clearedBeforeWritten (by decide +kernel)
  have hfinished : ∀ w ∈ (clearedBeforeWritten.foldl machine.next emptyService).persistence.writes,
      w.stage = .finished := by decide +kernel
  exact ⟨hfinished, (faultStore_converges hreach).2.2.2.1 _ fun w hw _ => hfinished w hw⟩

end RemediationService
