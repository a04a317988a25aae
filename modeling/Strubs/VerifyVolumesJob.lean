import Strubs.AwaitedCalls
import Strubs.FirstOfClass

/-! # Starting, parking and stopping a verify

One run is active at a time. What it is about is persisted, so that it goes on after a restart or
once a rebalance has handed back the disks, and not after it was stopped. A run that does not end
when it is stopped is abandoned, and may wake up at any later time. -/
namespace VerifyVolumesJob

open AwaitedCalls FirstOfClass StateMachine

inductive VerifyMode where
  | full
  | light
  deriving DecidableEq

/-- What a run is about: since when objects are verified, on which volumes if not on all of them,
and how. -/
structure Scope where
  startedAt : ℕ
  volumeIds : Option (List ℕ)
  mode : VerifyMode
  deriving DecidableEq

/-- The handle of a run. -/
structure Run where
  token : ℕ
  cursorId : Option ℕ
  startedAt : ℕ
  mode : VerifyMode
  deriving DecidableEq

/-- A start comes with the time at which what it asks for will be persisted. -/
inductive Request where
  | start (volumeIds : Option (List ℕ)) (mode : Option VerifyMode) (now : ℕ)
  | resumePendingJob
  | pauseForRebalance
  | releaseForRebalance
  | stop (preserveState : Bool)
  deriving DecidableEq

/-- Which of a start and of a stop that does not preserve the state was called last. -/
inductive Asked where
  | start
  | stop
  deriving DecidableEq

/-- The promise of the active run comes and goes with its token. -/
structure Job where
  activeRun : Option ℕ
  runToken : ℕ
  /-- The runs whose handle says that they are cancelled. -/
  cancelled : List ℕ
  /-- The runs whose promise has settled. -/
  settled : List ℕ
  abandoned : List ℕ
  startedAt : Option ℕ
  volumeFilter : Option (List ℕ)
  currentMode : VerifyMode
  startGuard : Bool
  waitingForRebalance : Bool
  blockedByRebalance : Bool
  verifyStartedAt : Option ℕ
  verifyVolumeIds : Option (List ℕ)
  verifyCursorId : Option ℕ
  verifyMode : Option VerifyMode
  /-- What the run is about that is queued behind a rebalance. -/
  queued : Option Scope
  /-- The active run has come to its natural completion. -/
  finalizing : Bool
  asked : Option Asked
  /-- A stop that does not preserve the state has returned, and no start was called since. -/
  stopReturned : Bool
  deriving DecidableEq

/-- Where a run is. It says when it settles whether it had completed. -/
inductive Point where
  | resetVolumeCounters
  | isFrozen
  | fetchBatch
  | verifyBatch (last : Option ℕ)
  | setCursorId (last : ℕ)
  | deleteStartedAt
  | deleteVolumeIds
  | deleteCursorId
  | deleteMode
  | recordFinish
  | setLastVerify
  | settles (completed : Bool)
  deriving DecidableEq

/-- What loads a run that is persisted. -/
inductive Loader where
  | start
  | resume
  deriving DecidableEq

/-- A pause remembers what the run is about that it parks. -/
inductive Phase where
  | startFrozen (volumeIds : Option (List ℕ)) (mode : Option VerifyMode) (now : ℕ)
  | startExisting (requested : Scope)
  | loadVolumeIds (loader : Loader) (existing : ℕ)
  | loadCursorId (loader : Loader) (existing : ℕ) (volumeIds : Option (List ℕ))
  | loadMode (loader : Loader) (existing : ℕ) (volumeIds : Option (List ℕ)) (cursorId : Option ℕ)
  | countObjects (loader : Loader) (persisted : Scope) (cursorId : Option ℕ)
  | persistVolumeIds (requested : Scope)
  | persistMode (requested : Scope)
  | persistCursorId (requested : Scope)
  | persistStartedAt (requested : Scope)
  | recordRunStart (requested : Scope)
  | resumeFrozen
  | resumeExisting
  | stopDrains (token : ℕ) (startedAt : Option ℕ) (preserveState : Bool)
  | stopRecords
  | stopStartedAt
  | stopVolumeIds
  | stopCursorId
  | stopMode
  | pauseDrains (token : ℕ) (parked : Option Scope)
  | run (run : Run) (point : Point)
  deriving DecidableEq

/-- A call that is rejected may have been applied all the same. A batch that is empty has no last
object, and that of one that is not may lack an identifier. -/
inductive Reply where
  | ok
  | failed (applied : Bool)
  | frozen (frozen : Bool)
  | startedAt (stored : Option ℕ)
  | volumeIds (stored : Option (List ℕ))
  | cursorId (stored : Option ℕ)
  | mode (stored : Option VerifyMode)
  | count (objects : ℕ)
  | batch (last : Option (Option ℕ))
  | verified
  | interrupted (aborted : Bool)
  | drained
  | timedOut
  deriving DecidableEq

def normalizeVolumeIds (value : Option (List ℕ)) : Option (List ℕ) :=
  match firsts id (value.getD []) with
  | [] => none
  | ids => some ids

def normalizeMode (value : Option VerifyMode) : VerifyMode :=
  if value = some .light then .light else .full

def applyVolumeFilter (volumeIds : Option (List ℕ)) : Option (List ℕ) :=
  match volumeIds.getD [] with
  | [] => none
  | ids => some ids

/-- What was normalized stays as it is. -/
def Normal (volumeIds : Option (List ℕ)) : Prop := normalizeVolumeIds volumeIds = volumeIds

theorem normal_normalizeVolumeIds (value : Option (List ℕ)) :
    Normal (normalizeVolumeIds value) := by
  unfold Normal
  cases h : firsts id (value.getD []) with
  | nil =>
    have hvalue : normalizeVolumeIds value = none := by rw [normalizeVolumeIds, h]
    rw [hvalue]
    rfl
  | cons first ids =>
    have hvalue : normalizeVolumeIds value = some (first :: ids) := by rw [normalizeVolumeIds, h]
    have hnodup : ((first :: ids).map id).Nodup := h ▸ nodup_firsts (value.getD [])
    rw [hvalue, normalizeVolumeIds, Option.getD_some, firsts_of_nodup hnodup]

theorem Normal.applyVolumeFilter {volumeIds : Option (List ℕ)} (h : Normal volumeIds) :
    applyVolumeFilter volumeIds = volumeIds := by
  match volumeIds, h with
  | none, _ => rfl
  | some (_ :: _), _ => rfl
  | some [], h => cases h

theorem normalizeMode_persisted (mode : VerifyMode) :
    normalizeMode (if mode = .light then some .light else none) = mode := by
  cases mode <;> rfl

/-- What a call does to the persisted state. -/
def write (job : Job) : Phase → Job
  | .persistVolumeIds requested =>
    { job with verifyVolumeIds := applyVolumeFilter requested.volumeIds }
  | .persistMode requested =>
    { job with verifyMode := if requested.mode = .light then some .light else none }
  | .persistCursorId _ => { job with verifyCursorId := none }
  | .persistStartedAt requested => { job with verifyStartedAt := some requested.startedAt }
  | .stopStartedAt => { job with verifyStartedAt := none }
  | .stopVolumeIds => { job with verifyVolumeIds := none }
  | .stopCursorId => { job with verifyCursorId := none }
  | .stopMode => { job with verifyMode := none }
  | .run _ (.setCursorId last) => { job with verifyCursorId := some last }
  | .run _ .deleteStartedAt => { job with verifyStartedAt := none }
  | .run _ .deleteVolumeIds => { job with verifyVolumeIds := none }
  | .run _ .deleteCursorId => { job with verifyCursorId := none }
  | .run _ .deleteMode => { job with verifyMode := none }
  | _ => job

/-- The answers of a call that is not rejected. A run has drained when its promise has settled,
and what waits for that may lose its patience at any time. -/
def expects (job : Job) : Phase → Reply → Bool
  | .startFrozen _ _ _, .frozen _ => true
  | .startExisting _, .startedAt stored => stored = job.verifyStartedAt
  | .loadVolumeIds _ _, .volumeIds stored => stored = job.verifyVolumeIds
  | .loadCursorId _ _ _, .cursorId stored => stored = job.verifyCursorId
  | .loadMode _ _ _ _, .mode stored => stored = job.verifyMode
  | .countObjects _ _ _, .count _ => true
  | .persistVolumeIds _, .ok => true
  | .persistMode _, .ok => true
  | .persistCursorId _, .ok => true
  | .persistStartedAt _, .ok => true
  | .recordRunStart _, .ok => true
  | .resumeFrozen, .frozen _ => true
  | .resumeExisting, .startedAt stored => stored = job.verifyStartedAt
  | .stopDrains token _ _, .drained => token ∈ job.settled
  | .stopDrains _ _ _, .timedOut => true
  | .stopRecords, .ok => true
  | .stopStartedAt, .ok => true
  | .stopVolumeIds, .ok => true
  | .stopCursorId, .ok => true
  | .stopMode, .ok => true
  | .pauseDrains token _, .drained => token ∈ job.settled
  | .pauseDrains _ _, .timedOut => true
  | .run _ point, reply =>
    match point, reply with
    | .isFrozen, .frozen _ => true
    | .fetchBatch, .batch _ => true
    | .verifyBatch _, .verified => true
    | .verifyBatch _, .interrupted _ => true
    | .resetVolumeCounters, .ok => true
    | .setCursorId _, .ok => true
    | .deleteStartedAt, .ok => true
    | .deleteVolumeIds, .ok => true
    | .deleteCursorId, .ok => true
    | .deleteMode, .ok => true
    | .recordFinish, .ok => true
    | .setLastVerify, .ok => true
    | .settles _, .ok => true
    | _, _ => false
  | _, _ => false

def fails : Phase → Bool
  | .stopDrains _ _ _ => false
  | .pauseDrains _ _ => false
  | .run _ (.settles _) => false
  | _ => true

def Reply.rejected : Reply → Option Bool
  | .failed applied => some applied
  | _ => none

def answer (phase : Phase) (reply : Reply) (job : Job) : Option Job :=
  stored job (write job phase) (expects job phase reply) (fails phase) reply.rejected

/-! ## What runs -/

def rest (job : Job) : Job :=
  { job with activeRun := none, startedAt := none, volumeFilter := none, currentMode := .full }

/-- The active run comes to its natural completion, unless it was cancelled. -/
def leave (run : Run) (completed : Bool) (job : Job) : Job × Option Phase :=
  if completed && run.token ∉ job.cancelled && job.activeRun = some run.token then
    ({ job with finalizing := true }, some (.run run .deleteStartedAt))
  else (job, some (.run run (.settles false)))

def nextBatch (run : Run) (job : Job) : Job × Option Phase :=
  if run.token ∈ job.cancelled then leave run false job else (job, some (.run run .isFrozen))

def advanceCursor (run : Run) (last : Option ℕ) (job : Job) : Job × Option Phase :=
  match last with
  | none => nextBatch run job
  | some cursorId =>
    if job.activeRun = some run.token then
      (job, some (.run { run with cursorId := some cursorId } (.setCursorId cursorId)))
    else nextBatch { run with cursorId := some cursorId } job

def settle (run : Run) (job : Job) : Job :=
  if job.activeRun = some run.token then rest { job with settled := run.token :: job.settled }
  else { job with settled := run.token :: job.settled }

def resumeRun (run : Run) (point : Point) (reply : Reply) (job : Job) : Job × Option Phase :=
  match point, reply with
  | .resetVolumeCounters, .ok => nextBatch run job
  | .isFrozen, .frozen false => (job, some (.run run .fetchBatch))
  | .fetchBatch, .batch none => leave run true job
  | .fetchBatch, .batch (some last) => (job, some (.run run (.verifyBatch last)))
  | .verifyBatch last, .verified =>
    if run.token ∈ job.cancelled then leave run false job else advanceCursor run last job
  -- an I/O shutdown cancels the run itself
  | .verifyBatch _, .interrupted true =>
    leave run false { job with cancelled := run.token :: job.cancelled }
  | .setCursorId _, .ok => nextBatch run job
  | .deleteStartedAt, .ok => (job, some (.run run .deleteVolumeIds))
  | .deleteVolumeIds, .ok => (job, some (.run run .deleteCursorId))
  | .deleteCursorId, .ok => (job, some (.run run .deleteMode))
  | .deleteMode, .ok => (job, some (.run run .recordFinish))
  | .deleteStartedAt, _ => (job, some (.run run (.settles true)))
  | .deleteVolumeIds, _ => (job, some (.run run (.settles true)))
  | .deleteCursorId, _ => (job, some (.run run (.settles true)))
  | .deleteMode, _ => (job, some (.run run (.settles true)))
  -- a targeted run leaves alone when all was verified last
  | .recordFinish, _ =>
    (job, some (.run run (if job.volumeFilter = none then .setLastVerify else .settles true)))
  | .setLastVerify, _ => (job, some (.run run (.settles true)))
  | .settles _, _ => (settle run job, none)
  | _, _ => leave run false job

/-- A run that is resumed does not reset the counters of its volumes. -/
def launch (isResume : Bool) (scope : Scope) (cursorId : Option ℕ) (job : Job) :
    Job × Option Phase :=
  if job.activeRun.isSome then (job, none)
  else
    let token := job.runToken + 1
    let job := { job with
      waitingForRebalance := false
      startedAt := some scope.startedAt
      currentMode := scope.mode
      volumeFilter := applyVolumeFilter scope.volumeIds
      runToken := token
      activeRun := some token
      finalizing := false }
    let run : Run := ⟨token, cursorId, scope.startedAt, scope.mode⟩
    if isResume then nextBatch run job else (job, some (.run run .resetVolumeCounters))

def unguard (job : Job) : Job := { job with startGuard := false }

/-! ## What starts, resumes, parks and stops a run -/

def persisted (job : Job) (startedAt : ℕ) : Scope :=
  ⟨startedAt, normalizeVolumeIds job.verifyVolumeIds, normalizeMode job.verifyMode⟩

def queue (scope : Scope) (job : Job) : Job :=
  { job with waitingForRebalance := true, queued := some scope }

/-- The run is launched now, or when the rebalance has ended. -/
def deferOrLaunch (isResume : Bool) (scope : Scope) (cursorId : Option ℕ) (job : Job) :
    Job × Option Phase :=
  if job.blockedByRebalance then (queue scope job, none) else launch isResume scope cursorId job

/-- What was guarded ends, be it with a run. -/
def guarded (result : Job × Option Phase) : Job × Option Phase := (unguard result.1, result.2)

/-- A run that has not drained in time is abandoned. -/
def drain (token : ℕ) (reply : Reply) (job : Job) : Job :=
  if reply = .timedOut ∧ job.activeRun = some token then
    rest { job with abandoned := token :: job.abandoned }
  else job

def stopReturns (job : Job) : Job := { job with stopReturned := job.asked = some .stop }

def resume (phase : Phase) (reply : Reply) (job : Job) : Job × Option Phase :=
  match phase, reply with
  | .startFrozen volumeIds mode now, .frozen false =>
    if job.activeRun.isSome || job.startGuard then (job, none)
    else
      ({ job with startGuard := true },
        some (.startExisting ⟨now, normalizeVolumeIds volumeIds, normalizeMode mode⟩))
  | .startExisting _, .startedAt (some existing) =>
    (job, some (.loadVolumeIds .start existing))
  | .startExisting requested, .startedAt none => (job, some (.persistVolumeIds requested))
  | .loadVolumeIds loader existing, .volumeIds stored =>
    (job, some (.loadCursorId loader existing (normalizeVolumeIds stored)))
  | .loadCursorId loader existing volumeIds, .cursorId stored =>
    (job, some (.loadMode loader existing volumeIds stored))
  | .loadMode loader existing volumeIds cursorId, .mode stored =>
    (job, some (.countObjects loader ⟨existing, volumeIds, normalizeMode stored⟩ cursorId))
  | .countObjects .start scope cursorId, _ => guarded (deferOrLaunch true scope cursorId job)
  -- a resume has looked whether there is a rebalance before it loaded what is persisted
  | .countObjects .resume scope cursorId, _ => guarded (launch true scope cursorId job)
  | .persistVolumeIds requested, .ok => (job, some (.persistMode requested))
  | .persistMode requested, .ok => (job, some (.persistCursorId requested))
  | .persistCursorId requested, .ok => (job, some (.persistStartedAt requested))
  | .persistStartedAt requested, .ok => (job, some (.recordRunStart requested))
  | .recordRunStart requested, .ok => guarded (deferOrLaunch false requested none job)
  | .resumeFrozen, .frozen false => ({ job with startGuard := true }, some .resumeExisting)
  | .resumeExisting, .startedAt (some existing) =>
    if job.blockedByRebalance then guarded (queue (persisted job existing) job, none)
    else (job, some (.loadVolumeIds .resume existing))
  | .startFrozen _ _ _, _ => (job, none)
  | .resumeFrozen, _ => (job, none)
  | .stopDrains token startedAt preserveState, reply =>
    (drain token reply job,
      if preserveState then none
      else if startedAt.isSome then some .stopRecords
      else some .stopStartedAt)
  | .stopRecords, _ => (job, some .stopStartedAt)
  | .stopStartedAt, .ok => (job, some .stopVolumeIds)
  | .stopVolumeIds, .ok => (job, some .stopCursorId)
  | .stopCursorId, .ok => (job, some .stopMode)
  | .stopMode, .ok => (stopReturns job, none)
  | .stopStartedAt, _ => (job, none)
  | .stopVolumeIds, _ => (job, none)
  | .stopCursorId, _ => (job, none)
  | .stopMode, _ => (job, none)
  | .pauseDrains token parked, reply =>
    ({ drain token reply job with waitingForRebalance := true, queued := parked }, none)
  | .run run point, reply => resumeRun run point reply job
  | _, _ => (unguard job, none)

/-- What the active run is about. -/
def current (job : Job) : Option Scope :=
  job.startedAt.map fun startedAt => ⟨startedAt, job.volumeFilter, job.currentMode⟩

def resumePendingJob (job : Job) : Job × Option Phase :=
  if job.activeRun.isSome || job.startGuard then (job, none) else (job, some .resumeFrozen)

def cancelRun (token : ℕ) (job : Job) : Job := { job with cancelled := token :: job.cancelled }

def call (request : Request) (job : Job) : Job × Option Phase :=
  match request with
  | .start volumeIds mode now =>
    ({ job with asked := some .start, stopReturned := false },
      some (.startFrozen volumeIds mode now))
  | .resumePendingJob => resumePendingJob job
  | .releaseForRebalance => resumePendingJob { job with blockedByRebalance := false }
  | .pauseForRebalance =>
    let job := { job with blockedByRebalance := true }
    match job.activeRun with
    | none => (job, none)
    | some token => (cancelRun token job, some (.pauseDrains token (current job)))
  | .stop true =>
    match job.activeRun with
    | none => (job, none)
    | some token => (cancelRun token job, some (.stopDrains token job.startedAt true))
  | .stop false =>
    let job := { job with asked := some .stop }
    match job.activeRun with
    | none =>
      if job.waitingForRebalance then
        ({ job with waitingForRebalance := false }, some .stopStartedAt)
      else (stopReturns job, none)
    | some token => (cancelRun token job, some (.stopDrains token job.startedAt false))

def system : System Job Phase Reply Request where
  call := call
  answer := answer
  resume := resume

/-- A process that has just come up, whatever it finds persisted. -/
def Initial (job : Job) : Prop :=
  job.activeRun = none ∧ job.settled = [] ∧ job.abandoned = [] ∧ job.startGuard = false ∧
    job.waitingForRebalance = false ∧ job.asked = none ∧ job.stopReturned = false

end VerifyVolumesJob
