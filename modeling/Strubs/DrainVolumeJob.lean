import Strubs.AwaitedCalls

/-! # Starting and cancelling a drain

One volume is drained at a time. What is persisted says which one, so that it goes on after a
restart, and not once it was cancelled. -/
namespace DrainVolumeJob

open AwaitedCalls StateMachine

/-- How many slices are relocated at once, and whether there is a pause after each batch. -/
structure Config where
  concurrency : ℕ
  delays : Bool

inductive Request where
  | start (volumeId : ℕ)
  | resumePendingJob
  | cancel (volumeId : Option ℕ)
  | stop
  deriving DecidableEq

/-- The request that was accepted last, as far as it decides whether there should be a drain. -/
inductive Accepted where
  | start
  | resume
  | cancel
  deriving DecidableEq

structure Job where
  running : Bool
  claiming : Option ℕ
  cancelled : Bool
  aborted : Bool
  activeVolumeId : Option ℕ
  attemptedVolumeIds : List ℕ
  drainVolumeId : Option ℕ
  drainCursorId : Option ℕ
  /-- How many relocations were begun. -/
  begun : ℕ
  accepted : Option Accepted
  /-- The cancel that was accepted last has returned. -/
  cancelReturned : Bool
  deriving DecidableEq

/-- What a run awaits. -/
inductive Point where
  | relocateJournalOff
  | isFrozen
  | findObjectsOnVolume
  | processBatch (left inflight last : ℕ)
  | setCursor (last : ℕ)
  | delay
  | countObjectsOnVolume
  | deleteCursor
  | finalizeVolumeId (fullyDrained : Bool)
  | finalizeCursorId (fullyDrained : Bool)
  | countRemaining
  | markDrainComplete
  deriving DecidableEq

inductive Phase where
  | startVolumeId (volumeId : ℕ)
  | startCursorId (volumeId : ℕ)
  | resumeVolumeId
  | resumeFrozen (volumeId : ℕ)
  | resumeCursorId (volumeId : ℕ)
  | cancelPending (volumeId : ℕ)
  | cancelVolumeId
  | cancelCursorId
  | run (volumeId : ℕ) (prevRemaining : Option ℕ) (point : Point)
  | clearVolumeId (volumeId : ℕ) (completed : Bool)
  | clearCursorId (volumeId : ℕ) (completed : Bool)
  | nextFrozen (afterVolumeId : ℕ)
  | nextVolumeId (volumeId : ℕ)
  | nextCursorId (volumeId : ℕ)
  deriving DecidableEq

/-- A call that is rejected may have been applied all the same. Whether the array is frozen is
told with the volumes that are flagged for draining by then, and what was found with the last
object of it. -/
inductive Reply where
  | ok
  | failed (applied : Bool)
  | value (v : Option ℕ)
  | frozen (frozen : Bool) (flagged : List ℕ)
  | found (docs last : ℕ)
  | relocated
  | remaining (n : ℕ)
  deriving DecidableEq

/-- What a call does to the persisted state. -/
def write (job : Job) : Phase → Job
  | .startVolumeId volumeId => { job with drainVolumeId := some volumeId }
  | .startCursorId _ => { job with drainCursorId := none }
  | .cancelVolumeId => { job with drainVolumeId := none }
  | .cancelCursorId => { job with drainCursorId := none }
  | .run _ _ (.setCursor last) => { job with drainCursorId := some last }
  | .run _ _ .deleteCursor => { job with drainCursorId := none }
  | .run _ _ (.finalizeVolumeId _) => { job with drainVolumeId := none }
  | .run _ _ (.finalizeCursorId _) => { job with drainCursorId := none }
  | .clearVolumeId _ _ => { job with drainVolumeId := none }
  | .clearCursorId _ _ => { job with drainCursorId := none }
  | .nextVolumeId volumeId => { job with drainVolumeId := some volumeId }
  | .nextCursorId _ => { job with drainCursorId := none }
  | _ => job

/-- The answers of a call that is not rejected. -/
def expects (job : Job) : Phase → Reply → Bool
  | .resumeVolumeId, .value v => v = job.drainVolumeId
  | .resumeFrozen _, .frozen _ _ => true
  | .resumeCursorId _, .value v => v = job.drainCursorId
  | .cancelPending _, .value v => v = job.drainVolumeId
  | .nextFrozen _, .frozen _ _ => true
  | .run _ _ point, reply =>
    match point, reply with
    | .isFrozen, .frozen _ _ => true
    | .findObjectsOnVolume, .found _ _ => true
    | .processBatch _ inflight _, .relocated => 0 < inflight
    | .countObjectsOnVolume, .remaining _ => true
    | .countRemaining, .remaining _ => true
    | .relocateJournalOff, .ok => true
    | .setCursor _, .ok => true
    | .delay, .ok => true
    | .deleteCursor, .ok => true
    | .finalizeVolumeId _, .ok => true
    | .finalizeCursorId _, .ok => true
    | .markDrainComplete, .ok => true
    | _, _ => false
  | .startVolumeId _, .ok => true
  | .startCursorId _, .ok => true
  | .cancelVolumeId, .ok => true
  | .cancelCursorId, .ok => true
  | .clearVolumeId _ _, .ok => true
  | .clearCursorId _ _, .ok => true
  | .nextVolumeId _, .ok => true
  | .nextCursorId _, .ok => true
  | _, _ => false

/-- A relocation that fails is one that has ended, and a pause does not fail. -/
def fails : Phase → Bool
  | .run _ _ (.processBatch _ _ _) => false
  | .run _ _ .delay => false
  | _ => true

def Reply.rejected : Reply → Option Bool
  | .failed applied => some applied
  | _ => none

def answer (phase : Phase) (reply : Reply) (job : Job) : Option Job :=
  stored job (write job phase) (expects job phase reply) (fails phase) reply.rejected

/-- The singleton is claimed before anything is awaited. -/
def run (volumeId : ℕ) (job : Job) : Job × Option Phase :=
  if job.running then (job, none)
  else
    ({ job with
      running := true
      cancelled := false
      aborted := false
      activeVolumeId := some volumeId
      attemptedVolumeIds := volumeId :: job.attemptedVolumeIds },
    some (.run volumeId none .relocateJournalOff))

def continueToNextFlagged (afterVolumeId : ℕ) (job : Job) : Job × Option Phase :=
  if job.cancelled || job.aborted then (job, none) else (job, some (.nextFrozen afterVolumeId))

def afterRun (volumeId : ℕ) (completed : Bool) (job : Job) : Job × Option Phase :=
  if completed && !job.cancelled && !job.aborted then continueToNextFlagged volumeId job
  else (job, none)

/-- The end of a run, whatever ends it. -/
def finish (volumeId : ℕ) (completed : Bool) (job : Job) : Job × Option Phase :=
  let job := { job with running := false, activeVolumeId := none }
  if job.aborted then (job, some (.clearVolumeId volumeId completed))
  else afterRun volumeId completed job

/-- Where a run looks whether it should go on. -/
def nextBatch (volumeId : ℕ) (prevRemaining : Option ℕ) (job : Job) : Job × Option Phase :=
  if job.aborted then finish volumeId false job
  else if job.cancelled then finish volumeId false job
  else (job, some (.run volumeId prevRemaining .isFrozen))

/-- Relocations are begun until there are as many as may be in the air at once, and none after
the run was cancelled. -/
def beginRelocations (cfg : Config) : ℕ → ℕ → Job → Job × ℕ × ℕ
  | 0, inflight, job => (job, 0, inflight)
  | left + 1, inflight, job =>
    if job.cancelled || job.aborted then (job, 0, inflight)
    else
      let job := { job with begun := job.begun + 1 }
      if cfg.concurrency ≤ inflight + 1 then (job, left, inflight + 1)
      else beginRelocations cfg left (inflight + 1) job

def processBatch (cfg : Config) (volumeId : ℕ) (prevRemaining : Option ℕ)
    (left inflight last : ℕ) (job : Job) : Job × Option Phase :=
  match beginRelocations cfg left inflight job with
  | (job, 0, 0) =>
    if job.aborted then finish volumeId false job
    else (job, some (.run volumeId prevRemaining (.setCursor last)))
  | (job, left, inflight) =>
    (job, some (.run volumeId prevRemaining (.processBatch left inflight last)))

def resumeRun (cfg : Config) (volumeId : ℕ) (prevRemaining : Option ℕ) (point : Point)
    (reply : Reply) (job : Job) : Job × Option Phase :=
  match point, reply with
  | .relocateJournalOff, .ok => nextBatch volumeId prevRemaining job
  | .relocateJournalOff, _ =>
    continueToNextFlagged volumeId { job with running := false, activeVolumeId := none }
  | .isFrozen, .frozen false _ => (job, some (.run volumeId prevRemaining .findObjectsOnVolume))
  | .findObjectsOnVolume, .found 0 _ =>
    (job, some (.run volumeId prevRemaining .countObjectsOnVolume))
  | .findObjectsOnVolume, .found docs last =>
    processBatch cfg volumeId prevRemaining docs 0 last job
  | .processBatch left inflight last, .relocated =>
    processBatch cfg volumeId prevRemaining left (inflight - 1) last job
  | .setCursor _, .ok =>
    if cfg.delays then (job, some (.run volumeId prevRemaining .delay))
    else nextBatch volumeId prevRemaining job
  | .delay, .ok => nextBatch volumeId prevRemaining job
  | .countObjectsOnVolume, .remaining n =>
    if n = 0 then (job, some (.run volumeId prevRemaining (.finalizeVolumeId true)))
    else if prevRemaining.any (· ≤ n) then
      (job, some (.run volumeId prevRemaining (.finalizeVolumeId false)))
    else (job, some (.run volumeId (some n) .deleteCursor))
  | .deleteCursor, .ok => nextBatch volumeId prevRemaining job
  | .finalizeVolumeId fullyDrained, .ok =>
    (job, some (.run volumeId prevRemaining (.finalizeCursorId fullyDrained)))
  | .finalizeCursorId fullyDrained, .ok =>
    (job, some (.run volumeId prevRemaining
      (if fullyDrained then .markDrainComplete else .countRemaining)))
  -- what fails from here on fails a drain that has been completed
  | .finalizeVolumeId _, _ => finish volumeId true job
  | .finalizeCursorId _, _ => finish volumeId true job
  | .countRemaining, _ => finish volumeId true job
  | .markDrainComplete, _ => finish volumeId true job
  | _, _ => finish volumeId false job

def beginCancel (job : Job) : Job × Option Phase :=
  ({ job with
    cancelled := true
    aborted := true
    accepted := some .cancel
    cancelReturned := false }, some .cancelVolumeId)

def resume (cfg : Config) (phase : Phase) (reply : Reply) (job : Job) : Job × Option Phase :=
  match phase, reply with
  | .startVolumeId volumeId, .ok => (job, some (.startCursorId volumeId))
  | .startCursorId volumeId, .ok => run volumeId { job with claiming := none }
  | .startVolumeId _, _ => ({ job with claiming := none }, none)
  | .startCursorId _, _ => ({ job with claiming := none }, none)
  | .resumeVolumeId, .value (some volumeId) => (job, some (.resumeFrozen volumeId))
  | .resumeFrozen volumeId, .frozen false _ => (job, some (.resumeCursorId volumeId))
  | .resumeCursorId volumeId, .value _ => run volumeId job
  -- another volume than the one that is drained, or would be, is left alone
  | .cancelPending volumeId, .value pending =>
    if (job.activeVolumeId.or pending).any (· ≠ volumeId) then (job, none) else beginCancel job
  | .cancelVolumeId, .ok => (job, some .cancelCursorId)
  | .cancelCursorId, .ok =>
    ({ job with cancelReturned := job.accepted = some .cancel }, none)
  | .run volumeId prevRemaining point, reply =>
    resumeRun cfg volumeId prevRemaining point reply job
  | .clearVolumeId volumeId completed, .ok => (job, some (.clearCursorId volumeId completed))
  | .clearVolumeId volumeId completed, _ => afterRun volumeId completed job
  | .clearCursorId volumeId completed, _ => afterRun volumeId completed job
  | .nextFrozen afterVolumeId, .frozen false flagged =>
    match flagged.find? fun id => id ≠ afterVolumeId && id ∉ job.attemptedVolumeIds with
    | some next => (job, some (.nextVolumeId next))
    | none => (job, none)
  | .nextVolumeId volumeId, .ok => (job, some (.nextCursorId volumeId))
  | .nextCursorId volumeId, .ok => run volumeId job
  | .resumeVolumeId, _ => (job, none)
  | .resumeFrozen _, _ => (job, none)
  | .resumeCursorId _, _ => (job, none)
  | .cancelPending _, _ => (job, none)
  | .cancelVolumeId, _ => (job, none)
  | .cancelCursorId, _ => (job, none)
  | .nextFrozen _, _ => (job, none)
  | .nextVolumeId _, _ => (job, none)
  | .nextCursorId _, _ => (job, none)

/-- A volume whose number is zero does not keep another start out. -/
def call (request : Request) (job : Job) : Job × Option Phase :=
  match request with
  | .start volumeId =>
    if job.running || job.claiming.any (· ≠ 0) then (job, none)
    else
      ({ job with
        claiming := some volumeId
        accepted := some .start
        cancelReturned := false }, some (.startVolumeId volumeId))
  | .resumePendingJob =>
    ({ job with accepted := some .resume, cancelReturned := false }, some .resumeVolumeId)
  | .cancel (some volumeId) => (job, some (.cancelPending volumeId))
  | .cancel none => beginCancel job
  | .stop => ({ job with cancelled := true }, none)

def system (cfg : Config) : System Job Phase Reply Request where
  call := call
  answer := answer
  resume := resume cfg

/-- A process that has just come up, whatever it finds persisted. -/
def Initial (job : Job) : Prop :=
  job.running = false ∧ job.claiming = none ∧ job.cancelled = false ∧ job.aborted = false ∧
    job.activeVolumeId = none ∧ job.accepted = none ∧ job.cancelReturned = false

def Phase.isCancel : Phase → Bool
  | .cancelPending _ => true
  | .cancelVolumeId => true
  | .cancelCursorId => true
  | _ => false

/-- What is going to run, be it a drain that was asked for, the pending one or the next one. -/
def Phase.launches : Phase → Bool
  | .startVolumeId _ => true
  | .startCursorId _ => true
  | .resumeVolumeId => true
  | .resumeFrozen _ => true
  | .resumeCursorId _ => true
  | .nextFrozen _ => true
  | .nextVolumeId _ => true
  | .nextCursorId _ => true
  | _ => false

/-- Where a run is refused or comes to its end, so that the next volume may follow. -/
def Phase.handsOver : Phase → Reply → Bool
  | .run _ _ .relocateJournalOff, reply => reply ≠ .ok
  | .run _ _ (.finalizeVolumeId _), reply => reply ≠ .ok
  | .run _ _ (.finalizeCursorId _), reply => reply ≠ .ok
  | .run _ _ .countRemaining, _ => true
  | .run _ _ .markDrainComplete, _ => true
  | _, _ => false

/-- A start that is not refused, and a resume, come when nothing else is under way, and a cancel
when nothing is that will run. The next volume does not follow while a cancel still asks which
one is pending. -/
def careful : Care Job Phase Reply Request where
  call
    | .start _, job, tasks => (job.running || job.claiming.any (· ≠ 0)) ∨ tasks = []
    | .resumePendingJob, _, tasks => tasks = []
    | .cancel _, _, tasks => ∀ t ∈ tasks, t.phase.launches = false
    | .stop, _, _ => True
  resume phase reply job others := job.cancelled = false → phase.handsOver reply →
    ∀ t ∈ others, t.phase.isCancel = false

/-- Whether a run has come to clear what is persisted. -/
def Point.cleared : Point → Option Reply → Bool
  | .finalizeVolumeId _, reply => reply.isSome
  | .finalizeCursorId _, _ => true
  | .countRemaining, _ => true
  | .markDrainComplete, _ => true
  | _, _ => false

/-- A run that is not winding up was started or resumed last, and none is left when nothing is
under way. When a cancel has returned no relocation is begun and nothing is persisted. Until a
run has come to its end what is persisted is its volume. -/
structure Settled (cfg : Config) (s : State Job Phase Reply) : Prop where
  running : s.job.running → s.job.cancelled = false →
    s.job.accepted = some .start ∨ s.job.accepted = some .resume
  idle : s.tasks = [] → s.job.running = false
  stopped : s.job.cancelReturned → ∀ e, ((system cfg).next s e).job.begun = s.job.begun
  cleared : s.job.cancelReturned → s.job.drainVolumeId = none
  persisted : ∀ t ∈ s.tasks, ∀ volumeId prevRemaining point,
    t.phase = .run volumeId prevRemaining point → s.job.aborted = false →
    point.cleared t.reply = false →
    s.job.running ∧ s.job.activeVolumeId = some volumeId ∧ s.job.drainVolumeId = some volumeId

/-! ## What holds all the time -/

structure Sound (job : Job) : Prop where
  cancel : job.accepted = some .cancel → job.cancelled ∧ job.aborted
  returned : job.cancelReturned → job.accepted = some .cancel ∧ job.drainVolumeId = none

/-- There is neither a run nor a cancel, and the last request was not to cancel. -/
structure Launching (job : Job) (alone : Prop) : Prop where
  running : job.running = false
  alone : alone
  cancel : job.accepted ≠ some .cancel
  accepted : job.accepted ≠ none

structure Draining (job : Job) (volumeId : ℕ) : Prop where
  running : job.running
  active : job.activeVolumeId = some volumeId
  claiming : job.claiming = none
  accepted : job.accepted ≠ none

/-- The task that runs, will run or did run, if there are no others or some that cancel. -/
def Fits (job : Job) (alone : Prop) (t : Task Phase Reply) : Prop :=
  match t.phase with
  | .startVolumeId volumeId => Launching job alone ∧ job.claiming = some volumeId ∧
      (t.reply = some .ok → job.drainVolumeId = some volumeId)
  | .startCursorId volumeId => Launching job alone ∧ job.claiming = some volumeId ∧
      job.drainVolumeId = some volumeId
  | .resumeVolumeId => Launching job alone ∧ job.claiming = none ∧
      ∀ v, t.reply = some (.value v) → v = job.drainVolumeId
  | .resumeFrozen volumeId => Launching job alone ∧ job.claiming = none ∧
      job.drainVolumeId = some volumeId
  | .resumeCursorId volumeId => Launching job alone ∧ job.claiming = none ∧
      job.drainVolumeId = some volumeId
  | .nextFrozen _ => Launching job alone ∧ job.claiming = none
  | .nextVolumeId volumeId => Launching job alone ∧ job.claiming = none ∧
      (t.reply = some .ok → job.drainVolumeId = some volumeId)
  | .nextCursorId volumeId => Launching job alone ∧ job.claiming = none ∧
      job.drainVolumeId = some volumeId
  | .run volumeId _ point => Draining job volumeId ∧ (job.aborted = false →
      point.cleared t.reply = false → job.drainVolumeId = some volumeId)
  | .clearVolumeId _ _ => job.running = false ∧ job.claiming = none ∧ job.aborted
  | .clearCursorId _ _ => job.running = false ∧ job.claiming = none ∧ job.aborted
  | _ => False

def MainFits (job : Job) (alone : Prop) : Option (Task Phase Reply) → Prop
  | none => job.running = false ∧ job.claiming = none
  | some t => Fits job alone t

def CancelFits (job : Job) (t : Task Phase Reply) : Prop :=
  match t.phase with
  | .cancelPending _ => True
  | .cancelVolumeId => job.accepted = some .cancel ∧
      (t.reply = some .ok → job.drainVolumeId = none)
  | .cancelCursorId => job.accepted = some .cancel ∧ job.drainVolumeId = none
  | _ => False

variable {cfg : Config} {job : Job} {alone : Prop} {volumeId : ℕ} {prevRemaining : Option ℕ}

theorem Fits.mono {alone' : Prop} {t : Task Phase Reply} (h : Fits job alone t)
    (halone : alone → alone') : Fits job alone' t := by
  obtain ⟨phase, reply⟩ := t
  have hlaunch (hl : Launching job alone) : Launching job alone' :=
    ⟨hl.running, halone hl.alone, hl.cancel, hl.accepted⟩
  cases phase with
  | startVolumeId _ => exact ⟨hlaunch h.1, h.2⟩
  | startCursorId _ => exact ⟨hlaunch h.1, h.2⟩
  | resumeVolumeId => exact ⟨hlaunch h.1, h.2⟩
  | resumeFrozen _ => exact ⟨hlaunch h.1, h.2⟩
  | resumeCursorId _ => exact ⟨hlaunch h.1, h.2⟩
  | nextFrozen _ => exact ⟨hlaunch h.1, h.2⟩
  | nextVolumeId _ => exact ⟨hlaunch h.1, h.2⟩
  | nextCursorId _ => exact ⟨hlaunch h.1, h.2⟩
  | run _ _ _ => exact h
  | clearVolumeId _ _ => exact h
  | clearCursorId _ _ => exact h
  | cancelPending _ => exact h.elim
  | cancelVolumeId => exact h.elim
  | cancelCursorId => exact h.elim

theorem MainFits.mono {alone' : Prop} {main : Option (Task Phase Reply)}
    (h : MainFits job alone main) (halone : alone → alone') : MainFits job alone' main := by
  cases main with
  | none => exact h
  | some t => exact Fits.mono h halone

def roles : Roles Job Phase Reply := ⟨Sound, MainFits, CancelFits, fun h => h.mono⟩

/-- What becomes of the main task when it goes on. The cancels notice nothing of it. -/
structure Goes (job : Job) (alone : Prop) (result : Job × Option Phase) : Prop where
  sound : Sound result.1
  fits : MainFits result.1 alone (result.2.map (⟨·, none⟩))
  accepted : result.1.accepted = job.accepted
  drainVolumeId : result.1.drainVolumeId = job.drainVolumeId

theorem run_goes (h : Sound job) (hlaunch : Launching job alone) (hclaim : job.claiming = none)
    (hvolume : job.drainVolumeId = some volumeId) : Goes job alone (run volumeId job) := by
  rw [run, if_neg (by rw [hlaunch.running]; exact Bool.false_ne_true)]
  refine ⟨⟨fun hcancel => absurd hcancel hlaunch.cancel, h.returned⟩, ?_, rfl, rfl⟩
  exact ⟨⟨rfl, rfl, hclaim, hlaunch.accepted⟩, fun _ _ => hvolume⟩

theorem continueToNextFlagged_goes (h : Sound job) (hrunning : job.running = false)
    (hclaim : job.claiming = none) (haccepted : job.accepted ≠ none)
    (halone : job.cancelled = false → alone) :
    Goes job alone (continueToNextFlagged volumeId job) := by
  rw [continueToNextFlagged]
  split
  · exact ⟨h, ⟨hrunning, hclaim⟩, rfl, rfl⟩
  · next hgo =>
    rw [Bool.or_eq_true, not_or, Bool.not_eq_true, Bool.not_eq_true] at hgo
    refine ⟨h, ⟨⟨hrunning, halone hgo.1, fun hcancel => ?_, haccepted⟩, hclaim⟩, rfl, rfl⟩
    exact absurd (h.cancel hcancel).1 (by rw [hgo.1]; exact Bool.false_ne_true)

theorem finish_goes {completed : Bool} (h : Sound job) (hclaim : job.claiming = none)
    (haccepted : job.accepted ≠ none) (halone : completed → job.cancelled = false → alone) :
    Goes job alone (finish volumeId completed job) := by
  have hsound : Sound { job with running := false, activeVolumeId := none } :=
    ⟨h.cancel, h.returned⟩
  unfold finish
  dsimp only
  split
  · next haborted => exact ⟨hsound, ⟨rfl, hclaim, haborted⟩, rfl, rfl⟩
  · rw [afterRun]
    split
    · next hgo =>
      rw [Bool.and_eq_true, Bool.and_eq_true] at hgo
      have hgoes : Goes { job with running := false, activeVolumeId := none } alone
          (continueToNextFlagged volumeId { job with running := false, activeVolumeId := none }) :=
        continueToNextFlagged_goes hsound rfl hclaim haccepted (halone hgo.1.1)
      exact ⟨hgoes.sound, hgoes.fits, hgoes.accepted, hgoes.drainVolumeId⟩
    · exact ⟨hsound, ⟨rfl, hclaim⟩, rfl, rfl⟩

theorem nextBatch_goes (h : Sound job) (hdraining : Draining job volumeId)
    (hvolume : job.aborted = false → job.drainVolumeId = some volumeId) :
    Goes job alone (nextBatch volumeId prevRemaining job) := by
  have hfinish : Goes job alone (finish volumeId false job) :=
    finish_goes h hdraining.claiming hdraining.accepted nofun
  rw [nextBatch]
  split
  · exact hfinish
  · split
    · exact hfinish
    · exact ⟨h, ⟨hdraining, fun haborted _ => hvolume haborted⟩, rfl, rfl⟩

/-- Relocations are all that a batch begins, and none in a run that was cancelled. -/
theorem beginRelocations_job (cfg : Config) (left inflight : ℕ) (job : Job) : ∃ n,
    (beginRelocations cfg left inflight job).1 = { job with begun := n } ∧
      (job.cancelled → n = job.begun) := by
  induction left generalizing inflight job with
  | zero => exact ⟨job.begun, rfl, fun _ => rfl⟩
  | succ left ih =>
    rw [beginRelocations]
    split
    · exact ⟨job.begun, rfl, fun _ => rfl⟩
    · next hgo =>
      rw [Bool.or_eq_true, not_or] at hgo
      simp only
      split
      · exact ⟨job.begun + 1, rfl, fun hcancelled => absurd hcancelled hgo.1⟩
      · obtain ⟨n, hn, -⟩ := ih (inflight + 1) { job with begun := job.begun + 1 }
        exact ⟨n, hn, fun hcancelled => absurd hcancelled hgo.1⟩

theorem processBatch_goes {left inflight last : ℕ} (h : Sound job)
    (hdraining : Draining job volumeId)
    (hvolume : job.aborted = false → job.drainVolumeId = some volumeId) :
    Goes job alone (processBatch cfg volumeId prevRemaining left inflight last job) := by
  obtain ⟨n, hn, -⟩ := beginRelocations_job cfg left inflight job
  rw [processBatch]
  have hsound : Sound { job with begun := n } := ⟨h.cancel, h.returned⟩
  have hdraining' : Draining { job with begun := n } volumeId :=
    ⟨hdraining.running, hdraining.active, hdraining.claiming, hdraining.accepted⟩
  split
  · next job' heq =>
    rw [heq] at hn
    subst hn
    split
    · have hgoes : Goes { job with begun := n } alone
          (finish volumeId false { job with begun := n }) :=
        finish_goes hsound hdraining.claiming hdraining.accepted nofun
      exact ⟨hgoes.sound, hgoes.fits, hgoes.accepted, hgoes.drainVolumeId⟩
    · exact ⟨hsound, ⟨hdraining', fun haborted _ => hvolume haborted⟩, rfl, rfl⟩
  · next job' left' inflight' _ heq =>
    rw [heq] at hn
    subst hn
    exact ⟨hsound, ⟨hdraining', fun haborted _ => hvolume haborted⟩, rfl, rfl⟩

theorem resumeRun_goes {point : Point} {reply : Reply} (h : Sound job)
    (hdraining : Draining job volumeId) (hvolume : job.aborted = false →
      point.cleared (some reply) = false → job.drainVolumeId = some volumeId)
    (hnext : job.cancelled = false →
      (Phase.run volumeId prevRemaining point).handsOver reply → alone) :
    Goes job alone (resumeRun cfg volumeId prevRemaining point reply job) := by
  have hfinish {completed : Bool} (halone : completed → job.cancelled = false → alone) :
      Goes job alone (finish volumeId completed job) :=
    finish_goes h hdraining.claiming hdraining.accepted halone
  have hstay {prev : Option ℕ} {next : Point} (hnext : job.aborted = false →
      next.cleared none = false → job.drainVolumeId = some volumeId) :
      Goes job alone (job, some (.run volumeId prev next)) :=
    ⟨h, ⟨hdraining, hnext⟩, rfl, rfl⟩
  unfold resumeRun
  split
  · exact nextBatch_goes h hdraining fun haborted => hvolume haborted rfl
  · next hreply =>
    have hgoes : Goes { job with running := false, activeVolumeId := none } alone
        (continueToNextFlagged volumeId { job with running := false, activeVolumeId := none }) :=
      continueToNextFlagged_goes ⟨h.cancel, h.returned⟩ rfl hdraining.claiming hdraining.accepted
        fun hcancelled => hnext hcancelled (decide_eq_true fun heq => hreply heq)
    exact ⟨hgoes.sound, hgoes.fits, hgoes.accepted, hgoes.drainVolumeId⟩
  · exact hstay fun haborted _ => hvolume haborted rfl
  · exact hstay fun haborted _ => hvolume haborted rfl
  · exact processBatch_goes h hdraining fun haborted => hvolume haborted rfl
  · exact processBatch_goes h hdraining fun haborted => hvolume haborted rfl
  · split
    · exact hstay fun haborted _ => hvolume haborted rfl
    · exact nextBatch_goes h hdraining fun haborted => hvolume haborted rfl
  · exact nextBatch_goes h hdraining fun haborted => hvolume haborted rfl
  · split
    · exact hstay fun haborted _ => hvolume haborted rfl
    · split
      · exact hstay fun haborted _ => hvolume haborted rfl
      · exact hstay fun haborted _ => hvolume haborted rfl
  · exact nextBatch_goes h hdraining fun haborted => hvolume haborted rfl
  · exact hstay nofun
  · split
    · exact hstay nofun
    · exact hstay nofun
  · next hreply =>
    exact hfinish fun _ hcancelled => hnext hcancelled (decide_eq_true fun heq => hreply heq)
  · next hreply =>
    exact hfinish fun _ hcancelled => hnext hcancelled (decide_eq_true fun heq => hreply heq)
  · exact hfinish fun _ hcancelled => hnext hcancelled rfl
  · exact hfinish fun _ hcancelled => hnext hcancelled rfl
  · exact hfinish nofun

/-- The main task goes on, and nothing is under way that cancels while it launches. -/
theorem resume_goes {phase : Phase} {reply : Reply} (h : Sound job)
    (hfits : Fits job alone ⟨phase, some reply⟩)
    (hnext : job.cancelled = false → phase.handsOver reply → alone) :
    Goes job alone (resume cfg phase reply job) := by
  have hstop (hlaunch : Launching job alone) (hclaim : job.claiming = none) :
      Goes job alone (job, none) := ⟨h, ⟨hlaunch.running, hclaim⟩, rfl, rfl⟩
  have hafter {volumeId : ℕ} {completed : Bool}
      (hended : job.running = false ∧ job.claiming = none ∧ job.aborted) :
      Goes job alone (afterRun volumeId completed job) := by
    rw [afterRun, if_neg (by rw [hended.2.2]; simp)]
    exact ⟨h, ⟨hended.1, hended.2.1⟩, rfl, rfl⟩
  unfold resume
  split
  · obtain ⟨hlaunch, hclaim, hvolume⟩ := hfits
    exact ⟨h, ⟨hlaunch, hclaim, hvolume rfl⟩, rfl, rfl⟩
  · obtain ⟨hlaunch, -, hvolume⟩ := hfits
    have hgoes : Goes { job with claiming := none } alone (run _ { job with claiming := none }) :=
      run_goes ⟨h.cancel, h.returned⟩
        ⟨hlaunch.running, hlaunch.alone, hlaunch.cancel, hlaunch.accepted⟩ rfl hvolume
    exact ⟨hgoes.sound, hgoes.fits, hgoes.accepted, hgoes.drainVolumeId⟩
  · exact ⟨⟨h.cancel, h.returned⟩, ⟨hfits.1.running, rfl⟩, rfl, rfl⟩
  · exact ⟨⟨h.cancel, h.returned⟩, ⟨hfits.1.running, rfl⟩, rfl, rfl⟩
  · obtain ⟨hlaunch, hclaim, hvalue⟩ := hfits
    exact ⟨h, ⟨hlaunch, hclaim, (hvalue _ rfl).symm⟩, rfl, rfl⟩
  · obtain ⟨hlaunch, hclaim, hvolume⟩ := hfits
    exact ⟨h, ⟨hlaunch, hclaim, hvolume⟩, rfl, rfl⟩
  · obtain ⟨hlaunch, hclaim, hvolume⟩ := hfits
    exact run_goes h hlaunch hclaim hvolume
  · exact hfits.elim
  · exact hfits.elim
  · exact hfits.elim
  · exact resumeRun_goes h hfits.1 hfits.2 hnext
  · exact ⟨h, hfits, rfl, rfl⟩
  · exact hafter hfits
  · exact hafter hfits
  · obtain ⟨hlaunch, hclaim⟩ := hfits
    split
    · exact ⟨h, ⟨hlaunch, hclaim, nofun⟩, rfl, rfl⟩
    · exact hstop hlaunch hclaim
  · obtain ⟨hlaunch, hclaim, hvolume⟩ := hfits
    exact ⟨h, ⟨hlaunch, hclaim, hvolume rfl⟩, rfl, rfl⟩
  · obtain ⟨hlaunch, hclaim, hvolume⟩ := hfits
    exact run_goes h hlaunch hclaim hvolume
  · exact hstop hfits.1 hfits.2.1
  · exact hstop hfits.1 hfits.2.1
  · exact hstop hfits.1 hfits.2.1
  · exact hfits.elim
  · exact hfits.elim
  · exact hfits.elim
  · exact hstop hfits.1 hfits.2
  · exact hstop hfits.1 hfits.2.1
  · exact hstop hfits.1 hfits.2.1

theorem Launching.persisted (h : Launching job alone) (v c : Option ℕ) :
    Launching { job with drainVolumeId := v, drainCursorId := c } alone :=
  ⟨h.running, h.alone, h.cancel, h.accepted⟩

theorem Draining.persisted (h : Draining job volumeId) (v c : Option ℕ) :
    Draining { job with drainVolumeId := v, drainCursorId := c } volumeId :=
  ⟨h.running, h.active, h.claiming, h.accepted⟩

theorem Sound.persisted (h : Sound job) (v c : Option ℕ)
    (hv : job.accepted = some .cancel → job.drainVolumeId = none → v = none) :
    Sound { job with drainVolumeId := v, drainCursorId := c } :=
  ⟨h.cancel, fun hreturned => ⟨(h.returned hreturned).1,
    hv (h.returned hreturned).1 (h.returned hreturned).2⟩⟩

/-- The same to a task that runs, will run or did run. -/
structure Alike (job job' : Job) : Prop where
  running : job'.running = job.running
  claiming : job'.claiming = job.claiming
  aborted : job'.aborted = job.aborted
  active : job'.activeVolumeId = job.activeVolumeId
  accepted : job'.accepted = job.accepted
  drainVolumeId : job'.drainVolumeId = job.drainVolumeId

theorem Launching.alike {job' : Job} (h : Launching job alone) (ha : Alike job job') :
    Launching job' alone :=
  ⟨ha.running.trans h.running, h.alone, ha.accepted ▸ h.cancel, ha.accepted ▸ h.accepted⟩

theorem Fits.alike {job' : Job} {t : Task Phase Reply} (h : Fits job alone t)
    (ha : Alike job job') : Fits job' alone t := by
  obtain ⟨phase, reply⟩ := t
  have hclaim := ha.claiming
  have hvolume := ha.drainVolumeId
  have hrest (hn : job.running = false ∧ job.claiming = none ∧ job.aborted) :
      job'.running = false ∧ job'.claiming = none ∧ job'.aborted :=
    ⟨ha.running.trans hn.1, hclaim.trans hn.2.1, ha.aborted.trans hn.2.2⟩
  cases phase with
  | startVolumeId _ => exact ⟨h.1.alike ha, hclaim.trans h.2.1, hvolume ▸ h.2.2⟩
  | startCursorId _ => exact ⟨h.1.alike ha, hclaim.trans h.2.1, hvolume ▸ h.2.2⟩
  | resumeVolumeId => exact ⟨h.1.alike ha, hclaim.trans h.2.1, hvolume ▸ h.2.2⟩
  | resumeFrozen _ => exact ⟨h.1.alike ha, hclaim.trans h.2.1, hvolume ▸ h.2.2⟩
  | resumeCursorId _ => exact ⟨h.1.alike ha, hclaim.trans h.2.1, hvolume ▸ h.2.2⟩
  | nextFrozen _ => exact ⟨h.1.alike ha, hclaim.trans h.2⟩
  | nextVolumeId _ => exact ⟨h.1.alike ha, hclaim.trans h.2.1, hvolume ▸ h.2.2⟩
  | nextCursorId _ => exact ⟨h.1.alike ha, hclaim.trans h.2.1, hvolume ▸ h.2.2⟩
  | run _ _ _ =>
    obtain ⟨hdraining, hpersisted⟩ := h
    refine ⟨⟨ha.running.trans hdraining.running, ha.active.trans hdraining.active,
      hclaim.trans hdraining.claiming, ha.accepted ▸ hdraining.accepted⟩, ?_⟩
    rw [ha.aborted, hvolume]
    exact hpersisted
  | clearVolumeId _ _ => exact hrest h
  | clearCursorId _ _ => exact hrest h
  | cancelPending _ => exact h.elim
  | cancelVolumeId => exact h.elim
  | cancelCursorId => exact h.elim

theorem CancelFits.clear {t : Task Phase Reply} (h : CancelFits job t) (c : Option ℕ) :
    CancelFits { job with drainVolumeId := none, drainCursorId := c } t := by
  obtain ⟨phase, reply⟩ := t
  cases phase with
  | cancelPending _ => trivial
  | cancelVolumeId => exact ⟨h.1, fun _ => rfl⟩
  | cancelCursorId => exact ⟨h.1, rfl⟩
  | _ => exact h.elim

/-- What a call does to the volume that is persisted. -/
def Phase.persists (old : Option ℕ) : Phase → Option ℕ
  | .startVolumeId volumeId => some volumeId
  | .nextVolumeId volumeId => some volumeId
  | .cancelVolumeId => none
  | .clearVolumeId _ _ => none
  | .run _ _ (.finalizeVolumeId _) => none
  | _ => old

theorem write_eq (job : Job) (phase : Phase) : ∃ c, write job phase =
    { job with drainVolumeId := phase.persists job.drainVolumeId, drainCursorId := c } := by
  cases phase with
  | run _ _ point => cases point <;> exact ⟨_, rfl⟩
  | _ => exact ⟨_, rfl⟩

theorem answer_persisted {phase : Phase} {reply : Reply} {job' : Job}
    (h : answer phase reply job = some job') : ∃ v c,
      job' = { job with drainVolumeId := v, drainCursorId := c } ∧
        (v = job.drainVolumeId ∧ reply ≠ .ok ∨ v = phase.persists job.drainVolumeId) := by
  obtain ⟨c, hc⟩ := write_eq job phase
  rcases stored_cases h with ⟨hrejected, hjob⟩ | hjob
  · refine ⟨job.drainVolumeId, job.drainCursorId, hjob, .inl ⟨rfl, ?_⟩⟩
    rintro rfl
    cases hrejected
  · exact ⟨_, c, hjob.trans hc, .inr rfl⟩

/-- The call of the main task is answered. The cancels notice it only if something is persisted,
and then there are none. -/
theorem fits_answer {phase : Phase} {reply : Reply} {job' : Job} (h : Sound job)
    (hfits : Fits job alone ⟨phase, none⟩) (hanswer : answer phase reply job = some job') :
    MainTurn roles job job' alone (some ⟨phase, some reply⟩) := by
  obtain ⟨v, c, rfl, hv⟩ := answer_persisted hanswer
  -- A call that sets the persisted volume is one of a task that launches.
  have hset (hlaunch : Launching job alone) :
      Sound { job with drainVolumeId := v, drainCursorId := c } :=
    h.persisted v c fun hcancel => absurd hcancel hlaunch.cancel
  have hkept (hold : v = job.drainVolumeId) (hfits : Fits job alone ⟨phase, some reply⟩) :
      MainTurn roles job { job with drainVolumeId := v, drainCursorId := c } alone
        (some ⟨phase, some reply⟩) := by
    subst hold
    exact ⟨h.persisted _ c fun _ hnone => hnone, hfits.alike ⟨rfl, rfl, rfl, rfl, rfl, rfl⟩,
      .inr fun t ht => ht⟩
  have hclear (hnone : v = none ∨ v = job.drainVolumeId)
      (hfits : Fits { job with drainVolumeId := v, drainCursorId := c } alone
        ⟨phase, some reply⟩) :
      MainTurn roles job { job with drainVolumeId := v, drainCursorId := c } alone
        (some ⟨phase, some reply⟩) := by
    rcases hnone with rfl | rfl
    · exact ⟨h.persisted _ c fun _ _ => rfl, hfits, .inr fun t ht => ht.clear c⟩
    · exact ⟨h.persisted _ c fun _ hnone => hnone, hfits, .inr fun t ht => ht⟩
  cases phase with
  | startVolumeId n =>
    obtain ⟨hlaunch, hclaim, -⟩ := hfits
    refine ⟨hset hlaunch, ⟨hlaunch.persisted v c, hclaim, fun hok => ?_⟩, .inl hlaunch.alone⟩
    exact (hv.resolve_left fun hold => hold.2 (Option.some.inj hok))
  | nextVolumeId n =>
    obtain ⟨hlaunch, hclaim, -⟩ := hfits
    refine ⟨hset hlaunch, ⟨hlaunch.persisted v c, hclaim, fun hok => ?_⟩, .inl hlaunch.alone⟩
    exact (hv.resolve_left fun hold => hold.2 (Option.some.inj hok))
  | resumeVolumeId =>
    have hold : v = job.drainVolumeId := hv.elim And.left id
    obtain ⟨hlaunch, hclaim, -⟩ := hfits
    refine hkept hold ⟨hlaunch, hclaim, fun x hx => ?_⟩
    obtain rfl := Option.some.inj hx
    exact of_decide_eq_true ((stored_allowed hanswer).1 rfl)
  | startCursorId _ => exact hkept (hv.elim And.left id) hfits
  | resumeFrozen _ => exact hkept (hv.elim And.left id) hfits
  | resumeCursorId _ => exact hkept (hv.elim And.left id) hfits
  | nextFrozen _ => exact hkept (hv.elim And.left id) hfits
  | nextCursorId _ => exact hkept (hv.elim And.left id) hfits
  | clearVolumeId _ _ => exact hclear (hv.elim (fun hold => .inr hold.1) .inl) hfits
  | clearCursorId _ _ => exact hkept (hv.elim And.left id) hfits
  | cancelPending _ => exact hfits.elim
  | cancelVolumeId => exact hfits.elim
  | cancelCursorId => exact hfits.elim
  | run n prev point =>
    obtain ⟨hdraining, hvolume⟩ := hfits
    cases point with
    | finalizeVolumeId _ =>
      exact hclear (hv.elim (fun hold => .inr hold.1) .inl) ⟨hdraining.persisted v c, nofun⟩
    | _ => exact hkept (hv.elim And.left id) ⟨hdraining, hvolume⟩

/-- The main task is one that launches, a run, or one that has run and clears what is persisted. -/
theorem Fits.kinds {phase : Phase} {reply : Option Reply} (h : Fits job alone ⟨phase, reply⟩) :
    phase.launches ∧ Launching job alone ∨
      (∃ volumeId prevRemaining point, phase = .run volumeId prevRemaining point) ∨
      ∃ volumeId completed, phase = .clearVolumeId volumeId completed ∨
        phase = .clearCursorId volumeId completed := by
  cases phase with
  | startVolumeId _ => exact .inl ⟨rfl, h.1⟩
  | startCursorId _ => exact .inl ⟨rfl, h.1⟩
  | resumeVolumeId => exact .inl ⟨rfl, h.1⟩
  | resumeFrozen _ => exact .inl ⟨rfl, h.1⟩
  | resumeCursorId _ => exact .inl ⟨rfl, h.1⟩
  | nextFrozen _ => exact .inl ⟨rfl, h.1⟩
  | nextVolumeId _ => exact .inl ⟨rfl, h.1⟩
  | nextCursorId _ => exact .inl ⟨rfl, h.1⟩
  | run _ _ _ => exact .inr (.inl ⟨_, _, _, rfl⟩)
  | clearVolumeId _ _ => exact .inr (.inr ⟨_, _, .inl rfl⟩)
  | clearCursorId _ _ => exact .inr (.inr ⟨_, _, .inr rfl⟩)
  | cancelPending _ => exact h.elim
  | cancelVolumeId => exact h.elim
  | cancelCursorId => exact h.elim

/-! ## Beside cancels -/

/-- What does not launch is not disturbed when nothing is persisted any more after a cancel. -/
theorem MainFits.clear {main : Option (Task Phase Reply)} (h : Sound job)
    (hcancel : job.accepted = some .cancel) (hmain : MainFits job False main) (c : Option ℕ) :
    MainFits { job with drainVolumeId := none, drainCursorId := c } False main := by
  cases main with
  | none => exact hmain
  | some t =>
    obtain ⟨phase, reply⟩ := t
    rcases Fits.kinds hmain with ⟨-, hlaunch⟩ | ⟨n, prev, point, rfl⟩ | ⟨n, completed, rfl | rfl⟩
    · exact hlaunch.alone.elim
    · exact ⟨hmain.1.persisted none c, fun hgo => by rw [(h.cancel hcancel).2] at hgo; cases hgo⟩
    · exact hmain
    · exact hmain

theorem cancels_answer {phase : Phase} {reply : Reply} {job' : Job} (h : Sound job)
    (hfits : CancelFits job ⟨phase, none⟩) (hanswer : answer phase reply job = some job') :
    OtherTurn roles job job' (some ⟨phase, some reply⟩) := by
  obtain ⟨v, c, rfl, hv⟩ := answer_persisted hanswer
  have hkept (hold : v = job.drainVolumeId) (hfits : CancelFits job ⟨phase, some reply⟩) :
      OtherTurn roles job { job with drainVolumeId := v, drainCursorId := c }
        (some ⟨phase, some reply⟩) := by
    subst hold
    refine ⟨h.persisted _ c fun _ hnone => hnone, fun t ht => ht, fun _ ht => ?_,
      fun main hmain => ?_⟩
    · obtain rfl := Option.some.inj ht
      exact hfits
    · cases main with
      | none => exact hmain
      | some t => exact hmain.alike ⟨rfl, rfl, rfl, rfl, rfl, rfl⟩
  cases phase with
  | cancelPending n => exact hkept (hv.elim And.left id) trivial
  | cancelCursorId => exact hkept (hv.elim And.left id) hfits
  | cancelVolumeId =>
    rcases hv with ⟨hold, hfailed⟩ | rfl
    · exact hkept hold ⟨hfits.1, fun hok => absurd (Option.some.inj hok) hfailed⟩
    · refine ⟨h.persisted _ c fun _ _ => rfl, fun t ht => CancelFits.clear ht c, fun _ ht => ?_,
        fun main hmain => MainFits.clear h hfits.1 hmain c⟩
      obtain rfl := Option.some.inj ht
      exact ⟨hfits.1, fun _ => rfl⟩
  | _ => exact hfits.elim

/-- The call that a request or a task comes to. -/
abbrev awaited (result : Job × Option Phase) : Option (Task Phase Reply) :=
  result.2.map (⟨·, none⟩)

theorem beginCancel_turn (job : Job) :
    OtherTurn roles job (beginCancel job).1 (awaited (beginCancel job)) := by
  refine ⟨⟨fun _ => ⟨rfl, rfl⟩, nofun⟩, fun t ht => ?_, fun _ ht => ?_, fun main hmain => ?_⟩
  · obtain ⟨phase, reply⟩ := t
    cases phase with
    | cancelPending _ => trivial
    | cancelVolumeId => exact ⟨rfl, ht.2⟩
    | cancelCursorId => exact ⟨rfl, ht.2⟩
    | _ => exact ht.elim
  · obtain rfl := Option.some.inj ht
    exact ⟨rfl, nofun⟩
  · cases main with
    | none => exact hmain
    | some t =>
      obtain ⟨phase, reply⟩ := t
      rcases Fits.kinds hmain with ⟨-, hlaunch⟩ | ⟨n, prev, point, rfl⟩ | ⟨n, completed, rfl | rfl⟩
      · exact hlaunch.alone.elim
      · obtain ⟨hdraining, -⟩ := hmain
        exact ⟨⟨hdraining.running, hdraining.active, hdraining.claiming, nofun⟩, nofun⟩
      · exact ⟨hmain.1, hmain.2.1, rfl⟩
      · exact ⟨hmain.1, hmain.2.1, rfl⟩

theorem cancels_nothing (h : Sound job) {new : Option (Task Phase Reply)}
    (hfits : ∀ t ∈ new, CancelFits job t) : OtherTurn roles job job new :=
  ⟨h, fun _ ht => ht, hfits, fun _ hmain => hmain⟩

theorem cancels_resume {phase : Phase} {reply : Reply} (h : Sound job)
    (hfits : CancelFits job ⟨phase, some reply⟩) :
    OtherTurn roles job (resume cfg phase reply job).1
      (awaited (resume cfg phase reply job)) := by
  have hend : OtherTurn roles job job none := cancels_nothing h nofun
  cases phase with
  | cancelPending n =>
    cases reply with
    | value pending =>
      rw [resume]
      split
      · exact hend
      · exact beginCancel_turn job
    | _ => exact hend
  | cancelVolumeId =>
    cases reply with
    | ok =>
      refine cancels_nothing h fun _ ht => ?_
      obtain rfl := Option.some.inj ht
      exact ⟨hfits.1, hfits.2 rfl⟩
    | _ => exact hend
  | cancelCursorId =>
    cases reply with
    | ok =>
      refine ⟨⟨h.cancel, fun _ => hfits⟩, fun t ht => ht, nofun, fun main hmain => ?_⟩
      cases main with
      | none => exact hmain
      | some t => exact hmain.alike ⟨rfl, rfl, rfl, rfl, rfl, rfl⟩
    | _ => exact hend
  | _ => exact hfits.elim

/-! ## Every state that is reached -/

theorem fits_of_not_launches {t : Task Phase Reply} (h : Fits job alone t)
    (ht : t.phase.launches = false) : Fits job False t := by
  obtain ⟨phase, reply⟩ := t
  rcases Fits.kinds h with ⟨hlaunches, -⟩ | ⟨n, prev, point, rfl⟩ | ⟨n, completed, rfl | rfl⟩
  · exact absurd hlaunches (by rw [ht]; exact Bool.false_ne_true)
  · exact h
  · exact h
  · exact h

theorem beside_initial (h : Initial job) : Beside roles job [] := by
  obtain ⟨hrunning, hclaim, -, -, -, haccepted, hreturned⟩ := h
  refine beside_nil ⟨?_, ?_⟩ ⟨hrunning, hclaim⟩
  · rw [haccepted]
    exact nofun
  · rw [hreturned]
    exact nofun

theorem beside_call {request : Request} {tasks : List (Task Phase Reply)}
    (hcare : careful.call request job tasks) (h : Beside roles job tasks) :
    Beside roles (call request job).1 (awaiting (call request job).2 ++ tasks) := by
  cases request with
  | start volumeId =>
    rw [call]
    split
    · exact h
    · next hfree =>
      obtain rfl := hcare.resolve_left hfree
      exact beside_singleton ⟨nofun, nofun⟩
        ⟨⟨h.of_nil.2.1, trivial, nofun, nofun⟩, rfl, nofun⟩
  | resumePendingJob =>
    obtain rfl : tasks = [] := hcare
    exact beside_singleton ⟨nofun, nofun⟩
      ⟨⟨h.of_nil.2.1, trivial, nofun, nofun⟩, h.of_nil.2.2, nofun⟩
  | cancel volumeId =>
    obtain ⟨main, cancels, hperm, hsound, hmain, hcancels⟩ := h
    have hbeside : MainFits job False main := by
      cases main with
      | none => exact hmain
      | some t => exact fits_of_not_launches hmain (hcare t (hperm.symm.subset (by simp)))
    cases volumeId with
    | none => exact (beginCancel_turn job).beside hperm hbeside hcancels
    | some n =>
      have hturn : OtherTurn roles job job (some ⟨.cancelPending n, none⟩) := by
        refine cancels_nothing hsound fun _ ht => ?_
        obtain rfl := Option.some.inj ht
        trivial
      exact hturn.beside hperm hbeside hcancels
  | stop =>
    obtain ⟨main, cancels, hperm, hsound, hmain, hcancels⟩ := h
    refine ⟨main, cancels, hperm, ⟨fun hcancel => ⟨rfl, (hsound.cancel hcancel).2⟩,
      hsound.returned⟩, ?_, hcancels⟩
    cases main with
    | none => exact hmain
    | some t => exact Fits.alike hmain ⟨rfl, rfl, rfl, rfl, rfl, rfl⟩

theorem CancelFits.alike {job' : Job} {t : Task Phase Reply} (h : CancelFits job t)
    (haccepted : job'.accepted = job.accepted)
    (hvolume : job'.drainVolumeId = job.drainVolumeId) : CancelFits job' t := by
  obtain ⟨phase, reply⟩ := t
  cases phase with
  | cancelPending _ => trivial
  | cancelVolumeId => exact ⟨haccepted ▸ h.1, hvolume ▸ h.2⟩
  | cancelCursorId => exact ⟨haccepted ▸ h.1, hvolume ▸ h.2⟩
  | _ => exact h.elim

theorem CancelFits.isCancel {t : Task Phase Reply} (h : CancelFits job t) :
    t.phase.isCancel := by
  obtain ⟨phase, reply⟩ := t
  cases phase with
  | cancelPending _ => rfl
  | cancelVolumeId => rfl
  | cancelCursorId => rfl
  | _ => exact h.elim

theorem beside_resume {phase : Phase} {reply : Reply} {others : List (Task Phase Reply)}
    (hcare : careful.resume phase reply job others)
    (h : Beside roles job (⟨phase, some reply⟩ :: others)) :
    Beside roles (resume cfg phase reply job).1
      (awaiting (resume cfg phase reply job).2 ++ others) := by
  refine h.turn (fun cancels hothers hcancels hsound hmain => ?_) cancels_resume
  have hgoes : Goes job (cancels = []) (resume cfg phase reply job) := by
    refine resume_goes hsound hmain fun hcancelled hover => ?_
    rw [List.eq_nil_iff_forall_not_mem]
    intro t ht
    have hno := hcare hcancelled hover t (hothers.symm.subset ht)
    rw [CancelFits.isCancel (hcancels t ht)] at hno
    cases hno
  exact ⟨hgoes.sound, hgoes.fits,
    .inr fun t ht => CancelFits.alike ht hgoes.accepted hgoes.drainVolumeId⟩

theorem reachable_beside {s : State Job Phase Reply}
    (h : Reachable ((system cfg).machine careful Initial) s) : Beside roles s.job s.tasks :=
  reachable_invariant (fun _ _ _ hl hs => hs.perm hl) (fun _ hinitial => beside_initial hinitial)
    (fun _ _ _ hcare hs => beside_call hcare hs)
    (fun _ _ _ _ _ hanswer hs => hs.turn (fun _ _ _ hsound hmain =>
      fits_answer hsound hmain hanswer) fun hsound ht => cancels_answer hsound ht hanswer)
    (fun _ _ _ _ hcare hs => beside_resume hcare hs) h

theorem begun_continueToNextFlagged (volumeId : ℕ) (job : Job) :
    (continueToNextFlagged volumeId job).1.begun = job.begun := by
  rw [continueToNextFlagged]
  split <;> rfl

theorem begun_afterRun (volumeId : ℕ) (completed : Bool) (job : Job) :
    (afterRun volumeId completed job).1.begun = job.begun := by
  rw [afterRun]
  split
  · exact begun_continueToNextFlagged volumeId job
  · rfl

theorem begun_finish (volumeId : ℕ) (completed : Bool) (job : Job) :
    (finish volumeId completed job).1.begun = job.begun := by
  unfold finish
  dsimp only
  split
  · rfl
  · exact begun_afterRun volumeId completed _

theorem begun_run (volumeId : ℕ) (job : Job) : (run volumeId job).1.begun = job.begun := by
  rw [run]
  split <;> rfl

theorem begun_nextBatch (volumeId : ℕ) (prevRemaining : Option ℕ) (job : Job) :
    (nextBatch volumeId prevRemaining job).1.begun = job.begun := by
  rw [nextBatch]
  split
  · exact begun_finish volumeId false job
  · split
    · exact begun_finish volumeId false job
    · rfl

theorem begun_processBatch (hcancelled : job.cancelled) (left inflight last : ℕ) :
    (processBatch cfg volumeId prevRemaining left inflight last job).1.begun = job.begun := by
  obtain ⟨n, hn, hsame⟩ := beginRelocations_job cfg left inflight job
  obtain rfl := hsame hcancelled
  rw [processBatch]
  split
  · next job' heq =>
    rw [heq] at hn
    subst hn
    split
    · exact begun_finish volumeId false job
    · rfl
  · next job' left' inflight' _ heq =>
    rw [heq] at hn
    subst hn
    rfl

theorem begun_resumeRun (hcancelled : job.cancelled) (point : Point) (reply : Reply) :
    (resumeRun cfg volumeId prevRemaining point reply job).1.begun = job.begun := by
  unfold resumeRun
  split
  · exact begun_nextBatch volumeId prevRemaining job
  · exact begun_continueToNextFlagged volumeId _
  · rfl
  · rfl
  · exact begun_processBatch hcancelled _ _ _
  · exact begun_processBatch hcancelled _ _ _
  · split
    · rfl
    · exact begun_nextBatch volumeId prevRemaining job
  · exact begun_nextBatch volumeId prevRemaining job
  · split
    · rfl
    · split <;> rfl
  · exact begun_nextBatch volumeId prevRemaining job
  · rfl
  · rfl
  all_goals exact begun_finish volumeId _ job

theorem begun_resume (hcancelled : job.cancelled) (phase : Phase) (reply : Reply) :
    (resume cfg phase reply job).1.begun = job.begun := by
  unfold resume
  split
  case h_2 => exact begun_run _ { job with claiming := none }
  case h_7 => exact begun_run _ job
  case h_8 => split <;> rfl
  case h_11 => exact begun_resumeRun hcancelled _ _
  case h_13 => exact begun_afterRun _ _ job
  case h_14 => exact begun_afterRun _ _ job
  case h_15 => split <;> rfl
  case h_17 => exact begun_run _ job
  all_goals rfl

/-- A run that was cancelled begins nothing more. -/
theorem begun_next {s : State Job Phase Reply} (hcancelled : s.job.cancelled)
    (e : AwaitedCalls.Event Reply Request) :
    ((system cfg).next s e).job.begun = s.job.begun := by
  refine next_keeps Job.begun s (fun request => ?_) (fun phase reply job' h => ?_)
    (fun phase reply => begun_resume hcancelled phase reply) e
  · cases request with
    | start volumeId =>
      show (call (.start volumeId) s.job).1.begun = s.job.begun
      rw [call]
      split <;> rfl
    | resumePendingJob => rfl
    | cancel volumeId => cases volumeId <;> rfl
    | stop => rfl
  · obtain ⟨v, c, rfl, -⟩ := answer_persisted h
    rfl

theorem settled_of_reachable {s : State Job Phase Reply}
    (h : Reachable ((system cfg).machine careful Initial) s) : Settled cfg s := by
  obtain ⟨main, cancels, hperm, hsound, hmain, hcancels⟩ := reachable_beside h
  have hmains : ∀ t ∈ s.tasks, main = some t ∨ t.phase.isCancel := by
    intro t ht
    rcases List.mem_append.mp (hperm.subset ht) with hthis | hthis
    · exact .inl (Option.mem_toList.mp hthis)
    · exact .inr (CancelFits.isCancel (hcancels t hthis))
  refine ⟨fun hrunning hgo => ?_, fun hidle => ?_, fun hreturned e => ?_,
    fun hreturned => (hsound.returned hreturned).2, ?_⟩
  · have hnone : s.job.accepted ≠ none := by
      intro hnone
      cases main with
      | none => exact absurd hrunning (by rw [hmain.1]; exact Bool.false_ne_true)
      | some t =>
        obtain ⟨phase, reply⟩ := t
        rcases Fits.kinds hmain with ⟨-, hl⟩ | ⟨n, prev, point, rfl⟩ | ⟨n, completed, rfl | rfl⟩
        · exact hl.accepted hnone
        · exact hmain.1.accepted hnone
        · exact absurd hrunning (by rw [hmain.1]; exact Bool.false_ne_true)
        · exact absurd hrunning (by rw [hmain.1]; exact Bool.false_ne_true)
    cases haccepted : s.job.accepted with
    | none => exact absurd haccepted hnone
    | some accepted =>
      cases accepted with
      | start => exact .inl rfl
      | resume => exact .inr rfl
      | cancel => exact absurd (hsound.cancel haccepted).1 (by rw [hgo]; exact Bool.false_ne_true)
  · rw [hidle, List.nil_perm, List.append_eq_nil_iff, Option.toList_eq_nil_iff] at hperm
    rw [hperm.1] at hmain
    exact hmain.1
  · exact begun_next (hsound.cancel (hsound.returned hreturned).1).1 e
  · intro t ht n prev point hphase haborted hpoint
    obtain ⟨phase, reply⟩ := t
    obtain rfl := hphase
    rcases hmains _ ht with rfl | hcancel
    · exact ⟨hmain.1.running, hmain.1.active, hmain.2 haborted hpoint⟩
    · cases hcancel

instance (request : Request) (job : Job) (tasks : List (Task Phase Reply)) :
    Decidable (careful.call request job tasks) :=
  match request with
  | .start _ => inferInstanceAs
      (Decidable ((job.running || job.claiming.any (· ≠ 0)) = true ∨ tasks = []))
  | .resumePendingJob => inferInstanceAs (Decidable (tasks = []))
  | .cancel _ => inferInstanceAs (Decidable (∀ t ∈ tasks, t.phase.launches = false))
  | .stop => inferInstanceAs (Decidable True)

instance (phase : Phase) (reply : Reply) (job : Job) (others : List (Task Phase Reply)) :
    Decidable (careful.resume phase reply job others) :=
  inferInstanceAs (Decidable (job.cancelled = false → phase.handsOver reply = true →
    ∀ t ∈ others, t.phase.isCancel = false))

def oneAtATime : Config := ⟨1, false⟩

def idleJob : Job where
  running := false
  claiming := none
  cancelled := false
  aborted := false
  activeVolumeId := none
  attemptedVolumeIds := []
  drainVolumeId := none
  drainCursorId := none
  begun := 0
  accepted := none
  cancelReturned := false

def idle : State Job Phase Reply := ⟨idleJob, []⟩

theorem initial_idle (care : Care Job Phase Reply Request) (cfg : Config) :
    ((system cfg).machine care Initial).Initial idle :=
  ⟨⟨rfl, rfl, rfl, rfl, rfl, rfl, rfl⟩, rfl⟩

/-- A call of the task in front is answered, and it goes on. -/
def step (reply : Reply) : List (AwaitedCalls.Event Reply Request) := [.answer 0 reply, .resume 0]

/-- A drain finds one object, and is cancelled while its slice is relocated. -/
def cancelledInTime : List (AwaitedCalls.Event Reply Request) :=
  [.call (.start 5)] ++ step .ok ++ step .ok ++ step .ok ++ step (.frozen false []) ++
    step (.found 2 7) ++ [.call (.cancel none)] ++ step .ok ++ step .ok

/-- A cancel comes and returns between the two calls by which a drain is started. -/
def cancelledWhileStarting : List (AwaitedCalls.Event Reply Request) :=
  [.call (.start 5), .answer 0 .ok, .call (.cancel none)] ++ step .ok ++ step .ok ++
    [.resume 0] ++ step .ok ++ step .ok ++ step (.frozen false []) ++ step (.found 2 7)

end DrainVolumeJob
