import Strubs.VerifyVolumesJob

/-! # No verify is lost or undone

A run that is under way or queued is persisted, there is one at most, and none after a stop. It
takes some care: a stop, a pause, a start and a resume may come between each other's calls. -/
namespace VerifyVolumesJob

open AwaitedCalls StateMachine

/-! ## With care -/

def Point.finalizes : Point → Bool
  | .deleteStartedAt => true
  | .deleteVolumeIds => true
  | .deleteCursorId => true
  | .deleteMode => true
  | .recordFinish => true
  | .setLastVerify => true
  | .settles completed => completed
  | _ => false

/-- Where a run that has completed still clears what is persisted. -/
def Point.clears : Point → Bool
  | .deleteStartedAt => true
  | .deleteVolumeIds => true
  | .deleteCursorId => true
  | .deleteMode => true
  | _ => false

/-- What keeps others out: a start or a resume that holds the guard, a stop that is going to clear
what is persisted, a pause that parks a run, and a run. -/
inductive Kind where
  | free
  | guarded
  | clearing
  | pausing
  | run (token : ℕ)
  deriving DecidableEq

def Phase.kind : Phase → Kind
  | .startFrozen _ _ _ => .free
  | .resumeFrozen => .free
  | .stopDrains _ _ preserveState => if preserveState then .free else .clearing
  | .stopRecords => .clearing
  | .stopStartedAt => .clearing
  | .stopVolumeIds => .clearing
  | .stopCursorId => .clearing
  | .stopMode => .clearing
  | .pauseDrains _ _ => .pausing
  | .run handle _ => .run handle.token
  | _ => .guarded

def Phase.starts : Phase → Bool
  | .startFrozen _ _ _ => true
  | _ => false

def Phase.clearsRun (token : ℕ) : Phase → Bool
  | .run handle point => handle.token = token && point.clears
  | _ => false

/-- Of which run the end is waited for. -/
def Phase.drains : Phase → Option ℕ
  | .stopDrains token _ _ => some token
  | .pauseDrains token _ => some token
  | _ => none

/-- Neither a stop that is going to clear what is persisted nor a pause is under way. -/
def Undisturbed (tasks : List (Task Phase Reply)) : Prop :=
  ∀ t ∈ tasks, t.phase.kind ≠ .clearing ∧ t.phase.kind ≠ .pausing

/-- A stop that does not preserve the state comes when there is no start, no resume that holds the
guard and no pause under way, and when what is persisted is active or queued. A pause of a run
comes when the run does not finalize, and when no stop is under way that clears. A start and a
resume go on, when nothing is frozen, while none of the two is under way, and a resume when no
other holds the guard and no run has become active. While a run clears what is persisted no one
loses patience with it. -/
def careful : Care Job Phase Reply Request where
  call
    | .stop false, job, tasks => job.startGuard = false ∧
        (∀ t ∈ tasks, t.phase.starts = false ∧ t.phase.kind ≠ .pausing) ∧
        (job.activeRun = none → job.waitingForRebalance = false → job.verifyStartedAt = none)
    | .pauseForRebalance, job, tasks => job.activeRun ≠ none →
        job.finalizing = false ∧ ∀ t ∈ tasks, t.phase.kind ≠ .clearing
    | _, _, _ => True
  resume phase reply job others :=
    (reply = .frozen false → phase.starts →
      job.activeRun ≠ none ∨ job.startGuard ∨ Undisturbed others) ∧
    (reply = .frozen false → phase = .resumeFrozen →
      job.activeRun = none ∧ job.startGuard = false ∧ Undisturbed others) ∧
    (reply = .timedOut → ∀ token ∈ phase.drains, ∀ t ∈ others, t.phase.clearsRun token = false)

/-- What a run is about is persisted. -/
def Persists (job : Job) (scope : Scope) : Prop :=
  job.verifyStartedAt = some scope.startedAt ∧
    normalizeVolumeIds job.verifyVolumeIds = scope.volumeIds ∧
    normalizeMode job.verifyMode = scope.mode

/-- A run that was not abandoned. -/
def Phase.executes (job : Job) : Phase → Prop
  | .run handle _ => handle.token ∉ job.abandoned
  | _ => False

/-- At most one run is under way that was not abandoned. What it is about is persisted until it
has come to its natural completion, and so is what a run is about that is queued. When a stop has
returned and no start was called since, there is none and nothing is persisted. -/
structure Orderly (s : State Job Phase Reply) : Prop where
  one : s.tasks.Pairwise fun t u => ¬(t.phase.executes s.job ∧ u.phase.executes s.job)
  executing : ∀ t ∈ s.tasks, ∀ run point, t.phase = .run run point →
    run.token ∉ s.job.abandoned → point.finalizes = false →
    Persists s.job ⟨run.startedAt, s.job.volumeFilter, run.mode⟩
  queued : s.job.waitingForRebalance → ∃ scope ∈ s.job.queued, Persists s.job scope
  stopped : s.job.stopReturned →
    s.job.verifyStartedAt = none ∧ ∀ t ∈ s.tasks, ¬t.phase.executes s.job

/-! ## What holds all the time -/

structure Sound (job : Job) : Prop where
  guarded : job.startGuard → job.activeRun = none
  active : ∀ token ∈ job.activeRun,
    token ≤ job.runToken ∧ token ∉ job.abandoned ∧ token ∉ job.settled
  known : ∀ token, token ∈ job.abandoned ∨ token ∈ job.settled → token ≤ job.runToken
  executing : job.activeRun ≠ none → job.finalizing = false →
    ∃ scope ∈ current job, Persists job scope
  queued : job.waitingForRebalance →
    job.activeRun = none ∧ ∃ scope ∈ job.queued, Persists job scope
  stopped : job.stopReturned →
    job.asked = some .stop ∧ job.activeRun = none ∧ job.verifyStartedAt = none

/-- A start is under way that holds the guard and found nothing persisted. -/
def Starting (job : Job) : Prop :=
  job.startGuard ∧ job.asked = some .start ∧ job.verifyStartedAt = none

/-- What is requested is persisted but for the time. -/
def PersistsRequest (job : Job) (requested : Scope) : Prop :=
  normalizeVolumeIds job.verifyVolumeIds = requested.volumeIds ∧
    normalizeMode job.verifyMode = requested.mode

/-- No run is active but perhaps this one, and none is launched before a stop has cleared what is
persisted, or a pause has queued it. -/
def Held (job : Job) (token : ℕ) : Prop :=
  job.startGuard = false ∧ ∀ n ∈ job.activeRun, n = token

def Clearing (job : Job) : Prop :=
  job.startGuard = false ∧ job.waitingForRebalance = false ∧ job.activeRun = none

/-- What holds of a task. The run that is active is the one of the token, and others that are
still under way were abandoned. -/
def Fits (job : Job) (t : Task Phase Reply) : Prop :=
  match t.phase with
  | .startFrozen _ _ _ => job.asked = some .start
  | .resumeFrozen => True
  | .startExisting requested => job.startGuard ∧ job.asked = some .start ∧
      Normal requested.volumeIds ∧
      ∀ stored, t.reply = some (.startedAt stored) → stored = job.verifyStartedAt
  | .loadVolumeIds _ existing => job.startGuard ∧ job.verifyStartedAt = some existing ∧
      ∀ stored, t.reply = some (.volumeIds stored) → stored = job.verifyVolumeIds
  | .loadCursorId _ existing volumeIds => job.startGuard ∧
      job.verifyStartedAt = some existing ∧ normalizeVolumeIds job.verifyVolumeIds = volumeIds
  | .loadMode _ existing volumeIds _ => job.startGuard ∧ job.verifyStartedAt = some existing ∧
      normalizeVolumeIds job.verifyVolumeIds = volumeIds ∧
      ∀ stored, t.reply = some (.mode stored) → stored = job.verifyMode
  | .countObjects _ scope _ => job.startGuard ∧ Persists job scope
  | .persistVolumeIds requested => Starting job ∧ Normal requested.volumeIds ∧
      (t.reply = some .ok → normalizeVolumeIds job.verifyVolumeIds = requested.volumeIds)
  | .persistMode requested => Starting job ∧
      normalizeVolumeIds job.verifyVolumeIds = requested.volumeIds ∧
      (t.reply = some .ok → normalizeMode job.verifyMode = requested.mode)
  | .persistCursorId requested => Starting job ∧ PersistsRequest job requested
  | .persistStartedAt requested => job.startGuard ∧ job.asked = some .start ∧
      PersistsRequest job requested ∧ (t.reply = none → job.verifyStartedAt = none) ∧
      (t.reply = some .ok → job.verifyStartedAt = some requested.startedAt)
  | .recordRunStart requested => job.startGuard ∧ Persists job requested
  | .resumeExisting => job.startGuard ∧
      ∀ stored, t.reply = some (.startedAt stored) → stored = job.verifyStartedAt
  | .stopDrains token _ preserveState => token ≤ job.runToken ∧ token ∈ job.cancelled ∧
      (∀ reply, t.reply = some reply → reply = .timedOut ∨ job.activeRun ≠ some token) ∧
      (preserveState = false → Held job token ∧ job.waitingForRebalance = false)
  | .stopRecords => Clearing job
  | .stopStartedAt => Clearing job ∧ (t.reply = some .ok → job.verifyStartedAt = none)
  | .stopVolumeIds => Clearing job ∧ job.verifyStartedAt = none
  | .stopCursorId => Clearing job ∧ job.verifyStartedAt = none
  | .stopMode => Clearing job ∧ job.verifyStartedAt = none
  | .pauseDrains token parked => token ≤ job.runToken ∧ token ∈ job.cancelled ∧
      (∀ reply, t.reply = some reply → reply = .timedOut ∨ job.activeRun ≠ some token) ∧
      Held job token ∧
      (job.activeRun ≠ none → job.finalizing = false) ∧ ∃ scope ∈ parked, Persists job scope
  | .run run point => run.token ≤ job.runToken ∧
      (job.activeRun = some run.token ∧ run.token ∉ job.abandoned ∧
        job.startedAt = some run.startedAt ∧ job.currentMode = run.mode ∧
        job.finalizing = point.finalizes ∨
      job.activeRun ≠ some run.token ∧ run.token ∈ job.abandoned ∧
        run.token ∈ job.cancelled ∧ point.clears = false)

/-- Whether tasks of two kinds may be under way at once. -/
def Kind.beside : Kind → Kind → Prop
  | .guarded, .guarded => False
  | .guarded, .clearing => False
  | .guarded, .pausing => False
  | .clearing, .guarded => False
  | .pausing, .guarded => False
  | .clearing, .pausing => False
  | .pausing, .clearing => False
  | .run token, .run token' => token ≠ token'
  | _, _ => True

theorem Kind.beside_symm {p q : Kind} (h : p.beside q) : q.beside p := by
  cases p <;> cases q <;> first | exact h | exact h.symm

def accord : Accord Job Phase Reply :=
  ⟨Sound, Fits, fun p q => p.kind.beside q.kind, Kind.beside_symm⟩

variable {job job' : Job} {t : Task Phase Reply}

theorem Sound.not_guarded {token : ℕ} (h : Sound job) (hactive : job.activeRun = some token) :
    job.startGuard = false := by
  rw [Bool.eq_false_iff]
  intro hguarded
  rw [h.guarded hguarded] at hactive
  cases hactive

/-! ## What disturbs the others -/

/-- What may change when a task takes its turn that holds the guard. -/
structure Guards (job job' : Job) : Prop where
  asked : job'.asked = job.asked
  cancelled : job'.cancelled = job.cancelled
  abandoned : job'.abandoned = job.abandoned
  runToken : job.runToken ≤ job'.runToken
  active : ∀ token ∈ job'.activeRun, job.runToken < token

theorem Fits.guards (h : Fits job t) (hnone : job.activeRun = none) (hguards : Guards job job')
    (hbeside : Kind.guarded.beside t.phase.kind) : Fits job' t := by
  have hold {token : ℕ} (htoken : token ≤ job.runToken) : job'.activeRun ≠ some token :=
    fun hactive => absurd (hguards.active token hactive) (Nat.not_lt.mpr htoken)
  obtain ⟨phase, reply⟩ := t
  cases phase with
  | startFrozen _ _ _ => exact hguards.asked.trans h
  | resumeFrozen => trivial
  | stopDrains token startedAt preserveState =>
    cases preserveState with
    | true =>
      obtain ⟨htoken, hcancelled, -, -⟩ := h
      exact ⟨Nat.le_trans htoken hguards.runToken, hguards.cancelled ▸ hcancelled,
        fun _ _ => .inr (hold htoken), nofun⟩
    | false => exact hbeside.elim
  | run run point =>
    obtain ⟨htoken, ⟨hactive, -⟩ | ⟨-, habandoned, hcancelled, hclears⟩⟩ := h
    · rw [hnone] at hactive
      cases hactive
    · exact ⟨Nat.le_trans htoken hguards.runToken, .inr ⟨hold htoken,
        hguards.abandoned ▸ habandoned, hguards.cancelled ▸ hcancelled, hclears⟩⟩
  | _ => exact hbeside.elim

/-- What is persisted is cleared while no one starts, resumes or parks a run. -/
theorem Fits.cleared (h : Fits job t) (hguarded : t.phase.kind ≠ .guarded)
    (hpausing : t.phase.kind ≠ .pausing) {startedAt : Option ℕ}
    (hstartedAt : startedAt = job.verifyStartedAt ∨ startedAt = none)
    (volumeIds : Option (List ℕ)) (cursorId : Option ℕ) (mode : Option VerifyMode) :
    Fits { job with
      verifyStartedAt := startedAt
      verifyVolumeIds := volumeIds
      verifyCursorId := cursorId
      verifyMode := mode } t := by
  have hnone (hold : job.verifyStartedAt = none) : startedAt = none :=
    hstartedAt.elim (·.trans hold) id
  obtain ⟨phase, reply⟩ := t
  cases phase with
  | startFrozen _ _ _ => exact h
  | resumeFrozen => trivial
  | stopDrains _ _ _ => exact h
  | stopRecords => exact h
  | stopStartedAt => exact ⟨h.1, fun hok => hnone (h.2 hok)⟩
  | stopVolumeIds => exact ⟨h.1, hnone h.2⟩
  | stopCursorId => exact ⟨h.1, hnone h.2⟩
  | stopMode => exact ⟨h.1, hnone h.2⟩
  | run _ _ => exact h
  | pauseDrains _ _ => exact absurd rfl hpausing
  | _ => exact absurd rfl hguarded

theorem Fits.cancelRun (h : Fits job t) (token : ℕ) : Fits (cancelRun token job) t := by
  obtain ⟨phase, reply⟩ := t
  cases phase with
  | stopDrains _ _ _ => exact ⟨h.1, List.mem_cons_of_mem _ h.2.1, h.2.2⟩
  | pauseDrains _ _ => exact ⟨h.1, List.mem_cons_of_mem _ h.2.1, h.2.2⟩
  | run _ _ =>
    refine ⟨h.1, h.2.imp id fun hzombie => ?_⟩
    exact ⟨hzombie.1, hzombie.2.1, List.mem_cons_of_mem _ hzombie.2.2.1, hzombie.2.2.2⟩
  | _ => exact h

/-- The active run is not active any more, be it that it has settled or was abandoned. -/
theorem Fits.rest {token : ℕ} (h : Fits job t) (hactive : job.activeRun = some token)
    (hguard : job.startGuard = false) (hrun : t.phase.kind ≠ .run token) {settled : List ℕ}
    {abandoned : List ℕ} (habandoned : job.abandoned ⊆ abandoned) :
    Fits (rest { job with settled := settled, abandoned := abandoned }) t := by
  have hnot (hguarded : job.startGuard) : False := by
    rw [hguard] at hguarded
    cases hguarded
  obtain ⟨phase, reply⟩ := t
  cases phase with
  | startFrozen _ _ _ => exact h
  | resumeFrozen => trivial
  | stopDrains _ _ _ =>
    exact ⟨h.1, h.2.1, fun _ _ => .inr nofun,
      fun hclears => ⟨⟨hguard, nofun⟩, (h.2.2.2 hclears).2⟩⟩
  | stopRecords => exact ⟨h.1, h.2.1, rfl⟩
  | stopStartedAt => exact ⟨⟨h.1.1, h.1.2.1, rfl⟩, h.2⟩
  | stopVolumeIds => exact ⟨⟨h.1.1, h.1.2.1, rfl⟩, h.2⟩
  | stopCursorId => exact ⟨⟨h.1.1, h.1.2.1, rfl⟩, h.2⟩
  | stopMode => exact ⟨⟨h.1.1, h.1.2.1, rfl⟩, h.2⟩
  | pauseDrains _ _ =>
    exact ⟨h.1, h.2.1, fun _ _ => .inr nofun, ⟨hguard, nofun⟩, fun hne => absurd rfl hne,
      h.2.2.2.2.2⟩
  | run run point =>
    obtain ⟨htoken, ⟨hthis, -⟩ | ⟨-, hzombie, hrest⟩⟩ := h
    · rw [hthis] at hactive
      obtain rfl := Option.some.inj hactive
      exact absurd rfl hrun
    · exact ⟨htoken, .inr ⟨nofun, habandoned hzombie, hrest⟩⟩
  | persistVolumeIds _ => exact (hnot h.1.1).elim
  | persistMode _ => exact (hnot h.1.1).elim
  | persistCursorId _ => exact (hnot h.1.1).elim
  | _ => exact (hnot h.1).elim

/-- A run that is abandoned was told that it is cancelled, and does not clear what is persisted. -/
theorem Fits.drain {token : ℕ} (h : Fits job t) (hsound : Sound job) (reply : Reply)
    (hcancelled : token ∈ job.cancelled)
    (hclears : reply = .timedOut → t.phase.clearsRun token = false) :
    Fits (drain token reply job) t := by
  rw [VerifyVolumesJob.drain]
  split
  · next hactive =>
    obtain ⟨htimedOut, hactive⟩ := hactive
    by_cases hrun : t.phase.kind = .run token
    · obtain ⟨phase, reply'⟩ := t
      cases phase with
      | run run point =>
        obtain rfl := Kind.run.inj hrun
        refine ⟨h.1, .inr ⟨nofun, List.mem_cons_self, hcancelled, ?_⟩⟩
        have hpoint := hclears htimedOut
        rw [Phase.clearsRun, decide_eq_true rfl, Bool.true_and] at hpoint
        exact hpoint
      | stopDrains _ _ preserveState => cases preserveState <;> cases hrun
      | _ => cases hrun
    · exact h.rest hactive (hsound.not_guarded hactive) hrun (List.subset_cons_self _ _)
  · exact h

theorem Fits.startGuard (h : Fits job t) (hguarded : t.phase.kind = .guarded) :
    job.startGuard := by
  obtain ⟨phase, reply⟩ := t
  cases phase with
  | stopDrains _ _ preserveState => cases preserveState <;> cases hguarded
  | startFrozen _ _ _ => cases hguarded
  | resumeFrozen => cases hguarded
  | stopRecords => cases hguarded
  | stopStartedAt => cases hguarded
  | stopVolumeIds => cases hguarded
  | stopCursorId => cases hguarded
  | stopMode => cases hguarded
  | pauseDrains _ _ => cases hguarded
  | run _ _ => cases hguarded
  | persistVolumeIds _ => exact h.1.1
  | persistMode _ => exact h.1.1
  | persistCursorId _ => exact h.1.1
  | _ => exact h.1

theorem Fits.pauses (h : Fits job t) (hpausing : t.phase.kind = .pausing) :
    job.startGuard = false ∧ (job.activeRun ≠ none → job.finalizing = false) := by
  obtain ⟨phase, reply⟩ := t
  cases phase with
  | pauseDrains _ _ => exact ⟨h.2.2.2.1.1, h.2.2.2.2.1⟩
  | stopDrains _ _ preserveState => cases preserveState <;> cases hpausing
  | _ => cases hpausing

/-! ## A call is answered -/

theorem Sound.cleared (h : Sound job) (hfinalizing : job.activeRun ≠ none → job.finalizing)
    (hwaiting : job.waitingForRebalance = false) {startedAt : Option ℕ}
    (hstartedAt : startedAt = job.verifyStartedAt ∨ startedAt = none)
    (volumeIds : Option (List ℕ)) (cursorId : Option ℕ) (mode : Option VerifyMode) :
    Sound { job with
      verifyStartedAt := startedAt
      verifyVolumeIds := volumeIds
      verifyCursorId := cursorId
      verifyMode := mode } := by
  refine ⟨h.guarded, h.active, h.known, fun hactive hgo => ?_, fun hqueued => ?_,
    fun hstopped => ?_⟩
  · rw [hfinalizing hactive] at hgo
    cases hgo
  · rw [hwaiting] at hqueued
    cases hqueued
  · obtain ⟨hasked, hnone, hcleared⟩ := h.stopped hstopped
    exact ⟨hasked, hnone, hstartedAt.elim (·.trans hcleared) id⟩

/-- A start persists what it asks for. -/
theorem Sound.starts (h : Sound job) (hstarting : Starting job) (startedAt : Option ℕ)
    (volumeIds : Option (List ℕ)) (cursorId : Option ℕ) (mode : Option VerifyMode) :
    Sound { job with
      verifyStartedAt := startedAt
      verifyVolumeIds := volumeIds
      verifyCursorId := cursorId
      verifyMode := mode } := by
  obtain ⟨hguarded, hasked, hnone⟩ := hstarting
  refine ⟨h.guarded, h.active, h.known, fun hactive => absurd (h.guarded hguarded) hactive,
    fun hqueued => ?_, fun hstopped => ?_⟩
  · obtain ⟨-, scope, -, hpersists, -⟩ := h.queued hqueued
    rw [hnone] at hpersists
    cases hpersists
  · obtain ⟨hstop, -⟩ := h.stopped hstopped
    rw [hasked] at hstop
    cases hstop

/-- Where it matters to what follows that the call was not rejected. -/
def Phase.commits : Phase → Bool
  | .persistVolumeIds _ => true
  | .persistMode _ => true
  | .persistStartedAt _ => true
  | .stopStartedAt => true
  | _ => false

theorem Fits.reply {phase : Phase} {reply : Reply} (h : Fits job ⟨phase, none⟩)
    (hsound : Sound job) (hexpected : reply.rejected = none → expects job phase reply)
    (hrejected : reply.rejected.isSome → fails phase) (hok : phase.commits → reply ≠ .ok) :
    Fits job ⟨phase, some reply⟩ := by
  have hnot {P : Prop} (hcommits : phase.commits) (heq : some reply = some .ok) : P :=
    absurd (Option.some.inj heq) (hok hcommits)
  have hsettled {token : ℕ} (hmem : token ∈ job.settled) : job.activeRun ≠ some token :=
    fun hactive => (hsound.active token hactive).2.2 hmem
  cases phase with
  | startExisting _ =>
    refine ⟨h.1, h.2.1, h.2.2.1, fun stored heq => ?_⟩
    obtain rfl := Option.some.inj heq
    exact of_decide_eq_true (hexpected rfl)
  | loadVolumeIds _ _ =>
    refine ⟨h.1, h.2.1, fun stored heq => ?_⟩
    obtain rfl := Option.some.inj heq
    exact of_decide_eq_true (hexpected rfl)
  | loadMode _ _ _ _ =>
    refine ⟨h.1, h.2.1, h.2.2.1, fun stored heq => ?_⟩
    obtain rfl := Option.some.inj heq
    exact of_decide_eq_true (hexpected rfl)
  | resumeExisting =>
    refine ⟨h.1, fun stored heq => ?_⟩
    obtain rfl := Option.some.inj heq
    exact of_decide_eq_true (hexpected rfl)
  | persistVolumeIds _ => exact ⟨h.1, h.2.1, hnot rfl⟩
  | persistMode _ => exact ⟨h.1, h.2.1, hnot rfl⟩
  | persistStartedAt _ => exact ⟨h.1, h.2.1, h.2.2.1, nofun, hnot rfl⟩
  | stopStartedAt => exact ⟨h.1, hnot rfl⟩
  | stopDrains token _ _ =>
    refine ⟨h.1, h.2.1, fun _ heq => ?_, h.2.2.2⟩
    obtain rfl := Option.some.inj heq
    cases reply with
    | timedOut => exact .inl rfl
    | drained => exact .inr (hsettled (of_decide_eq_true (hexpected rfl)))
    | failed _ => cases hrejected rfl
    | _ => cases hexpected rfl
  | pauseDrains token _ =>
    refine ⟨h.1, h.2.1, fun _ heq => ?_, h.2.2.2⟩
    obtain rfl := Option.some.inj heq
    cases reply with
    | timedOut => exact .inl rfl
    | drained => exact .inr (hsettled (of_decide_eq_true (hexpected rfl)))
    | failed _ => cases hrejected rfl
    | _ => cases hexpected rfl
  | _ => exact h

/-- What an answer does to the store disturbs no task beside the one that is answered. -/
structure Answered (job job' : Job) (phase : Phase) (reply : Reply) : Prop where
  sound : Sound job'
  others : ∀ u, Fits job u → phase.kind.beside u.phase.kind → Fits job' u
  fits : Fits job' ⟨phase, some reply⟩

theorem answered_cursorId {phase : Phase} {reply : Reply} (h : Sound job)
    (hfits : Fits job ⟨phase, some reply⟩) (cursorId : Option ℕ) :
    Answered job { job with verifyCursorId := cursorId } phase reply :=
  ⟨⟨h.guarded, h.active, h.known, h.executing, h.queued, h.stopped⟩, fun _ hu _ => hu, hfits⟩

theorem answered_starts {phase : Phase} {reply : Reply} (h : Sound job)
    (hstarting : Starting job) (hkind : phase.kind = .guarded) {startedAt : Option ℕ}
    {volumeIds : Option (List ℕ)} {cursorId : Option ℕ} {mode : Option VerifyMode}
    (hfits : Fits { job with
      verifyStartedAt := startedAt
      verifyVolumeIds := volumeIds
      verifyCursorId := cursorId
      verifyMode := mode } ⟨phase, some reply⟩) :
    Answered job { job with
      verifyStartedAt := startedAt
      verifyVolumeIds := volumeIds
      verifyCursorId := cursorId
      verifyMode := mode } phase reply := by
  have hnone := h.guarded hstarting.1
  refine ⟨h.starts hstarting _ _ _ _, fun u hu hbeside => ?_, hfits⟩
  rw [hkind] at hbeside
  exact hu.guards hnone ⟨rfl, rfl, rfl, Nat.le_refl _, by rw [hnone]; nofun⟩ hbeside

theorem answered_cleared {phase : Phase} {reply : Reply} (h : Sound job)
    (hclearing : Clearing job) (hkind : phase.kind = .clearing) {startedAt : Option ℕ}
    (hstartedAt : startedAt = job.verifyStartedAt ∨ startedAt = none)
    {volumeIds : Option (List ℕ)} {cursorId : Option ℕ} {mode : Option VerifyMode}
    (hfits : Fits { job with
      verifyStartedAt := startedAt
      verifyVolumeIds := volumeIds
      verifyCursorId := cursorId
      verifyMode := mode } ⟨phase, some reply⟩) :
    Answered job { job with
      verifyStartedAt := startedAt
      verifyVolumeIds := volumeIds
      verifyCursorId := cursorId
      verifyMode := mode } phase reply := by
  obtain ⟨-, hwaiting, hnone⟩ := hclearing
  refine ⟨h.cleared (absurd hnone) hwaiting hstartedAt _ _ _, fun u hu hbeside => ?_, hfits⟩
  rw [hkind] at hbeside
  refine hu.cleared (fun hguarded => ?_) (fun hpausing => ?_) hstartedAt _ _ _
  · rw [hguarded] at hbeside
    exact hbeside
  · rw [hpausing] at hbeside
    exact hbeside

/-- A run that has completed clears what is persisted. -/
theorem answered_finalizes {run : Run} {point : Point} {reply : Reply} (h : Sound job)
    (hfits : Fits job ⟨.run run point, some reply⟩) (hclears : point.clears)
    {startedAt : Option ℕ}
    (hstartedAt : startedAt = job.verifyStartedAt ∨ startedAt = none)
    (volumeIds : Option (List ℕ)) (cursorId : Option ℕ) (mode : Option VerifyMode) :
    Answered job { job with
      verifyStartedAt := startedAt
      verifyVolumeIds := volumeIds
      verifyCursorId := cursorId
      verifyMode := mode } (.run run point) reply := by
  obtain ⟨-, ⟨hactive, -, -, -, hfinalizing⟩ | ⟨-, -, -, hnot⟩⟩ := id hfits
  · have hgoes : job.finalizing := by
      rw [hfinalizing]
      cases point with
      | _ => first | rfl | cases hclears
    have hwaiting : job.waitingForRebalance = false := by
      rw [Bool.eq_false_iff]
      intro hwaiting
      rw [(h.queued hwaiting).1] at hactive
      cases hactive
    refine ⟨h.cleared (fun _ => hgoes) hwaiting hstartedAt _ _ _, fun u hu _ => ?_, hfits⟩
    refine hu.cleared (fun hguarded => ?_) (fun hpausing => ?_) hstartedAt _ _ _
    · have hguard := hu.startGuard hguarded
      rw [h.not_guarded hactive] at hguard
      cases hguard
    · have hgo := (hu.pauses hpausing).2 (by rw [hactive]; nofun)
      rw [hgoes] at hgo
      cases hgo
  · rw [hclears] at hnot
    cases hnot

theorem answered_of_answer {phase : Phase} {reply : Reply} (h : Sound job)
    (hfits : Fits job ⟨phase, none⟩) (hanswer : answer phase reply job = some job') :
    Answered job job' phase reply := by
  obtain ⟨hexpected, hallowed⟩ := stored_allowed hanswer
  rcases stored_cases hanswer with ⟨hrejected, rfl⟩ | rfl
  · refine answered_cursorId h (hfits.reply h hexpected hallowed fun _ hok => ?_) _
    rw [hok] at hrejected
    cases hrejected
  cases phase with
  | persistVolumeIds requested =>
    obtain ⟨hstarting, hnormal, -⟩ := hfits
    refine answered_starts h hstarting rfl ⟨hstarting, hnormal, fun _ => ?_⟩
    rw [hnormal.applyVolumeFilter]
    exact hnormal
  | persistMode requested =>
    exact answered_starts h hfits.1 rfl
      ⟨hfits.1, hfits.2.1, fun _ => normalizeMode_persisted requested.mode⟩
  | persistStartedAt requested =>
    obtain ⟨hguard, hasked, hrequest, hnone, -⟩ := hfits
    exact answered_starts h ⟨hguard, hasked, hnone rfl⟩ rfl
      ⟨hguard, hasked, hrequest, nofun, fun _ => rfl⟩
  | persistCursorId _ => exact answered_cursorId h hfits _
  | stopStartedAt =>
    exact answered_cleared h hfits.1 rfl (.inr rfl) ⟨hfits.1, fun _ => rfl⟩
  | stopVolumeIds => exact answered_cleared h hfits.1 rfl (.inl rfl) hfits
  | stopCursorId => exact answered_cleared h hfits.1 rfl (.inl rfl) hfits
  | stopMode => exact answered_cleared h hfits.1 rfl (.inl rfl) hfits
  | run run point =>
    cases point with
    | setCursorId last => exact answered_cursorId h hfits _
    | deleteStartedAt => exact answered_finalizes h hfits rfl (.inr rfl) _ _ _
    | deleteVolumeIds => exact answered_finalizes h hfits rfl (.inl rfl) _ _ _
    | deleteCursorId => exact answered_finalizes h hfits rfl (.inl rfl) _ _ _
    | deleteMode => exact answered_finalizes h hfits rfl (.inl rfl) _ _ _
    | _ => exact answered_cursorId h hfits _
  | _ => exact answered_cursorId h (hfits.reply h hexpected hallowed nofun) _

/-! ## What holds the guard goes on -/

/-- A start or a resume that holds the guard goes on, or it ends, and perhaps leaves a run. -/
structure Goes (job : Job) (result : Job × Option Phase) : Prop where
  sound : Sound result.1
  guards : Guards job result.1
  fits : ∀ phase ∈ result.2, Fits result.1 ⟨phase, none⟩ ∧
    (phase.kind = .guarded ∨ phase.kind = .run (job.runToken + 1))

theorem guards_of_eq (hnone : job.activeRun = none) (hasked : job'.asked = job.asked)
    (hcancelled : job'.cancelled = job.cancelled) (habandoned : job'.abandoned = job.abandoned)
    (htoken : job'.runToken = job.runToken) (hactive : job'.activeRun = job.activeRun) :
    Guards job job' :=
  ⟨hasked, hcancelled, habandoned, Nat.le_of_eq htoken.symm, by rw [hactive, hnone]; nofun⟩

theorem goes_on {phase : Phase} (h : Sound job) (hguard : job.startGuard)
    (hfits : Fits job ⟨phase, none⟩) (hkind : phase.kind = .guarded) :
    Goes job (job, some phase) := by
  refine ⟨h, guards_of_eq (h.guarded hguard) rfl rfl rfl rfl rfl, fun next hnext => ?_⟩
  obtain rfl := Option.some.inj hnext
  exact ⟨hfits, .inl hkind⟩

theorem goes_end (h : Sound job) (hguard : job.startGuard) : Goes job (unguard job, none) :=
  ⟨⟨nofun, h.active, h.known, h.executing, h.queued, h.stopped⟩,
    guards_of_eq (h.guarded hguard) rfl rfl rfl rfl rfl, nofun⟩

theorem queue_goes {scope : Scope} (h : Sound job) (hguard : job.startGuard)
    (hpersists : Persists job scope) : Goes job (guarded (queue scope job, none)) := by
  have hnone := h.guarded hguard
  exact ⟨⟨nofun, h.active, h.known, h.executing, fun _ => ⟨hnone, scope, rfl, hpersists⟩,
    h.stopped⟩, guards_of_eq hnone rfl rfl rfl rfl rfl, nofun⟩

theorem Persists.not_stopped {scope : Scope} (h : Persists job scope) (hsound : Sound job) :
    ¬job.stopReturned := by
  intro hstopped
  have hnone := (hsound.stopped hstopped).2.2
  rw [h.1] at hnone
  cases hnone

/-- The next batch is begun, unless the run was cancelled. It does not finalize in any case. -/
theorem nextBatch_eq (run : Run) (job : Job) : ∃ point, nextBatch run job =
    (job, some (.run run point)) ∧ point.finalizes = false ∧ point.clears = false := by
  rw [nextBatch]
  split
  · exact ⟨.settles false, rfl, rfl, rfl⟩
  · exact ⟨.isFrozen, rfl, rfl, rfl⟩

theorem launch_goes {isResume : Bool} {scope : Scope} {cursorId : Option ℕ} (h : Sound job)
    (hguard : job.startGuard) (hpersists : Persists job scope) :
    Goes job (guarded (launch isResume scope cursorId job)) := by
  have hnone := h.guarded hguard
  have hfilter : applyVolumeFilter scope.volumeIds = scope.volumeIds := by
    rw [← hpersists.2.1]
    exact (normal_normalizeVolumeIds _).applyVolumeFilter
  have hfresh : ¬(job.runToken + 1 ∈ job.abandoned ∨ job.runToken + 1 ∈ job.settled) :=
    fun hknown => Nat.not_succ_le_self _ (h.known _ hknown)
  obtain ⟨job', hjob', hstart⟩ : ∃ job', job' = { job with
      waitingForRebalance := false
      startedAt := some scope.startedAt
      currentMode := scope.mode
      volumeFilter := applyVolumeFilter scope.volumeIds
      runToken := job.runToken + 1
      activeRun := some (job.runToken + 1)
      finalizing := false } ∧ ∃ point, point.finalizes = false ∧
        launch isResume scope cursorId job = (job', some (.run ⟨job.runToken + 1, cursorId,
          scope.startedAt, scope.mode⟩ point)) := by
    refine ⟨_, rfl, ?_⟩
    rw [launch, if_neg (by rw [hnone]; exact Bool.false_ne_true)]
    dsimp only
    split
    · obtain ⟨point, heq, hpoint, -⟩ := nextBatch_eq _ _
      exact ⟨point, hpoint, heq⟩
    · exact ⟨.resetVolumeCounters, rfl, rfl⟩
  obtain ⟨point, hpoint, heq⟩ := hstart
  rw [heq]
  subst hjob'
  refine ⟨⟨nofun, fun token htoken => ?_, fun token hknown => ?_, fun _ _ => ?_, nofun,
    fun hstopped => ?_⟩, ⟨rfl, rfl, rfl, Nat.le_succ _, fun token htoken => ?_⟩,
    fun phase hphase => ?_⟩
  · obtain rfl := Option.some.inj htoken
    exact ⟨Nat.le_refl _, not_or.mp hfresh⟩
  · exact Nat.le_succ_of_le (h.known token hknown)
  · exact ⟨scope, congrArg
      (fun volumeIds => some (⟨scope.startedAt, volumeIds, scope.mode⟩ : Scope)) hfilter, hpersists⟩
  · exact absurd hstopped (hpersists.not_stopped h)
  · obtain rfl := Option.some.inj htoken
    exact Nat.lt_succ_self _
  · obtain rfl := Option.some.inj hphase
    exact ⟨⟨Nat.le_refl _, .inl ⟨rfl, (not_or.mp hfresh).1, rfl, rfl, hpoint.symm⟩⟩, .inr rfl⟩

theorem deferOrLaunch_goes {isResume : Bool} {scope : Scope} {cursorId : Option ℕ}
    (h : Sound job) (hguard : job.startGuard) (hpersists : Persists job scope) :
    Goes job (guarded (deferOrLaunch isResume scope cursorId job)) := by
  rw [deferOrLaunch]
  split
  · exact queue_goes h hguard hpersists
  · exact launch_goes h hguard hpersists

theorem resume_goes {phase : Phase} {reply : Reply} (h : Sound job)
    (hfits : Fits job ⟨phase, some reply⟩) (hkind : phase.kind = .guarded) :
    Goes job (resume phase reply job) := by
  have hguard : job.startGuard := hfits.startGuard hkind
  have hend : Goes job (unguard job, none) := goes_end h hguard
  cases phase with
  | startExisting requested =>
    cases reply with
    | startedAt stored =>
      obtain ⟨-, hasked, hnormal, hstored⟩ := hfits
      cases stored with
      | none =>
        exact goes_on h hguard ⟨⟨hguard, hasked, (hstored _ rfl).symm⟩, hnormal, nofun⟩ rfl
      | some existing => exact goes_on h hguard ⟨hguard, (hstored _ rfl).symm, nofun⟩ rfl
    | _ => exact hend
  | loadVolumeIds loader existing =>
    cases reply with
    | volumeIds stored =>
      refine goes_on h hguard ⟨hguard, hfits.2.1, ?_⟩ rfl
      rw [hfits.2.2 stored rfl]
    | _ => exact hend
  | loadCursorId loader existing volumeIds =>
    cases reply with
    | cursorId stored => exact goes_on h hguard ⟨hguard, hfits.2.1, hfits.2.2, nofun⟩ rfl
    | _ => exact hend
  | loadMode loader existing volumeIds cursorId =>
    cases reply with
    | mode stored =>
      refine goes_on h hguard ⟨hguard, hfits.2.1, hfits.2.2.1, ?_⟩ rfl
      rw [hfits.2.2.2 stored rfl]
    | _ => exact hend
  | countObjects loader scope cursorId =>
    cases loader with
    | start => exact deferOrLaunch_goes h hguard hfits.2
    | resume => exact launch_goes h hguard hfits.2
  | persistVolumeIds requested =>
    cases reply with
    | ok => exact goes_on h hguard ⟨hfits.1, hfits.2.2 rfl, nofun⟩ rfl
    | _ => exact hend
  | persistMode requested =>
    cases reply with
    | ok => exact goes_on h hguard ⟨hfits.1, hfits.2.1, hfits.2.2 rfl⟩ rfl
    | _ => exact hend
  | persistCursorId requested =>
    cases reply with
    | ok =>
      obtain ⟨⟨-, hasked, hnone⟩, hrequest⟩ := hfits
      exact goes_on h hguard ⟨hguard, hasked, hrequest, fun _ => hnone, nofun⟩ rfl
    | _ => exact hend
  | persistStartedAt requested =>
    cases reply with
    | ok =>
      obtain ⟨-, -, hrequest, -, hstartedAt⟩ := hfits
      exact goes_on h hguard ⟨hguard, hstartedAt rfl, hrequest⟩ rfl
    | _ => exact hend
  | recordRunStart requested =>
    cases reply with
    | ok => exact deferOrLaunch_goes h hguard hfits.2
    | _ => exact hend
  | resumeExisting =>
    cases reply with
    | startedAt stored =>
      cases stored with
      | none => exact hend
      | some existing =>
        have hstored : job.verifyStartedAt = some existing := (hfits.2 _ rfl).symm
        rw [resume]
        split
        · exact queue_goes h hguard ⟨hstored, rfl, rfl⟩
        · exact goes_on h hguard ⟨hguard, hstored, nofun⟩ rfl
    | _ => exact hend
  | stopDrains _ _ preserveState => cases preserveState <;> cases hkind
  | _ => cases hkind

/-! ## A run goes on -/

/-- A run goes on, be it the active one or one that was abandoned. -/
structure Runs (job : Job) (token : ℕ) (result : Job × Option Phase) : Prop where
  sound : Sound result.1
  others : ∀ u, Fits job u → u.phase.kind ≠ .run token → Fits result.1 u
  fits : ∀ phase ∈ result.2, Fits result.1 ⟨phase, none⟩ ∧ phase.kind = .run token

theorem Fits.moves {run run' : Run} {point point' : Point} {reply reply' : Option Reply}
    (h : Fits job ⟨.run run point, reply⟩) (htoken : run'.token = run.token)
    (hstartedAt : run'.startedAt = run.startedAt) (hmode : run'.mode = run.mode)
    (hfinalizes : point'.finalizes = point.finalizes)
    (hclears : point.clears = false → point'.clears = false) :
    Fits job ⟨.run run' point', reply'⟩ := by
  show run'.token ≤ job.runToken ∧ _
  rw [htoken, hstartedAt, hmode, hfinalizes]
  exact ⟨h.1, h.2.imp id fun hzombie =>
    ⟨hzombie.1, hzombie.2.1, hzombie.2.2.1, hclears hzombie.2.2.2⟩⟩

theorem moves_runs {run : Run} {point point' : Point} {reply : Option Reply} (h : Sound job)
    (hfits : Fits job ⟨.run run point, reply⟩) (hfinalizes : point'.finalizes = point.finalizes)
    (hclears : point.clears = false → point'.clears = false) :
    Runs job run.token (job, some (.run run point')) := by
  refine ⟨h, fun _ hu _ => hu, fun phase hphase => ?_⟩
  obtain rfl := Option.some.inj hphase
  exact ⟨hfits.moves rfl rfl rfl hfinalizes hclears, rfl⟩

theorem leave_runs {run : Run} {completed : Bool} {point : Point} {reply : Option Reply}
    (h : Sound job) (hfits : Fits job ⟨.run run point, reply⟩)
    (hfinalizes : point.finalizes = false) : Runs job run.token (leave run completed job) := by
  rw [leave]
  split
  · next hgo =>
    rw [Bool.and_eq_true, Bool.and_eq_true, decide_eq_true_eq, decide_eq_true_eq] at hgo
    obtain ⟨⟨-, hcancelled⟩, hactive⟩ := hgo
    obtain ⟨htoken, ⟨-, habandoned, hstartedAt, hmode, -⟩ | ⟨hnot, -⟩⟩ := hfits
    · refine ⟨⟨h.guarded, h.active, h.known, fun _ => nofun, h.queued, h.stopped⟩,
        fun u hu hkind => ?_, fun phase hphase => ?_⟩
      · obtain ⟨phase, reply'⟩ := u
        cases phase with
        | pauseDrains token parked =>
          have hthis : run.token = token := hu.2.2.2.1.2 run.token hactive
          exact absurd (hthis ▸ hu.2.1) hcancelled
        | run run' point' =>
          refine ⟨hu.1, .inr (hu.2.resolve_left fun hother => ?_)⟩
          rw [hactive] at hother
          exact hkind (congrArg Kind.run (Option.some.inj hother.1).symm)
        | _ => exact hu
      · obtain rfl := Option.some.inj hphase
        exact ⟨⟨htoken, .inl ⟨hactive, habandoned, hstartedAt, hmode, rfl⟩⟩, rfl⟩
    · exact absurd hactive hnot
  · exact moves_runs h hfits hfinalizes.symm fun _ => rfl

theorem nextBatch_runs {run : Run} {point : Point} {reply : Option Reply} (h : Sound job)
    (hfits : Fits job ⟨.run run point, reply⟩) (hfinalizes : point.finalizes = false) :
    Runs job run.token (nextBatch run job) := by
  obtain ⟨point', heq, hpoint', hclears⟩ := nextBatch_eq run job
  rw [heq]
  exact moves_runs h hfits (hpoint'.trans hfinalizes.symm) fun _ => hclears

theorem advanceCursor_runs {run : Run} {last : Option ℕ} {point : Point} {reply : Option Reply}
    (h : Sound job) (hfits : Fits job ⟨.run run point, reply⟩)
    (hfinalizes : point.finalizes = false) :
    Runs job run.token (advanceCursor run last job) := by
  cases last with
  | none => exact nextBatch_runs h hfits hfinalizes
  | some cursorId =>
    have hcursor : Fits job ⟨.run { run with cursorId := some cursorId } .isFrozen, none⟩ :=
      hfits.moves rfl rfl rfl hfinalizes.symm fun _ => rfl
    rw [advanceCursor]
    split
    · have hmoves : Runs job ({ run with cursorId := some cursorId } : Run).token (job,
          some (.run { run with cursorId := some cursorId } (.setCursorId cursorId))) :=
        moves_runs h hcursor rfl fun _ => rfl
      exact hmoves
    · have hnext : Runs job ({ run with cursorId := some cursorId } : Run).token
          (nextBatch { run with cursorId := some cursorId } job) := nextBatch_runs h hcursor rfl
      exact hnext

theorem Sound.rest {token : ℕ} (h : Sound job) (hactive : job.activeRun = some token)
    {settled abandoned : List ℕ}
    (hknown : ∀ token, token ∈ abandoned ∨ token ∈ settled → token ≤ job.runToken) :
    Sound (rest { job with settled := settled, abandoned := abandoned }) := by
  have hnot (hnone : job.activeRun = none) : False := by
    rw [hnone] at hactive
    cases hactive
  exact ⟨fun _ => rfl, nofun, hknown, fun hne => absurd rfl hne,
    fun hqueued => (hnot (h.queued hqueued).1).elim,
    fun hstopped => (hnot (h.stopped hstopped).2.1).elim⟩

theorem settle_runs {run : Run} {point : Point} {reply : Option Reply} (h : Sound job)
    (hfits : Fits job ⟨.run run point, reply⟩) : Runs job run.token (settle run job, none) := by
  have hknown : ∀ token, token ∈ job.abandoned ∨ token ∈ run.token :: job.settled →
      token ≤ job.runToken := by
    rintro token (habandoned | hsettled)
    · exact h.known token (.inl habandoned)
    · rcases List.mem_cons.mp hsettled with rfl | hsettled
      · exact hfits.1
      · exact h.known token (.inr hsettled)
  refine ⟨?_, fun u hu hkind => ?_, nofun⟩
  · rw [settle]
    split
    · next hactive => exact h.rest hactive hknown
    · next hactive =>
      refine ⟨h.guarded, fun token htoken => ?_, hknown, h.executing, h.queued, h.stopped⟩
      obtain ⟨hle, habandoned, hsettled⟩ := h.active token htoken
      refine ⟨hle, habandoned, fun hmem => ?_⟩
      rcases List.mem_cons.mp hmem with rfl | hmem
      · exact hactive htoken
      · exact hsettled hmem
  · rw [settle]
    split
    · next hactive => exact hu.rest hactive (h.not_guarded hactive) hkind (List.Subset.refl _)
    · exact hu

theorem Sound.cancelRun (h : Sound job) (token : ℕ) : Sound (cancelRun token job) :=
  ⟨h.guarded, h.active, h.known, h.executing, h.queued, h.stopped⟩

theorem resumeRun_runs {run : Run} {point : Point} {reply : Reply} (h : Sound job)
    (hfits : Fits job ⟨.run run point, some reply⟩) :
    Runs job run.token (resumeRun run point reply job) := by
  cases point with
  | resetVolumeCounters =>
    cases reply with
    | ok => exact nextBatch_runs h hfits rfl
    | _ => exact leave_runs h hfits rfl
  | isFrozen =>
    cases reply with
    | frozen frozen =>
      cases frozen with
      | false => exact moves_runs h hfits rfl fun _ => rfl
      | true => exact leave_runs h hfits rfl
    | _ => exact leave_runs h hfits rfl
  | fetchBatch =>
    cases reply with
    | batch last =>
      cases last with
      | none => exact leave_runs h hfits rfl
      | some last => exact moves_runs h hfits rfl fun _ => rfl
    | _ => exact leave_runs h hfits rfl
  | verifyBatch last =>
    cases reply with
    | verified =>
      rw [resumeRun]
      split
      · exact leave_runs h hfits rfl
      · exact advanceCursor_runs h hfits rfl
    | interrupted aborted =>
      cases aborted with
      | true =>
        obtain ⟨hsound, hothers, hnext⟩ : Runs (cancelRun run.token job) run.token
            (leave run false (cancelRun run.token job)) :=
          leave_runs (h.cancelRun run.token) (hfits.cancelRun run.token) rfl
        exact ⟨hsound, fun u hu hkind => hothers u (hu.cancelRun run.token) hkind, hnext⟩
      | false => exact leave_runs h hfits rfl
    | _ => exact leave_runs h hfits rfl
  | setCursorId last =>
    cases reply with
    | ok => exact nextBatch_runs h hfits rfl
    | _ => exact leave_runs h hfits rfl
  | deleteStartedAt =>
    cases reply with
    | ok => exact moves_runs h hfits rfl nofun
    | _ => exact moves_runs h hfits rfl nofun
  | deleteVolumeIds =>
    cases reply with
    | ok => exact moves_runs h hfits rfl nofun
    | _ => exact moves_runs h hfits rfl nofun
  | deleteCursorId =>
    cases reply with
    | ok => exact moves_runs h hfits rfl nofun
    | _ => exact moves_runs h hfits rfl nofun
  | deleteMode =>
    cases reply with
    | ok => exact moves_runs h hfits rfl fun _ => rfl
    | _ => exact moves_runs h hfits rfl fun _ => rfl
  | recordFinish =>
    rw [resumeRun]
    split
    · exact moves_runs h hfits rfl fun _ => rfl
    · exact moves_runs h hfits rfl fun _ => rfl
  | setLastVerify => exact moves_runs h hfits rfl fun _ => rfl
  | settles completed => exact settle_runs h hfits

/-! ## A stop and a pause go on -/

theorem Sound.drain (h : Sound job) (token : ℕ) (reply : Reply) :
    Sound (drain token reply job) := by
  rw [VerifyVolumesJob.drain]
  split
  · next hactive =>
    refine h.rest hactive.2 fun n hn => ?_
    rcases hn with habandoned | hsettled
    · rcases List.mem_cons.mp habandoned with rfl | habandoned
      · exact (h.active n hactive.2).1
      · exact h.known n (.inl habandoned)
    · exact h.known n (.inr hsettled)
  · exact h

/-- Whether a run has drained or was abandoned, it is not active any more. -/
theorem drain_activeRun {token : ℕ} {reply : Reply} (hheld : Held job token)
    (hreply : reply = .timedOut ∨ job.activeRun ≠ some token) :
    (drain token reply job).activeRun = none := by
  rw [drain]
  split
  · rfl
  · next hnot =>
    have hne : job.activeRun ≠ some token :=
      fun hactive => hnot ⟨hreply.resolve_right (not_not.mpr hactive), hactive⟩
    rw [Option.eq_none_iff_forall_not_mem]
    intro n hn
    exact hne (hheld.2 n hn ▸ hn)

/-- What losing the patience with a run leaves as it is. -/
theorem drain_keeps (token : ℕ) (reply : Reply) (job : Job) : ∃ activeRun startedAt volumeFilter
    currentMode abandoned, drain token reply job = { job with
      activeRun := activeRun
      startedAt := startedAt
      volumeFilter := volumeFilter
      currentMode := currentMode
      abandoned := abandoned } := by
  rw [drain]
  split
  · exact ⟨none, none, none, .full, _, rfl⟩
  · exact ⟨_, _, _, _, _, rfl⟩

/-- Whether a run is queued matters to those only who clear what is persisted. -/
theorem Fits.queue (h : Fits job t) (hclearing : t.phase.kind ≠ .clearing)
    (queued : Option Scope) :
    Fits { job with waitingForRebalance := true, queued := queued } t := by
  obtain ⟨phase, reply⟩ := t
  cases phase with
  | stopDrains _ _ preserveState =>
    cases preserveState with
    | true => exact ⟨h.1, h.2.1, h.2.2.1, nofun⟩
    | false => exact absurd rfl hclearing
  | stopRecords => exact absurd rfl hclearing
  | stopStartedAt => exact absurd rfl hclearing
  | stopVolumeIds => exact absurd rfl hclearing
  | stopCursorId => exact absurd rfl hclearing
  | stopMode => exact absurd rfl hclearing
  | _ => exact h

variable {others : List (Task Phase Reply)}

theorem together_turn {phase : Phase} {reply : Option Reply} (result : Job × Option Phase)
    (h : Together accord job (⟨phase, reply⟩ :: others)) (hsound : Sound result.1)
    (hothers : ∀ u ∈ others, Fits job u → phase.kind.beside u.phase.kind → Fits result.1 u)
    (hnew : ∀ next ∈ result.2, Fits result.1 ⟨next, none⟩ ∧ ∀ u ∈ others, Fits job u →
      phase.kind.beside u.phase.kind → next.kind.beside u.phase.kind) :
    Together accord result.1 (awaiting result.2 ++ others) := by
  refine h.turn hsound hothers fun n hn => ?_
  obtain ⟨next, hnext, rfl⟩ := Option.map_eq_some_iff.mp hn
  exact hnew next hnext

theorem resume_guarded {phase : Phase} {reply : Reply} (hkind : phase.kind = .guarded)
    (h : Together accord job (⟨phase, some reply⟩ :: others)) :
    Together accord (resume phase reply job).1 (awaiting (resume phase reply job).2 ++ others) := by
  have hfits : Fits job ⟨phase, some reply⟩ := h.fits _ List.mem_cons_self
  have hnone := h.sound.guarded (hfits.startGuard hkind)
  obtain ⟨hsound, hguards, hnew⟩ := resume_goes h.sound hfits hkind
  refine together_turn _ h hsound (fun u _ hu hbeside => ?_) fun next hnext => ?_
  · rw [hkind] at hbeside
    exact hu.guards hnone hguards hbeside
  · refine ⟨(hnew next hnext).1, fun u _ hu hbeside => ?_⟩
    rw [hkind] at hbeside
    rcases (hnew next hnext).2 with hguarded | hrun
    · rw [hguarded]
      exact hbeside
    · rw [hrun]
      obtain ⟨phase', reply'⟩ := u
      cases phase' with
      | run run point =>
        intro heq
        have htoken : run.token ≤ job.runToken := hu.1
        rw [← heq] at htoken
        exact Nat.not_succ_le_self _ htoken
      | stopDrains _ _ preserveState => cases preserveState <;> trivial
      | _ => trivial

theorem resume_run {run : Run} {point : Point} {reply : Reply}
    (h : Together accord job (⟨.run run point, some reply⟩ :: others)) :
    Together accord (resumeRun run point reply job).1
      (awaiting (resumeRun run point reply job).2 ++ others) := by
  obtain ⟨hsound, hothers, hnew⟩ := resumeRun_runs h.sound (h.fits _ List.mem_cons_self)
  refine together_turn _ h hsound (fun u _ hu hbeside => hothers u hu fun hsame => ?_)
    fun next hnext => ⟨(hnew next hnext).1, fun u _ _ hbeside => ?_⟩
  · rw [hsame] at hbeside
    exact hbeside rfl
  · rw [(hnew next hnext).2]
    exact hbeside

/-- A start or a resume takes the guard. -/
theorem resume_takes_guard {phase next : Phase} {reply : Reply}
    (h : Together accord job (⟨phase, some reply⟩ :: others)) (hnone : job.activeRun = none)
    (hguard : job.startGuard = false) (hundisturbed : Undisturbed others)
    (hnext : next.kind = .guarded) (hfits : Fits { job with startGuard := true } ⟨next, none⟩) :
    Together accord { job with startGuard := true } (awaiting (some next) ++ others) := by
  have hsound := h.sound
  have hbeside : ∀ u ∈ others, Fits job u → Kind.guarded.beside u.phase.kind := by
    intro u hmem hu
    have hkind := hundisturbed u hmem
    cases hthis : u.phase.kind with
    | free => trivial
    | run _ => trivial
    | guarded =>
      have hheld := hu.startGuard hthis
      rw [hguard] at hheld
      cases hheld
    | clearing => exact absurd hthis hkind.1
    | pausing => exact absurd hthis hkind.2
  refine together_turn ({ job with startGuard := true }, some next) h
    ⟨fun _ => hnone, hsound.active, hsound.known, hsound.executing, hsound.queued,
      hsound.stopped⟩ (fun u hmem hu _ => ?_) fun phase hphase => ?_
  · exact hu.guards hnone (guards_of_eq hnone rfl rfl rfl rfl rfl) (hbeside u hmem hu)
  · obtain rfl := Option.some.inj hphase
    refine ⟨hfits, fun u hmem hu _ => ?_⟩
    rw [hnext]
    exact hbeside u hmem hu

theorem resume_stays {phase : Phase} {reply : Reply}
    (h : Together accord job (⟨phase, some reply⟩ :: others)) {next : Option Phase}
    (hnew : ∀ phase' ∈ next, Fits job ⟨phase', none⟩ ∧ phase'.kind = phase.kind) :
    Together accord job (awaiting next ++ others) := by
  refine together_turn (job, next) h h.sound (fun _ _ hu _ => hu) fun phase' hphase => ?_
  refine ⟨(hnew phase' hphase).1, fun _ _ _ hbeside => ?_⟩
  rw [(hnew phase' hphase).2]
  exact hbeside

theorem resume_drains {token : ℕ} {startedAt : Option ℕ} {preserveState : Bool} {reply : Reply}
    (hcare : careful.resume (.stopDrains token startedAt preserveState) reply job others)
    (h : Together accord job (⟨.stopDrains token startedAt preserveState, some reply⟩ :: others)) :
    Together accord (resume (.stopDrains token startedAt preserveState) reply job).1
      (awaiting (resume (.stopDrains token startedAt preserveState) reply job).2 ++ others) := by
  obtain ⟨-, hcancelled, hreply, hclears⟩ := h.fits _ List.mem_cons_self
  refine together_turn _ h (h.sound.drain token reply) (fun u hmem hu _ => ?_) fun next hnext => ?_
  · exact hu.drain h.sound reply hcancelled fun htimedOut => hcare.2.2 htimedOut token rfl u hmem
  · cases preserveState with
    | true => cases hnext
    | false =>
      obtain ⟨hheld, hwaiting⟩ := hclears rfl
      have hnone := drain_activeRun hheld (hreply reply rfl)
      have hclearing : Clearing (drain token reply job) := by
        obtain ⟨_, _, _, _, _, heq⟩ := drain_keeps token reply job
        refine ⟨?_, ?_, hnone⟩
        · rw [heq]
          exact hheld.1
        · rw [heq]
          exact hwaiting
      cases startedAt with
      | none =>
        obtain rfl := Option.some.inj hnext
        exact ⟨⟨hclearing, nofun⟩, fun _ _ _ hbeside => hbeside⟩
      | some _ =>
        obtain rfl := Option.some.inj hnext
        exact ⟨hclearing, fun _ _ _ hbeside => hbeside⟩

theorem resume_pauses {token : ℕ} {parked : Option Scope} {reply : Reply}
    (hcare : careful.resume (.pauseDrains token parked) reply job others)
    (h : Together accord job (⟨.pauseDrains token parked, some reply⟩ :: others)) :
    Together accord (resume (.pauseDrains token parked) reply job).1 others := by
  obtain ⟨-, hcancelled, hreply, hheld, -, scope, hscope, hpersists⟩ :=
    h.fits _ List.mem_cons_self
  have hnone := drain_activeRun hheld (hreply reply rfl)
  have hsound := h.sound.drain token reply
  have hqueued : Persists (drain token reply job) scope := by
    obtain ⟨_, _, _, _, _, heq⟩ := drain_keeps token reply job
    rw [heq]
    exact hpersists
  refine together_turn (resume (.pauseDrains token parked) reply job) h
    ⟨hsound.guarded, hsound.active, hsound.known, hsound.executing,
      fun _ => ⟨hnone, scope, hscope, hqueued⟩, hsound.stopped⟩
    (fun u hmem hu hbeside => ?_) nofun
  refine Fits.queue (hu.drain h.sound reply hcancelled fun htimedOut =>
    hcare.2.2 htimedOut token rfl u hmem) (fun hkind => ?_) parked
  rw [hkind] at hbeside
  exact hbeside

/-- A stop has returned. -/
theorem resume_stopMode {reply : Reply}
    (h : Together accord job (⟨.stopMode, some reply⟩ :: others)) :
    Together accord (resume .stopMode reply job).1
      (awaiting (resume .stopMode reply job).2 ++ others) := by
  cases reply with
  | ok =>
    obtain ⟨⟨-, -, hnone⟩, hcleared⟩ := h.fits _ List.mem_cons_self
    have hsound := h.sound
    refine together_turn (stopReturns job, none) h
      ⟨hsound.guarded, hsound.active, hsound.known, hsound.executing, hsound.queued,
        fun hstopped => ⟨of_decide_eq_true hstopped, hnone, hcleared⟩⟩ (fun _ _ hu _ => hu) nofun
  | _ => exact resume_stays h nofun

theorem together_resume {phase : Phase} {reply : Reply}
    (hcare : careful.resume phase reply job others)
    (h : Together accord job (⟨phase, some reply⟩ :: others)) :
    Together accord (resume phase reply job).1
      (awaiting (resume phase reply job).2 ++ others) := by
  have hfits : Fits job ⟨phase, some reply⟩ := h.fits _ List.mem_cons_self
  have hend : Together accord job (awaiting none ++ others) := resume_stays h nofun
  have hnext {next : Phase} (hnext : Fits job ⟨next, none⟩) (hkind : next.kind = phase.kind) :
      Together accord job (awaiting (some next) ++ others) := by
    refine resume_stays h fun phase' hphase => ?_
    obtain rfl := Option.some.inj hphase
    exact ⟨hnext, hkind⟩
  cases phase with
  | startFrozen volumeIds mode now =>
    cases reply with
    | frozen frozen =>
      cases frozen with
      | true => exact hend
      | false =>
        rw [resume]
        split
        · exact hend
        · next hfree =>
          rw [Bool.or_eq_true, not_or, Option.not_isSome_iff_eq_none, Bool.not_eq_true] at hfree
          have hundisturbed : Undisturbed others := by
            refine ((hcare.1 rfl rfl).resolve_left (not_not.mpr hfree.1)).resolve_left ?_
            rw [hfree.2]
            exact Bool.false_ne_true
          exact resume_takes_guard h hfree.1 hfree.2 hundisturbed rfl
            ⟨rfl, hfits, normal_normalizeVolumeIds volumeIds, nofun⟩
    | _ => exact hend
  | resumeFrozen =>
    cases reply with
    | frozen frozen =>
      cases frozen with
      | true => exact hend
      | false =>
        obtain ⟨hnone, hguard, hundisturbed⟩ := hcare.2.1 rfl rfl
        exact resume_takes_guard h hnone hguard hundisturbed rfl ⟨rfl, nofun⟩
    | _ => exact hend
  | stopDrains _ _ _ => exact resume_drains hcare h
  | pauseDrains _ _ => exact resume_pauses hcare h
  | stopRecords => exact hnext ⟨hfits, nofun⟩ rfl
  | stopStartedAt =>
    cases reply with
    | ok => exact hnext ⟨hfits.1, hfits.2 rfl⟩ rfl
    | _ => exact hend
  | stopVolumeIds =>
    cases reply with
    | ok => exact hnext hfits rfl
    | _ => exact hend
  | stopCursorId =>
    cases reply with
    | ok => exact hnext hfits rfl
    | _ => exact hend
  | stopMode => exact resume_stopMode h
  | run _ _ => exact resume_run h
  | _ => exact resume_guarded rfl h

/-! ## A request comes -/

theorem Fits.asksStart (h : Fits job t) :
    Fits { job with asked := some .start, stopReturned := false } t := by
  obtain ⟨phase, reply⟩ := t
  cases phase with
  | startFrozen _ _ _ => rfl
  | startExisting _ => exact ⟨h.1, rfl, h.2.2⟩
  | persistVolumeIds _ => exact ⟨⟨h.1.1, rfl, h.1.2.2⟩, h.2⟩
  | persistMode _ => exact ⟨⟨h.1.1, rfl, h.1.2.2⟩, h.2⟩
  | persistCursorId _ => exact ⟨⟨h.1.1, rfl, h.1.2.2⟩, h.2⟩
  | persistStartedAt _ => exact ⟨h.1, rfl, h.2.2⟩
  | _ => exact h

theorem Fits.asksStop (h : Fits job t) (hguard : job.startGuard = false)
    (hstarts : t.phase.starts = false) : Fits { job with asked := some .stop } t := by
  have hnot (hguarded : t.phase.kind = .guarded) : False := by
    have hheld := h.startGuard hguarded
    rw [hguard] at hheld
    cases hheld
  obtain ⟨phase, reply⟩ := t
  cases phase with
  | startFrozen _ _ _ => cases hstarts
  | startExisting _ => exact (hnot rfl).elim
  | persistVolumeIds _ => exact (hnot rfl).elim
  | persistMode _ => exact (hnot rfl).elim
  | persistCursorId _ => exact (hnot rfl).elim
  | persistStartedAt _ => exact (hnot rfl).elim
  | _ => exact h

theorem Fits.discards (h : Fits job t) : Fits { job with waitingForRebalance := false } t := by
  obtain ⟨phase, reply⟩ := t
  cases phase with
  | stopDrains _ _ _ =>
    exact ⟨h.1, h.2.1, h.2.2.1, fun hclears => ⟨(h.2.2.2 hclears).1, rfl⟩⟩
  | stopRecords => exact ⟨h.1, rfl, h.2.2⟩
  | stopStartedAt => exact ⟨⟨h.1.1, rfl, h.1.2.2⟩, h.2⟩
  | stopVolumeIds => exact ⟨⟨h.1.1, rfl, h.1.2.2⟩, h.2⟩
  | stopCursorId => exact ⟨⟨h.1.1, rfl, h.1.2.2⟩, h.2⟩
  | stopMode => exact ⟨⟨h.1.1, rfl, h.1.2.2⟩, h.2⟩
  | _ => exact h

variable {tasks : List (Task Phase Reply)}

theorem Kind.free_beside (kind : Kind) : Kind.free.beside kind := by
  cases kind <;> trivial

theorem together_arrive (result : Job × Option Phase) (h : Together accord job tasks)
    (hsound : Sound result.1) (hfits : ∀ u ∈ tasks, Fits job u → Fits result.1 u)
    (hnew : ∀ next ∈ result.2, Fits result.1 ⟨next, none⟩ ∧
      ∀ u ∈ tasks, Fits job u → next.kind.beside u.phase.kind) :
    Together accord result.1 (awaiting result.2 ++ tasks) := by
  refine h.arrive hsound hfits fun n hn => ?_
  obtain ⟨next, hnext, rfl⟩ := Option.map_eq_some_iff.mp hn
  exact hnew next hnext

theorem resumePendingJob_together (h : Together accord job tasks) :
    Together accord (resumePendingJob job).1 (awaiting (resumePendingJob job).2 ++ tasks) := by
  rw [resumePendingJob]
  split
  · exact h
  · refine together_arrive (job, some .resumeFrozen) h h.sound (fun _ _ hu => hu)
      fun next hnext => ?_
    obtain rfl := Option.some.inj hnext
    exact ⟨trivial, fun _ _ _ => Kind.free_beside _⟩

/-- A run is cancelled by a stop or a pause, which waits for it to drain. -/
theorem cancelRun_together {token : ℕ} {next : Phase} (h : Together accord job tasks)
    (hnext : Fits (cancelRun token job) ⟨next, none⟩)
    (hbeside : ∀ u ∈ tasks, Fits job u → next.kind.beside u.phase.kind) :
    Together accord (cancelRun token job) (awaiting (some next) ++ tasks) := by
  refine together_arrive (cancelRun token job, some next) h (h.sound.cancelRun token)
    (fun _ _ hu => hu.cancelRun token) fun next' hnext' => ?_
  obtain rfl := Option.some.inj hnext'
  exact ⟨hnext, hbeside⟩

theorem Sound.held {token : ℕ} (h : Sound job) (hactive : job.activeRun = some token) :
    Held job token ∧ job.waitingForRebalance = false := by
  refine ⟨⟨h.not_guarded hactive, fun n hn => ?_⟩, ?_⟩
  · rw [hactive] at hn
    exact (Option.some.inj hn).symm
  · rw [Bool.eq_false_iff]
    intro hwaiting
    rw [(h.queued hwaiting).1] at hactive
    cases hactive

theorem pauseForRebalance_together (hcare : careful.call .pauseForRebalance job tasks)
    (h : Together accord job tasks) :
    Together accord (call .pauseForRebalance job).1
      (awaiting (call .pauseForRebalance job).2 ++ tasks) := by
  have hblocked : Together accord { job with blockedByRebalance := true } tasks :=
    ⟨⟨h.sound.guarded, h.sound.active, h.sound.known, h.sound.executing, h.sound.queued,
      h.sound.stopped⟩, h.fits, h.beside⟩
  rw [call]
  dsimp only
  split
  · exact hblocked
  · next token hactive =>
    have hne : job.activeRun ≠ none := by
      rw [hactive]
      nofun
    obtain ⟨hfinalizing, hclears⟩ := hcare hne
    obtain ⟨scope, hscope, hpersists⟩ := h.sound.executing hne hfinalizing
    obtain ⟨hheld, -⟩ := h.sound.held hactive
    refine cancelRun_together hblocked ⟨(h.sound.active token hactive).1, List.mem_cons_self, nofun,
      hheld, fun _ => hfinalizing, scope, hscope, hpersists⟩ fun u hmem hu => ?_
    show Kind.pausing.beside u.phase.kind
    cases hkind : u.phase.kind with
    | guarded =>
      have hguard : job.startGuard := Fits.startGuard hu hkind
      rw [hheld.1] at hguard
      cases hguard
    | clearing => exact absurd hkind (hclears u hmem)
    | _ => trivial

/-- A stop that clears what is persisted comes beside what neither starts nor parks a run. -/
theorem clearing_beside {t : Task Phase Reply} (h : Fits job t) (hguard : job.startGuard = false)
    (hpausing : t.phase.kind ≠ .pausing) : Kind.clearing.beside t.phase.kind := by
  cases hkind : t.phase.kind with
  | guarded =>
    have hheld := h.startGuard hkind
    rw [hguard] at hheld
    cases hheld
  | pausing => exact absurd hkind hpausing
  | _ => trivial

theorem stop_together (hcare : careful.call (.stop false) job tasks)
    (h : Together accord job tasks) :
    Together accord (call (.stop false) job).1 (awaiting (call (.stop false) job).2 ++ tasks) := by
  obtain ⟨hguard, htasks, hidle⟩ := hcare
  have hasked : Together accord { job with asked := some .stop } tasks :=
    ⟨⟨h.sound.guarded, h.sound.active, h.sound.known, h.sound.executing, h.sound.queued,
      fun hstopped => ⟨rfl, (h.sound.stopped hstopped).2⟩⟩,
      fun u hu => (h.fits u hu).asksStop hguard (htasks u hu).1, h.beside⟩
  have hbeside : ∀ u ∈ tasks, Fits { job with asked := some .stop } u →
      Kind.clearing.beside u.phase.kind :=
    fun u hmem hu => clearing_beside hu hguard (htasks u hmem).2
  rw [call]
  dsimp only
  split
  · next hactive =>
    split
    · refine together_arrive ({ job with
        asked := some .stop
        waitingForRebalance := false }, some .stopStartedAt) hasked
        ⟨h.sound.guarded, h.sound.active, h.sound.known, h.sound.executing, nofun,
          hasked.sound.stopped⟩ (fun _ _ hu => hu.discards) fun next hnext => ?_
      obtain rfl := Option.some.inj hnext
      exact ⟨⟨⟨hguard, rfl, hactive⟩, nofun⟩, hbeside⟩
    · next hwaiting =>
      exact ⟨⟨h.sound.guarded, h.sound.active, h.sound.known, h.sound.executing, h.sound.queued,
        fun _ => ⟨rfl, hactive, hidle hactive (Bool.eq_false_iff.mpr hwaiting)⟩⟩,
        hasked.fits, h.beside⟩
  · next token hactive =>
    exact cancelRun_together hasked ⟨(h.sound.active token hactive).1, List.mem_cons_self, nofun,
      fun _ => h.sound.held hactive⟩ hbeside

theorem together_call {request : Request} (hcare : careful.call request job tasks)
    (h : Together accord job tasks) :
    Together accord (call request job).1 (awaiting (call request job).2 ++ tasks) := by
  have hsound := h.sound
  cases request with
  | start volumeIds mode now =>
    refine together_arrive (call (.start volumeIds mode now) job) h
      ⟨hsound.guarded, hsound.active, hsound.known, hsound.executing, hsound.queued, nofun⟩
      (fun _ _ hu => hu.asksStart) fun next hnext => ?_
    obtain rfl := Option.some.inj hnext
    exact ⟨rfl, fun _ _ _ => Kind.free_beside _⟩
  | resumePendingJob => exact resumePendingJob_together h
  | releaseForRebalance =>
    have hreleased : Together accord { job with blockedByRebalance := false } tasks :=
      ⟨⟨hsound.guarded, hsound.active, hsound.known, hsound.executing, hsound.queued,
        hsound.stopped⟩, h.fits, h.beside⟩
    exact resumePendingJob_together hreleased
  | pauseForRebalance => exact pauseForRebalance_together hcare h
  | stop preserveState =>
    cases preserveState with
    | true =>
      rw [call]
      split
      · exact h
      · next token hactive =>
        exact cancelRun_together h ⟨(hsound.active token hactive).1, List.mem_cons_self, nofun,
          nofun⟩ fun _ _ _ => Kind.free_beside _
    | false => exact stop_together hcare h

/-! ## Every state that is reached -/

theorem together_initial (h : Initial job) : Together accord job [] := by
  obtain ⟨hactive, hsettled, habandoned, hguard, hwaiting, -, hstopped⟩ := h
  refine together_nil ⟨fun _ => hactive, ?_, ?_, fun hne => absurd hactive hne, ?_, ?_⟩
  · rw [hactive]
    exact nofun
  · rw [hsettled, habandoned]
    exact nofun
  · rw [hwaiting]
    exact nofun
  · rw [hstopped]
    exact nofun

theorem reachable_together {s : State Job Phase Reply}
    (h : Reachable (system.machine careful Initial) s) : Together accord s.job s.tasks :=
  reachable_invariant (fun _ _ _ hl hs => hs.perm hl) (fun _ hinitial => together_initial hinitial)
    (fun _ _ _ hcare hs => together_call hcare hs)
    (fun phase reply job job' others hanswer hs => by
      obtain ⟨hsound, hothers, hfits⟩ := answered_of_answer hs.sound
        (hs.fits _ List.mem_cons_self) hanswer
      show Together accord job' ((some ⟨phase, some reply⟩ : Option _).toList ++ others)
      refine hs.turn hsound (fun u _ hu hbeside => hothers u hu hbeside) fun n hn => ?_
      obtain rfl := Option.some.inj hn
      exact ⟨hfits, fun _ _ _ hbeside => hbeside⟩)
    (fun _ _ _ _ hcare hs => together_resume hcare hs) h

/-- A run that was not abandoned is the active one. -/
theorem Fits.active {run : Run} {point : Point} {reply : Option Reply}
    (h : Fits job ⟨.run run point, reply⟩) (hexecutes : run.token ∉ job.abandoned) :
    job.activeRun = some run.token ∧ job.startedAt = some run.startedAt ∧
      job.currentMode = run.mode ∧ job.finalizing = point.finalizes := by
  obtain ⟨-, ⟨hactive, -, hstartedAt, hmode, hfinalizing⟩ | ⟨-, habandoned, -⟩⟩ := h
  · exact ⟨hactive, hstartedAt, hmode, hfinalizing⟩
  · exact absurd habandoned hexecutes

instance (tasks : List (Task Phase Reply)) : Decidable (Undisturbed tasks) :=
  inferInstanceAs (Decidable (∀ t ∈ tasks, t.phase.kind ≠ .clearing ∧ t.phase.kind ≠ .pausing))

instance (request : Request) (job : Job) (tasks : List (Task Phase Reply)) :
    Decidable (careful.call request job tasks) :=
  match request with
  | .start _ _ _ => inferInstanceAs (Decidable True)
  | .resumePendingJob => inferInstanceAs (Decidable True)
  | .releaseForRebalance => inferInstanceAs (Decidable True)
  | .stop true => inferInstanceAs (Decidable True)
  | .stop false => inferInstanceAs (Decidable (job.startGuard = false ∧
      (∀ t ∈ tasks, t.phase.starts = false ∧ t.phase.kind ≠ .pausing) ∧
      (job.activeRun = none → job.waitingForRebalance = false → job.verifyStartedAt = none)))
  | .pauseForRebalance => inferInstanceAs (Decidable (job.activeRun ≠ none →
      job.finalizing = false ∧ ∀ t ∈ tasks, t.phase.kind ≠ .clearing))

instance (phase : Phase) (reply : Reply) (job : Job) (others : List (Task Phase Reply)) :
    Decidable (careful.resume phase reply job others) :=
  inferInstanceAs (Decidable (
    (reply = .frozen false → phase.starts = true →
      job.activeRun ≠ none ∨ job.startGuard = true ∨ Undisturbed others) ∧
    (reply = .frozen false → phase = .resumeFrozen →
      job.activeRun = none ∧ job.startGuard = false ∧ Undisturbed others) ∧
    (reply = .timedOut → ∀ token ∈ phase.drains, ∀ t ∈ others,
      t.phase.clearsRun token = false)))

def idleJob : Job where
  activeRun := none
  runToken := 0
  cancelled := []
  settled := []
  abandoned := []
  startedAt := none
  volumeFilter := none
  currentMode := .full
  startGuard := false
  waitingForRebalance := false
  blockedByRebalance := false
  verifyStartedAt := none
  verifyVolumeIds := none
  verifyCursorId := none
  verifyMode := none
  queued := none
  finalizing := false
  asked := none
  stopReturned := false

def idle : State Job Phase Reply := ⟨idleJob, []⟩

theorem initial_idle (care : Care Job Phase Reply Request) :
    (system.machine care Initial).Initial idle :=
  ⟨⟨rfl, rfl, rfl, rfl, rfl, rfl, rfl⟩, rfl⟩

abbrev Trace := List (AwaitedCalls.Event Reply Request)

/-- A call of the task in front is answered, and it goes on. -/
def step (reply : Reply) : Trace := [.answer 0 reply, .resume 0]

/-- A call of the task behind the one in front is answered, and it goes on. -/
def stepBehind (reply : Reply) : Trace := [.answer 1 reply, .resume 0]

/-- A verify of two volumes is started. -/
def started : Trace :=
  [.call (.start (some [4, 4, 7]) (some .light) 3)] ++ step (.frozen false) ++
    step (.startedAt none) ++ step .ok ++ step .ok ++ step .ok ++ step .ok ++ step .ok

/-- What is persisted is loaded, and goes on. -/
def loaded : Trace :=
  step (.frozen false) ++ step (.startedAt (some 3)) ++ step (.volumeIds (some [4, 7])) ++
    step (.cursorId none) ++ step (.mode (some .light)) ++ step (.count 0)

/-- The run is parked before it has reset its counters, and goes on when the disks are back. -/
def parked : Trace :=
  started ++ [.call .pauseForRebalance] ++ stepBehind .ok ++ step .ok ++ step .drained ++
    [.call .releaseForRebalance] ++ loaded

theorem orderly_of_reachable {s : State Job Phase Reply}
    (h : Reachable (system.machine careful Initial) s) : Orderly s := by
  obtain ⟨hsound, hfits, hbeside⟩ := reachable_together h
  have hactive {t : Task Phase Reply} (ht : t ∈ s.tasks) (hexecutes : t.phase.executes s.job) :
      ∃ run point, t.phase = .run run point ∧ s.job.activeRun = some run.token := by
    have hthis : Fits s.job t := hfits t ht
    obtain ⟨phase, reply⟩ := t
    cases phase with
    | run run point => exact ⟨run, point, rfl, (hthis.active hexecutes).1⟩
    | _ => exact hexecutes.elim
  refine ⟨?_, fun t ht run point hphase hexecutes hpoint => ?_,
    fun hwaiting => (hsound.queued hwaiting).2, fun hstopped => ?_⟩
  · refine hbeside.imp_of_mem fun {t u} ht hu htogether hboth => ?_
    obtain ⟨run, point, hrun, hthis⟩ := hactive ht hboth.1
    obtain ⟨run', point', hrun', hthat⟩ := hactive hu hboth.2
    have hne : Kind.beside t.phase.kind u.phase.kind := htogether
    rw [hrun, hrun'] at hne
    exact hne (Option.some.inj (hthis.symm.trans hthat))
  · have hrun : Fits s.job t := hfits t ht
    obtain ⟨phase, reply⟩ := t
    obtain rfl := hphase
    obtain ⟨hthis, hstartedAt, hmode, hfinalizing⟩ := hrun.active hexecutes
    obtain ⟨scope, hscope, hpersists⟩ := hsound.executing (by rw [hthis]; nofun)
      (hfinalizing.trans hpoint)
    rw [current, hstartedAt, hmode] at hscope
    obtain rfl := Option.some.inj hscope
    exact hpersists
  · obtain ⟨-, hnone, hcleared⟩ := hsound.stopped hstopped
    refine ⟨hcleared, fun t ht hexecutes => ?_⟩
    obtain ⟨run, point, -, hthis⟩ := hactive ht hexecutes
    rw [hnone] at hthis
    cases hthis

theorem orderly_parked :
    let s := parked.foldl system.next idle
    s.job.activeRun = some 2 ∧ s.job.verifyVolumeIds = some [4, 7] ∧ Orderly s := by
  have hreach := (Reachable.initial (initial_idle careful)).run parked (by decide +kernel)
  exact ⟨by decide +kernel, by decide +kernel, orderly_of_reachable hreach⟩

/-- A freeze parks the run, and the stop that comes then discards nothing. -/
def frozenThenStopped : Trace :=
  started ++ step .ok ++ step (.frozen true) ++ step .ok ++ [.call (.stop false)] ++
    [.call .resumePendingJob] ++ loaded

/-- A stop comes while the start has yet to persist what it was asked for. -/
def stoppedWhileStarting : Trace :=
  started.take 3 ++ [.call (.stop false)] ++ started.drop 3

/-- The run that a stop has waited for is resumed by a start before the stop goes on. -/
def startedWhileStopping : Trace :=
  started ++ [.call (.stop false)] ++ stepBehind .ok ++ step .ok ++
    [.call (.start none none 9)] ++ loaded ++ stepBehind .drained ++ step .ok ++ step .ok ++
    step .ok ++ step .ok ++ step .ok

/-- A rebalance parks a run that has just completed. -/
def parkedWhileFinalizing : Trace :=
  started ++ step .ok ++ step (.frozen false) ++ step (.batch none) ++ [.call .pauseForRebalance] ++
    stepBehind .ok ++ step .ok ++ step .ok ++ step .ok ++ step .ok ++ step .ok ++ step .drained

/-- A stop has returned and no start was called since, and yet a run is under way that is
persisted, be it that it was resumed or that it was being started. A run is under way of which
nothing is persisted, and one is queued of which nothing is. -/
theorem disorderly :
    (∀ trace ∈ [frozenThenStopped, stoppedWhileStarting],
      ∃ s, Reachable (system.machine carefree Initial) s ∧ s = trace.foldl system.next idle ∧
        s.job.stopReturned ∧ s.job.activeRun ≠ none ∧ s.job.verifyStartedAt = some 3) ∧
    (∃ s, Reachable (system.machine carefree Initial) s ∧
      s.tasks = [⟨.run ⟨2, none, 3, .light⟩ .isFrozen, none⟩] ∧ s.job.activeRun = some 2 ∧
      s.job.abandoned = [] ∧ s.job.verifyStartedAt = none) ∧
    ∃ s, Reachable (system.machine carefree Initial) s ∧
      s.tasks = [] ∧ s.job.waitingForRebalance ∧ s.job.verifyStartedAt = none := by
  have hinitial := Reachable.initial (initial_idle carefree)
  refine ⟨fun trace htrace => ?_,
    ⟨_, hinitial.run startedWhileStopping (by decide +kernel), by decide +kernel⟩,
    ⟨_, hinitial.run parkedWhileFinalizing (by decide +kernel), by decide +kernel⟩⟩
  rcases List.mem_pair.mp htrace with rfl | rfl
  · exact ⟨_, hinitial.run frozenThenStopped (by decide +kernel), rfl, by decide +kernel⟩
  · exact ⟨_, hinitial.run stoppedWhileStarting (by decide +kernel), rfl, by decide +kernel⟩

end VerifyVolumesJob
