import Strubs.DrainVolumeJob

/-! # Starting, stopping and cancelling a rebalance

What is over the target is moved off one source after the other, the big objects first. That a
rebalance is active is persisted, so that it goes on after it was stopped, and not once it was
cancelled. -/
namespace RebalanceJob

open AwaitedCalls StateMachine

/-- Whether there is a pause after each move that is begun. -/
structure Config where
  delays : Bool

inductive Request where
  | start
  | resumePendingJob
  | cancel
  | stop
  deriving DecidableEq

/-- The request that was accepted last. A stop changes nothing after a cancel. -/
inductive Accepted where
  | start
  | resume
  | stop
  | cancel
  deriving DecidableEq

structure Job where
  running : Bool
  cancelled : Bool
  concurrency : ℕ
  rebalanceActive : Bool
  rebalanceCursor : Option ℕ
  /-- How many moves were begun. -/
  begun : ℕ
  accepted : Option Accepted
  /-- The cancel that was accepted last has returned. -/
  cancelReturned : Bool
  deriving DecidableEq

/-- What the moves have come to: the source is not over the target any more, or the budget of
moves is spent. -/
structure Seen where
  balanced : Bool
  spent : Bool
  deriving DecidableEq

/-- A source with those that come after it, and a tier of sizes with the smaller ones. -/
structure Place where
  source : ℕ
  rest : List ℕ
  minSize : ℕ
  tiers : List ℕ
  deriving DecidableEq

/-- What a run awaits. It ends cut short if its last source was left because of a stop, a cancel
or a freeze. -/
inductive Point where
  | getConcurrency
  | pauseVerify
  | sourceFrozen (source : ℕ) (rest : List ℕ)
  | shedFrozen (place : Place) (cursor : Option ℕ)
  | findObjectsOnVolume (place : Place) (cursor : Option ℕ)
  | batchConcurrency (place : Place) (docs last : ℕ)
  | race (place : Place) (last left inflight : ℕ)
  | delay (place : Place) (last left inflight : ℕ)
  | all (place : Place) (last inflight : ℕ)
  | finalizeActive (cutShort : Bool)
  | finalizeCursor
  deriving DecidableEq

inductive Phase where
  | startActive
  | resumeActive
  | resumeFrozen
  | cancelActive
  | cancelCursor
  | cancelResumeVerify
  | run (point : Point)
  | resumeVerify
  deriving DecidableEq

/-- A call that is rejected may have been applied all the same. When the verify is parked the
volumes are looked at: how many are eligible, and which ones are over the target. -/
inductive Reply where
  | ok
  | failed (applied : Bool)
  | active (active : Bool)
  | concurrency (stored : Option ℕ) (seen : Seen)
  | paused (pool : ℕ) (sources : List ℕ)
  | frozen (frozen : Bool) (seen : Seen)
  | found (docs last : ℕ) (seen : Seen)
  | landed (inflight : ℕ) (seen : Seen)
  deriving DecidableEq

def defaultConcurrency : ℕ := 3

def maxConcurrency : ℕ := 64

def batchSize : ℕ := 100

def sizeTiers : List ℕ := [256 * 1024 * 1024, 16 * 1024 * 1024, 1024 * 1024, 0]

def normalizeConcurrency (n : ℕ) : ℕ :=
  if n < 1 then defaultConcurrency else min n maxConcurrency

def getConcurrency : Option ℕ → ℕ
  | none => defaultConcurrency
  | some stored => normalizeConcurrency stored

/-- What a call does to the persisted state. -/
def write (job : Job) : Phase → Job
  | .startActive => { job with rebalanceActive := true }
  | .cancelActive => { job with rebalanceActive := false }
  | .cancelCursor => { job with rebalanceCursor := none }
  | .run (.finalizeActive _) => { job with rebalanceActive := false }
  | .run .finalizeCursor => { job with rebalanceCursor := none }
  | _ => job

/-- The answers of a call that is not rejected. Of the moves that are awaited one has landed, or
all of them. -/
def expects (job : Job) : Phase → Reply → Bool
  | .resumeActive, .active active => active = job.rebalanceActive
  | .resumeFrozen, .frozen _ _ => true
  | .run point, reply =>
    match point, reply with
    | .getConcurrency, .concurrency _ _ => true
    | .pauseVerify, .paused _ _ => true
    | .sourceFrozen _ _, .frozen _ _ => true
    | .shedFrozen _ _, .frozen _ _ => true
    | .findObjectsOnVolume _ _, .found docs _ _ => docs ≤ batchSize
    | .batchConcurrency _ _ _, .concurrency _ _ => true
    | .race _ _ _ inflight, .landed inflight' _ => inflight' < inflight
    | .delay _ _ _ inflight, .landed inflight' _ => inflight' ≤ inflight
    | .all _ _ _, .landed inflight' _ => inflight' = 0
    | .finalizeActive _, .ok => true
    | .finalizeCursor, .ok => true
    | _, _ => false
  | .startActive, .ok => true
  | .cancelActive, .ok => true
  | .cancelCursor, .ok => true
  | .cancelResumeVerify, .ok => true
  | .resumeVerify, .ok => true
  | _, _ => false

/-- A move that fails is one that has landed, and a pause does not fail. -/
def fails : Phase → Bool
  | .run (.race _ _ _ _) => false
  | .run (.delay _ _ _ _) => false
  | .run (.all _ _ _) => false
  | _ => true

def Reply.rejected : Reply → Option Bool
  | .failed applied => some applied
  | _ => none

def answer (phase : Phase) (reply : Reply) (job : Job) : Option Job :=
  stored job (write job phase) (expects job phase reply) (fails phase) reply.rejected

def run (job : Job) : Job × Option Phase :=
  if job.running then (job, none)
  else ({ job with running := true, cancelled := false }, some (.run .getConcurrency))

/-- The end of a run, whatever ends it. -/
def finish (job : Job) : Job × Option Phase :=
  ({ job with running := false }, some .resumeVerify)

/-- The sources that are left, and what a run clears after the last of them. -/
def nextSource (cutShort : Bool) (sources : List ℕ) (job : Job) : Job × Option Phase :=
  match sources with
  | [] => (job, some (.run (.finalizeActive cutShort)))
  | source :: rest =>
    if job.cancelled then finish job else (job, some (.run (.sourceFrozen source rest)))

def leaveSource (cutShort : Bool) (rest : List ℕ) (seen : Seen) (job : Job) :
    Job × Option Phase :=
  if seen.spent then (job, some (.run (.finalizeActive false)))
  else nextSource cutShort rest job

/-- The tiers that are left of a source, of which the one before may have been left early. -/
def drainSourceToTarget (cutShort : Bool) (source : ℕ) (rest tiers : List ℕ) (seen : Seen)
    (job : Job) : Job × Option Phase :=
  match tiers with
  | [] => leaveSource cutShort rest seen job
  | minSize :: tiers =>
    if seen.balanced then leaveSource false rest seen job
    else if job.cancelled || seen.spent then leaveSource job.cancelled rest seen job
    else (job, some (.run (.shedFrozen ⟨source, rest, minSize, tiers⟩ none)))

def nextTier (cutShort : Bool) (place : Place) (seen : Seen) (job : Job) : Job × Option Phase :=
  drainSourceToTarget cutShort place.source place.rest place.tiers seen job

def shedTier (place : Place) (cursor : Option ℕ) (seen : Seen) (job : Job) :
    Job × Option Phase :=
  if seen.balanced then nextTier false place seen job
  else if job.cancelled then nextTier true place seen job
  else (job, some (.run (.shedFrozen place cursor)))

/-- The objects of a batch that are left are moved one after the other, until the run has to wait
for a move that is in the air, or makes a pause, or for all of them. -/
def moveBatch (cfg : Config) (place : Place) (last : ℕ) (seen : Seen) :
    ℕ → ℕ → Job → Job × Option Phase
  | 0, inflight, job => (job, some (.run (.all place last inflight)))
  | left + 1, inflight, job =>
    if job.cancelled || seen.spent || seen.balanced then
      (job, some (.run (.all place last inflight)))
    else
      let job := { job with begun := job.begun + 1 }
      if job.concurrency ≤ inflight + 1 then
        (job, some (.run (.race place last left (inflight + 1))))
      else if cfg.delays then (job, some (.run (.delay place last left (inflight + 1))))
      else moveBatch cfg place last seen left (inflight + 1) job

def resumeRun (cfg : Config) (point : Point) (reply : Reply) (job : Job) : Job × Option Phase :=
  match point, reply with
  | .getConcurrency, .concurrency stored _ =>
    ({ job with concurrency := getConcurrency stored }, some (.run .pauseVerify))
  | .pauseVerify, .paused pool sources =>
    if pool < 2 then finish job else nextSource false sources job
  | .sourceFrozen source rest, .frozen false seen =>
    drainSourceToTarget false source rest sizeTiers seen job
  | .shedFrozen place cursor, .frozen frozen seen =>
    if frozen || seen.spent then nextTier frozen place seen job
    else (job, some (.run (.findObjectsOnVolume place cursor)))
  | .findObjectsOnVolume place _, .found 0 _ seen => nextTier false place seen job
  | .findObjectsOnVolume place _, .found docs last _ =>
    (job, some (.run (.batchConcurrency place docs last)))
  | .batchConcurrency place docs last, .concurrency stored seen =>
    moveBatch cfg place last seen docs 0 { job with concurrency := getConcurrency stored }
  | .race place last left _, .landed inflight seen =>
    if cfg.delays then (job, some (.run (.delay place last left inflight)))
    else moveBatch cfg place last seen left inflight job
  | .delay place last left _, .landed inflight seen =>
    moveBatch cfg place last seen left inflight job
  | .all place last _, .landed _ seen => shedTier place (some last) seen job
  | .finalizeActive _, .ok => (job, some (.run .finalizeCursor))
  | _, _ => finish job

def cancelReturns (job : Job) : Job := { job with cancelReturned := job.accepted = some .cancel }

def resume (cfg : Config) (phase : Phase) (reply : Reply) (job : Job) : Job × Option Phase :=
  match phase, reply with
  | .startActive, .ok => run job
  | .resumeActive, .active true => (job, some .resumeFrozen)
  | .resumeFrozen, .frozen false _ => run job
  | .cancelActive, .ok => (job, some .cancelCursor)
  -- a run that is in the air wakes the verify when it ends
  | .cancelCursor, .ok =>
    if job.running then (cancelReturns job, none) else (job, some .cancelResumeVerify)
  | .cancelResumeVerify, .ok => (cancelReturns job, none)
  | .run point, reply => resumeRun cfg point reply job
  | _, _ => (job, none)

def call (request : Request) (job : Job) : Job × Option Phase :=
  match request with
  | .start =>
    if job.running then (job, none)
    else ({ job with accepted := some .start, cancelReturned := false }, some .startActive)
  | .resumePendingJob =>
    ({ job with accepted := some .resume, cancelReturned := false }, some .resumeActive)
  | .cancel =>
    ({ job with cancelled := true, accepted := some .cancel, cancelReturned := false },
      some .cancelActive)
  | .stop =>
    ({ job with
      cancelled := true
      accepted := if job.accepted = some .cancel then some .cancel else some .stop }, none)

def system (cfg : Config) : System Job Phase Reply Request where
  call := call
  answer := answer
  resume := resume cfg

/-- A process that has just come up, whatever it finds persisted. -/
def Initial (job : Job) : Prop :=
  job.running = false ∧ job.cancelled = false ∧ job.accepted = none ∧ job.cancelReturned = false

def Phase.launches : Phase → Bool
  | .startActive => true
  | .resumeActive => true
  | .resumeFrozen => true
  | _ => false

/-- The sources that come after the one that is at hand. -/
def Point.rest : Point → Option (List ℕ)
  | .sourceFrozen _ rest => some rest
  | .shedFrozen place _ => some place.rest
  | .findObjectsOnVolume place _ => some place.rest
  | .batchConcurrency place _ _ => some place.rest
  | .race place _ _ _ => some place.rest
  | .delay place _ _ _ => some place.rest
  | .all place _ _ => some place.rest
  | _ => none

def Phase.atLastSource : Phase → Bool
  | .run point => point.rest = some []
  | _ => false

/-- Where the smallest tier of the last source is left because of a freeze. -/
def Phase.freezes : Phase → Reply → Bool
  | .run (.shedFrozen place _), .frozen true _ => place.rest = [] && place.tiers = []
  | _, _ => false

/-- A start that is not refused, and a resume, come when nothing else is under way than the
verify that is woken, and a cancel when nothing is that will run. So does a stop, and not while
the last source is shed, nor is there a freeze when all but the smallest objects are off it. -/
def careful : Care Job Phase Reply Request where
  call
    | .start, job, tasks => job.running ∨ ∀ t ∈ tasks, t.phase = .resumeVerify
    | .resumePendingJob, _, tasks => ∀ t ∈ tasks, t.phase = .resumeVerify
    | .cancel, _, tasks => ∀ t ∈ tasks, t.phase.launches = false
    | .stop, _, tasks => ∀ t ∈ tasks, t.phase.launches = false ∧ t.phase.atLastSource = false
  resume phase reply job _ := phase.freezes reply → job.accepted = some .cancel

/-- Whether a run has come to clear what is persisted. -/
def Point.cleared : Point → Option Reply → Bool
  | .finalizeActive _, reply => reply.isSome
  | .finalizeCursor, _ => true
  | _, _ => false

/-- A run that is not winding down was started or resumed last, and none is left when nothing is
under way. After a stop, and when a cancel has returned, no move is begun, and after a cancel
nothing is persisted. Until a run has come to its end the rebalance is persisted, and it comes
there cut short only when it was cancelled. -/
structure Settled (cfg : Config) (s : State Job Phase Reply) : Prop where
  running : s.job.running → s.job.cancelled = false →
    s.job.accepted = some .start ∨ s.job.accepted = some .resume
  idle : (∀ t ∈ s.tasks, t.phase = .resumeVerify) → s.job.running = false
  stopped : s.job.accepted = some .stop ∨ s.job.cancelReturned →
    ∀ e, ((system cfg).next s e).job.begun = s.job.begun
  cleared : s.job.cancelReturned → s.job.rebalanceActive = false
  persisted : ∀ t ∈ s.tasks, ∀ point, t.phase = .run point → s.job.accepted ≠ some .cancel →
    point.cleared t.reply = false → s.job.running ∧ s.job.rebalanceActive
  complete : ∀ t ∈ s.tasks, t.phase = .run (.finalizeActive true) →
    s.job.accepted = some .cancel

/-! ## What holds all the time -/

structure Sound (job : Job) : Prop where
  halted : job.accepted = some .stop ∨ job.accepted = some .cancel → job.cancelled
  returned : job.cancelReturned → job.accepted = some .cancel ∧ job.rebalanceActive = false

structure Launching (job : Job) : Prop where
  running : job.running = false
  accepted : job.accepted = some .start ∨ job.accepted = some .resume

/-- A run that has come to a point of which the call has this reply. -/
structure Running (job : Job) (point : Point) (reply : Option Reply) : Prop where
  running : job.running
  accepted : job.accepted ≠ none
  active : job.accepted ≠ some .cancel → point.cleared reply = false → job.rebalanceActive
  last : job.accepted ≠ some .cancel → point.rest = some [] → job.cancelled = false
  complete : job.accepted ≠ some .cancel → point ≠ .finalizeActive true

/-- The task that runs, will run or did run. -/
def MainFits (job : Job) (main : Option (Task Phase Reply)) : Prop :=
  match main with
  | none => job.running = false
  | some ⟨.startActive, reply⟩ => Launching job ∧ (reply = some .ok → job.rebalanceActive)
  | some ⟨.resumeActive, reply⟩ => Launching job ∧
      ∀ active, reply = some (.active active) → active = job.rebalanceActive
  | some ⟨.resumeFrozen, _⟩ => Launching job ∧ job.rebalanceActive
  | some ⟨.run point, reply⟩ => Running job point reply
  | some ⟨.resumeVerify, _⟩ => job.running = false
  | _ => False

/-- A task that cancels, or one that did run. -/
def OtherFits (job : Job) (t : Task Phase Reply) : Prop :=
  match t.phase with
  | .cancelActive => job.accepted = some .cancel ∧
      (t.reply = some .ok → job.rebalanceActive = false)
  | .cancelCursor => job.accepted = some .cancel ∧ job.rebalanceActive = false
  | .cancelResumeVerify => job.accepted = some .cancel ∧ job.rebalanceActive = false
  | .resumeVerify => True
  | _ => False

def roles : Roles Job Phase Reply := ⟨Sound, fun job _ => MainFits job, OtherFits, fun h _ => h⟩

variable {cfg : Config} {job job' : Job}

/-- What becomes of the main task when it goes on. The others notice nothing of it. -/
structure Goes (job : Job) (result : Job × Option Phase) : Prop where
  sound : Sound result.1
  fits : MainFits result.1 (result.2.map (⟨·, none⟩))
  accepted : result.1.accepted = job.accepted
  rebalanceActive : result.1.rebalanceActive = job.rebalanceActive

/-- A run that sheds a source, with these to come after it. -/
structure Shedding (job : Job) (rest : List ℕ) : Prop where
  running : job.running
  accepted : job.accepted ≠ none
  active : job.accepted ≠ some .cancel → job.rebalanceActive
  last : job.accepted ≠ some .cancel → rest = [] → job.cancelled = false

theorem Launching.not_cancel (h : Launching job) : job.accepted ≠ some .cancel := by
  rcases h.accepted with haccepted | haccepted
  · rw [haccepted]
    exact nofun
  · rw [haccepted]
    exact nofun

theorem Launching.not_stop (h : Launching job) : job.accepted ≠ some .stop := by
  rcases h.accepted with haccepted | haccepted
  · rw [haccepted]
    exact nofun
  · rw [haccepted]
    exact nofun

theorem Running.shedding {point : Point} {reply : Option Reply} {rest : List ℕ}
    (h : Running job point reply) (hcleared : point.cleared reply = false)
    (hrest : point.rest = some rest) : Shedding job rest :=
  ⟨h.running, h.accepted, fun hgo => h.active hgo hcleared,
    fun hgo hlast => h.last hgo (hlast ▸ hrest)⟩

theorem Shedding.goes {rest : List ℕ} {point : Point} (h : Sound job) (hs : Shedding job rest)
    (hrest : point.rest = some rest) : Goes job (job, some (.run point)) := by
  refine ⟨h, ⟨hs.running, hs.accepted, fun hgo _ => hs.active hgo, fun hgo hlast => ?_,
    fun _ hcut => ?_⟩, rfl, rfl⟩
  · exact hs.last hgo (Option.some.inj (hrest.symm.trans hlast))
  · rw [hcut] at hrest
    cases hrest

theorem run_goes (h : Sound job) (hlaunch : Launching job) (hactive : job.rebalanceActive) :
    Goes job (run job) := by
  rw [run, if_neg (by rw [hlaunch.running]; exact Bool.false_ne_true)]
  refine ⟨⟨fun hhalted => ?_, h.returned⟩, ?_, rfl, rfl⟩
  · exact absurd hhalted (not_or.mpr ⟨hlaunch.not_stop, hlaunch.not_cancel⟩)
  · refine ⟨rfl, fun hnone => ?_, fun _ _ => hactive, fun _ => nofun, fun _ => nofun⟩
    rcases hlaunch.accepted with haccepted | haccepted
    · rw [hnone] at haccepted
      cases haccepted
    · rw [hnone] at haccepted
      cases haccepted

theorem finish_goes (h : Sound job) : Goes job (finish job) :=
  ⟨⟨h.halted, h.returned⟩, rfl, rfl, rfl⟩

/-- A run comes to its end. -/
theorem finalize_goes {cutShort : Bool} (h : Sound job) (hrunning : job.running)
    (haccepted : job.accepted ≠ none) (hactive : job.accepted ≠ some .cancel → job.rebalanceActive)
    (hcut : job.accepted ≠ some .cancel → cutShort = false) :
    Goes job (job, some (.run (.finalizeActive cutShort))) := by
  refine ⟨h, ⟨hrunning, haccepted, fun hgo _ => hactive hgo, fun _ => nofun,
    fun hgo heq => ?_⟩, rfl, rfl⟩
  rw [hcut hgo] at heq
  cases heq

theorem nextSource_goes {cutShort : Bool} {sources : List ℕ} (h : Sound job)
    (hrunning : job.running) (haccepted : job.accepted ≠ none)
    (hactive : job.accepted ≠ some .cancel → job.rebalanceActive)
    (hcut : job.accepted ≠ some .cancel → sources = [] → cutShort = false) :
    Goes job (nextSource cutShort sources job) := by
  cases sources with
  | nil => exact finalize_goes h hrunning haccepted hactive fun hgo => hcut hgo rfl
  | cons source rest =>
    rw [nextSource]
    split
    · exact finish_goes h
    · next hgo =>
      have hshedding : Shedding job rest :=
        ⟨hrunning, haccepted, hactive, fun _ _ => Bool.eq_false_iff.mpr hgo⟩
      exact hshedding.goes h rfl

theorem leaveSource_goes {cutShort : Bool} {rest : List ℕ} {seen : Seen} (h : Sound job)
    (hs : Shedding job rest)
    (hcut : job.accepted ≠ some .cancel → rest = [] → cutShort = false) :
    Goes job (leaveSource cutShort rest seen job) := by
  rw [leaveSource]
  split
  · exact finalize_goes h hs.running hs.accepted hs.active fun _ => rfl
  · exact nextSource_goes h hs.running hs.accepted hs.active hcut

theorem drainSourceToTarget_goes {cutShort : Bool} {source : ℕ} {rest tiers : List ℕ}
    {seen : Seen} (h : Sound job) (hs : Shedding job rest)
    (hcut : tiers = [] → job.accepted ≠ some .cancel → rest = [] → cutShort = false) :
    Goes job (drainSourceToTarget cutShort source rest tiers seen job) := by
  cases tiers with
  | nil => exact leaveSource_goes h hs (hcut rfl)
  | cons minSize tiers =>
    rw [drainSourceToTarget]
    split
    · exact leaveSource_goes h hs fun _ _ => rfl
    · split
      · exact leaveSource_goes h hs hs.last
      · exact hs.goes h rfl

theorem nextTier_goes {cutShort : Bool} {place : Place} {seen : Seen} (h : Sound job)
    (hs : Shedding job place.rest) (hcut : place.tiers = [] → job.accepted ≠ some .cancel →
      place.rest = [] → cutShort = false) : Goes job (nextTier cutShort place seen job) :=
  drainSourceToTarget_goes h hs hcut

theorem shedTier_goes {place : Place} {cursor : Option ℕ} {seen : Seen} (h : Sound job)
    (hs : Shedding job place.rest) : Goes job (shedTier place cursor seen job) := by
  rw [shedTier]
  split
  · exact nextTier_goes h hs fun _ _ _ => rfl
  · split
    · next hcancelled =>
      refine nextTier_goes h hs fun _ hgo hlast => ?_
      rw [hs.last hgo hlast] at hcancelled
      cases hcancelled
    · exact hs.goes h rfl

/-- Moves are all that a batch begins, and none in a run that was cancelled. -/
theorem moveBatch_eq (cfg : Config) (place : Place) (last : ℕ) (seen : Seen) (left inflight : ℕ)
    (job : Job) :
    ∃ n point, moveBatch cfg place last seen left inflight job =
      ({ job with begun := n }, some (.run point)) ∧ point.rest = some place.rest ∧
      (job.cancelled → n = job.begun) := by
  induction left generalizing inflight job with
  | zero => exact ⟨job.begun, _, rfl, rfl, fun _ => rfl⟩
  | succ left ih =>
    rw [moveBatch]
    split
    · exact ⟨job.begun, _, rfl, rfl, fun _ => rfl⟩
    · next hgo =>
      have hgo : ¬job.cancelled := fun hcancelled => hgo (by rw [hcancelled]; rfl)
      simp only
      split
      · exact ⟨job.begun + 1, _, rfl, rfl, fun hcancelled => absurd hcancelled hgo⟩
      · split
        · exact ⟨job.begun + 1, _, rfl, rfl, fun hcancelled => absurd hcancelled hgo⟩
        · obtain ⟨n, point, heq, hrest, -⟩ := ih (inflight + 1) { job with begun := job.begun + 1 }
          exact ⟨n, point, heq, hrest, fun hcancelled => absurd hcancelled hgo⟩

theorem moveBatch_goes {place : Place} {last : ℕ} {seen : Seen} {left inflight : ℕ}
    (h : Sound job) (hs : Shedding job place.rest) :
    Goes job (moveBatch cfg place last seen left inflight job) := by
  obtain ⟨n, point, heq, hrest, -⟩ := moveBatch_eq cfg place last seen left inflight job
  have hsound : Sound { job with begun := n } := ⟨h.halted, h.returned⟩
  have hshedding : Shedding { job with begun := n } place.rest :=
    ⟨hs.running, hs.accepted, hs.active, hs.last⟩
  obtain ⟨hsound, hfits, -, -⟩ := hshedding.goes hsound hrest
  rw [heq]
  exact ⟨hsound, hfits, rfl, rfl⟩

theorem resumeRun_goes {point : Point} {reply : Reply} (h : Sound job)
    (hfits : Running job point (some reply))
    (hcare : (Phase.run point).freezes reply → job.accepted = some .cancel) :
    Goes job (resumeRun cfg point reply job) := by
  have hnew (n : ℕ) : Sound { job with concurrency := n } := ⟨h.halted, h.returned⟩
  unfold resumeRun
  split
  · next stored _ =>
    have hrunning : Running { job with concurrency := getConcurrency stored } .pauseVerify none :=
      ⟨hfits.running, hfits.accepted, fun hgo _ => hfits.active hgo rfl, fun _ => nofun,
        fun _ => nofun⟩
    exact ⟨hnew _, hrunning, rfl, rfl⟩
  · split
    · exact finish_goes h
    · exact nextSource_goes h hfits.running hfits.accepted (fun hgo => hfits.active hgo rfl)
        fun _ _ => rfl
  · exact drainSourceToTarget_goes h (hfits.shedding rfl rfl) nofun
  · next place _ frozen _ =>
    split
    · refine nextTier_goes h (hfits.shedding rfl rfl) fun htiers hgo hlast => ?_
      cases frozen with
      | false => rfl
      | true =>
        refine absurd (hcare ?_) hgo
        rw [Phase.freezes, hlast, htiers]
        rfl
    · exact (hfits.shedding rfl rfl).goes h rfl
  · exact nextTier_goes h (hfits.shedding rfl rfl) fun _ _ _ => rfl
  · exact (hfits.shedding rfl rfl).goes h rfl
  · next place docs last stored seen =>
    have hs := hfits.shedding rfl rfl
    have hshedding : Shedding { job with concurrency := getConcurrency stored } place.rest :=
      ⟨hs.running, hs.accepted, hs.active, hs.last⟩
    have hgoes : Goes { job with concurrency := getConcurrency stored }
        (moveBatch cfg place last seen docs 0
          { job with concurrency := getConcurrency stored }) :=
      moveBatch_goes (hnew _) hshedding
    exact ⟨hgoes.sound, hgoes.fits, hgoes.accepted, hgoes.rebalanceActive⟩
  · split
    · exact (hfits.shedding rfl rfl).goes h rfl
    · exact moveBatch_goes h (hfits.shedding rfl rfl)
  · exact moveBatch_goes h (hfits.shedding rfl rfl)
  · exact shedTier_goes h (hfits.shedding rfl rfl)
  · have hrunning : Running job .finalizeCursor none :=
      ⟨hfits.running, hfits.accepted, fun _ => nofun, fun _ => nofun, fun _ => nofun⟩
    exact ⟨h, hrunning, rfl, rfl⟩
  · exact finish_goes h

theorem resume_goes {phase : Phase} {reply : Reply} (h : Sound job)
    (hfits : MainFits job (some ⟨phase, some reply⟩))
    (hcare : phase.freezes reply → job.accepted = some .cancel) :
    Goes job (resume cfg phase reply job) := by
  have hend (hrunning : job.running = false) : Goes job (job, none) := ⟨h, hrunning, rfl, rfl⟩
  cases phase with
  | startActive =>
    cases reply with
    | ok => exact run_goes h hfits.1 (hfits.2 rfl)
    | _ => exact hend hfits.1.running
  | resumeActive =>
    cases reply with
    | active active =>
      cases active with
      | true => exact ⟨h, ⟨hfits.1, (hfits.2 true rfl).symm⟩, rfl, rfl⟩
      | false => exact hend hfits.1.running
    | _ => exact hend hfits.1.running
  | resumeFrozen =>
    cases reply with
    | frozen frozen _ =>
      cases frozen with
      | false => exact run_goes h hfits.1 hfits.2
      | true => exact hend hfits.1.running
    | _ => exact hend hfits.1.running
  | run point => exact resumeRun_goes h hfits hcare
  | resumeVerify => exact hend hfits
  | cancelActive => exact hfits.elim
  | cancelCursor => exact hfits.elim
  | cancelResumeVerify => exact hfits.elim

/-! ## A call is answered -/

/-- What a call does to whether a rebalance is persisted. -/
def Phase.persists (old : Bool) : Phase → Bool
  | .startActive => true
  | .cancelActive => false
  | .run (.finalizeActive _) => false
  | _ => old

theorem write_eq (job : Job) (phase : Phase) : ∃ c, write job phase =
    { job with
      rebalanceActive := phase.persists job.rebalanceActive
      rebalanceCursor := c } := by
  cases phase with
  | run point => cases point <;> exact ⟨_, rfl⟩
  | _ => exact ⟨_, rfl⟩

theorem answer_persisted {phase : Phase} {reply : Reply}
    (h : answer phase reply job = some job') : ∃ v c,
      job' = { job with rebalanceActive := v, rebalanceCursor := c } ∧
        (v = job.rebalanceActive ∧ reply ≠ .ok ∨ v = phase.persists job.rebalanceActive) := by
  obtain ⟨c, hc⟩ := write_eq job phase
  rcases stored_cases h with ⟨hrejected, hjob⟩ | hjob
  · refine ⟨job.rebalanceActive, job.rebalanceCursor, hjob, .inl ⟨rfl, ?_⟩⟩
    rintro rfl
    cases hrejected
  · exact ⟨_, c, hjob.trans hc, .inr rfl⟩

theorem Sound.persisted (h : Sound job) (v : Bool) (c : Option ℕ)
    (hv : job.accepted = some .cancel → job.rebalanceActive = false → v = false) :
    Sound { job with rebalanceActive := v, rebalanceCursor := c } :=
  ⟨h.halted, fun hreturned => ⟨(h.returned hreturned).1,
    hv (h.returned hreturned).1 (h.returned hreturned).2⟩⟩

/-- After a cancel no one minds that nothing is persisted any more. -/
theorem OtherFits.clear {t : Task Phase Reply} (h : OtherFits job t) (c : Option ℕ) :
    OtherFits { job with rebalanceActive := false, rebalanceCursor := c } t := by
  obtain ⟨phase, reply⟩ := t
  cases phase with
  | cancelActive => exact ⟨h.1, fun _ => rfl⟩
  | cancelCursor => exact ⟨h.1, rfl⟩
  | cancelResumeVerify => exact ⟨h.1, rfl⟩
  | resumeVerify => trivial
  | _ => exact h.elim

theorem MainFits.clear {main : Option (Task Phase Reply)} (h : MainFits job main)
    (hcancel : job.accepted = some .cancel) (c : Option ℕ) :
    MainFits { job with rebalanceActive := false, rebalanceCursor := c } main := by
  have hnot (hlaunch : Launching job) : False := hlaunch.not_cancel hcancel
  match main, h with
  | none, h => exact h
  | some ⟨.startActive, _⟩, h => exact (hnot h.1).elim
  | some ⟨.resumeActive, _⟩, h => exact (hnot h.1).elim
  | some ⟨.resumeFrozen, _⟩, h => exact (hnot h.1).elim
  | some ⟨.run _, _⟩, h =>
    exact ⟨h.running, h.accepted, fun hgo => absurd hcancel hgo, fun hgo => absurd hcancel hgo,
      fun hgo => absurd hcancel hgo⟩
  | some ⟨.resumeVerify, _⟩, h => exact h

/-- A call of a task that launches is answered while no one cancels. -/
theorem OtherFits.launching {t : Task Phase Reply} (h : OtherFits job t)
    (hlaunch : Launching job) (job' : Job) : OtherFits job' t := by
  obtain ⟨phase, reply⟩ := t
  cases phase with
  | cancelActive => exact absurd h.1 hlaunch.not_cancel
  | cancelCursor => exact absurd h.1 hlaunch.not_cancel
  | cancelResumeVerify => exact absurd h.1 hlaunch.not_cancel
  | resumeVerify => trivial
  | _ => exact h.elim

theorem main_answer {phase : Phase} {reply : Reply} {alone : Prop} (h : Sound job)
    (hfits : MainFits job (some ⟨phase, none⟩)) (hanswer : answer phase reply job = some job') :
    MainTurn roles job job' alone (some ⟨phase, some reply⟩) := by
  have hexpected := (stored_allowed hanswer).1
  obtain ⟨v, c, rfl, hv⟩ := answer_persisted hanswer
  have hkept (hold : v = job.rebalanceActive)
      (hfits : MainFits { job with rebalanceActive := v, rebalanceCursor := c }
        (some ⟨phase, some reply⟩)) :
      MainTurn roles job { job with rebalanceActive := v, rebalanceCursor := c } alone
        (some ⟨phase, some reply⟩) := by
    subst hold
    exact ⟨h.persisted _ c fun _ hnone => hnone, hfits, .inr fun t ht => ht⟩
  cases phase with
  | startActive =>
    obtain ⟨hlaunch, -⟩ := hfits
    refine ⟨h.persisted v c fun hcancel => absurd hcancel hlaunch.not_cancel,
      ⟨⟨hlaunch.running, hlaunch.accepted⟩, fun hok => ?_⟩, .inr fun t ht => ht.launching hlaunch _⟩
    exact hv.resolve_left fun hold => hold.2 (Option.some.inj hok)
  | resumeActive =>
    obtain ⟨hlaunch, -⟩ := hfits
    have hold : v = job.rebalanceActive := hv.elim And.left id
    refine hkept hold ⟨⟨hlaunch.running, hlaunch.accepted⟩, fun active hreply => ?_⟩
    obtain rfl := Option.some.inj hreply
    rw [hold]
    exact of_decide_eq_true (hexpected rfl)
  | resumeFrozen =>
    have hold : v = job.rebalanceActive := hv.elim And.left id
    exact hkept hold ⟨⟨hfits.1.running, hfits.1.accepted⟩, hold ▸ hfits.2⟩
  | resumeVerify => exact hkept (hv.elim And.left id) hfits
  | run point =>
    obtain ⟨hrunning, haccepted, hactive, hlast, hcomplete⟩ := hfits
    cases point with
    | finalizeActive cutShort =>
      have hfits : MainFits { job with rebalanceActive := v, rebalanceCursor := c }
          (some ⟨.run (.finalizeActive cutShort), some reply⟩) :=
        ⟨hrunning, haccepted, fun _ => nofun, hlast, hcomplete⟩
      rcases hv with ⟨hold, -⟩ | rfl
      · exact hkept hold hfits
      · exact ⟨h.persisted false c fun _ _ => rfl, hfits, .inr fun t ht => ht.clear c⟩
    | _ =>
      have hold : v = job.rebalanceActive := hv.elim And.left id
      exact hkept hold ⟨hrunning, haccepted,
        fun hgo hcleared => hold ▸ hactive hgo hcleared, hlast, hcomplete⟩
  | cancelActive => exact hfits.elim
  | cancelCursor => exact hfits.elim
  | cancelResumeVerify => exact hfits.elim

/-- The main task minds nothing but what is persisted, and whether it was stopped. -/
theorem MainFits.alike {main : Option (Task Phase Reply)} (h : MainFits job main)
    (hrunning : job'.running = job.running) (hcancelled : job'.cancelled = job.cancelled)
    (haccepted : job'.accepted = job.accepted)
    (hactive : job'.rebalanceActive = job.rebalanceActive) : MainFits job' main := by
  have hlaunching (hlaunch : Launching job) : Launching job' :=
    ⟨hrunning.trans hlaunch.running, haccepted ▸ hlaunch.accepted⟩
  match main, h with
  | none, h => exact hrunning.trans h
  | some ⟨.startActive, _⟩, h => exact ⟨hlaunching h.1, hactive ▸ h.2⟩
  | some ⟨.resumeActive, _⟩, h => exact ⟨hlaunching h.1, hactive ▸ h.2⟩
  | some ⟨.resumeFrozen, _⟩, h => exact ⟨hlaunching h.1, hactive ▸ h.2⟩
  | some ⟨.run _, _⟩, h =>
    refine ⟨hrunning ▸ h.running, haccepted ▸ h.accepted, ?_, ?_, haccepted ▸ h.complete⟩
    · rw [haccepted, hactive]
      exact h.active
    · rw [haccepted, hcancelled]
      exact h.last
  | some ⟨.resumeVerify, _⟩, h => exact hrunning.trans h

theorem OtherFits.alike {t : Task Phase Reply} (h : OtherFits job t)
    (haccepted : job.accepted = some .cancel → job'.accepted = some .cancel)
    (hactive : job'.rebalanceActive = job.rebalanceActive) : OtherFits job' t := by
  obtain ⟨phase, reply⟩ := t
  cases phase with
  | cancelActive => exact ⟨haccepted h.1, hactive ▸ h.2⟩
  | cancelCursor => exact ⟨haccepted h.1, hactive ▸ h.2⟩
  | cancelResumeVerify => exact ⟨haccepted h.1, hactive ▸ h.2⟩
  | resumeVerify => trivial
  | _ => exact h.elim

theorem other_answer {phase : Phase} {reply : Reply} (h : Sound job)
    (hfits : OtherFits job ⟨phase, none⟩) (hanswer : answer phase reply job = some job') :
    OtherTurn roles job job' (some ⟨phase, some reply⟩) := by
  obtain ⟨v, c, rfl, hv⟩ := answer_persisted hanswer
  have hkept (hold : v = job.rebalanceActive) (hfits : OtherFits job ⟨phase, some reply⟩) :
      OtherTurn roles job { job with rebalanceActive := v, rebalanceCursor := c }
        (some ⟨phase, some reply⟩) := by
    subst hold
    refine ⟨h.persisted _ c fun _ hnone => hnone, fun t ht => ht, fun _ ht => ?_,
      fun main hmain => MainFits.alike hmain rfl rfl rfl rfl⟩
    obtain rfl := Option.some.inj ht
    exact hfits
  cases phase with
  | cancelCursor => exact hkept (hv.elim And.left id) hfits
  | cancelResumeVerify => exact hkept (hv.elim And.left id) hfits
  | resumeVerify => exact hkept (hv.elim And.left id) trivial
  | cancelActive =>
    rcases hv with ⟨hold, hfailed⟩ | rfl
    · exact hkept hold ⟨hfits.1, fun hok => absurd (Option.some.inj hok) hfailed⟩
    · refine ⟨h.persisted _ c fun _ _ => rfl, fun t ht => OtherFits.clear ht c, fun _ ht => ?_,
        fun main hmain => MainFits.clear hmain hfits.1 c⟩
      obtain rfl := Option.some.inj ht
      exact ⟨hfits.1, fun _ => rfl⟩
  | _ => exact hfits.elim

/-- The call that a request or a task comes to. -/
abbrev awaited (result : Job × Option Phase) : Option (Task Phase Reply) :=
  result.2.map (⟨·, none⟩)

theorem other_waits (h : Sound job) {new : Option (Task Phase Reply)}
    (hfits : ∀ t ∈ new, OtherFits job t) : OtherTurn roles job job new :=
  ⟨h, fun _ ht => ht, hfits, fun _ hmain => hmain⟩

/-- A cancel has returned. -/
theorem cancelReturns_turn (h : Sound job) (hcancel : job.accepted = some .cancel)
    (hactive : job.rebalanceActive = false) : OtherTurn roles job (cancelReturns job) none :=
  ⟨⟨h.halted, fun _ => ⟨hcancel, hactive⟩⟩, fun _ ht => ht, nofun,
    fun _ hmain => MainFits.alike hmain rfl rfl rfl rfl⟩

theorem other_resume {phase : Phase} {reply : Reply} (h : Sound job)
    (hfits : OtherFits job ⟨phase, some reply⟩) :
    OtherTurn roles job (resume cfg phase reply job).1
      (awaited (resume cfg phase reply job)) := by
  have hend : OtherTurn roles job job none := other_waits h nofun
  cases phase with
  | cancelActive =>
    cases reply with
    | ok =>
      refine other_waits h fun _ ht => ?_
      obtain rfl := Option.some.inj ht
      exact ⟨hfits.1, hfits.2 rfl⟩
    | _ => exact hend
  | cancelCursor =>
    cases reply with
    | ok =>
      rw [resume]
      split
      · exact cancelReturns_turn h hfits.1 hfits.2
      · refine other_waits h fun _ ht => ?_
        obtain rfl := Option.some.inj ht
        exact hfits
    | _ => exact hend
  | cancelResumeVerify =>
    cases reply with
    | ok => exact cancelReturns_turn h hfits.1 hfits.2
    | _ => exact hend
  | resumeVerify => exact hend
  | _ => exact hfits.elim

/-! ## Every state that is reached -/

theorem beside_idle {tasks : List (Task Phase Reply)} (h : Beside roles job tasks)
    (hidle : ∀ t ∈ tasks, t.phase = .resumeVerify) : Sound job ∧ job.running = false := by
  obtain ⟨main, others, hperm, hsound, hmain, -⟩ := h
  refine ⟨hsound, ?_⟩
  cases main with
  | none => exact hmain
  | some t =>
    obtain ⟨phase, reply⟩ := t
    obtain rfl : phase = .resumeVerify :=
      hidle ⟨phase, reply⟩ (hperm.symm.subset List.mem_cons_self)
    exact hmain

/-- A task that launches comes beside those that wake the verify. -/
theorem beside_launch {tasks : List (Task Phase Reply)} {phase : Phase}
    (hidle : ∀ t ∈ tasks, t.phase = .resumeVerify) (h : Sound job)
    (hfits : MainFits job (some ⟨phase, none⟩)) : Beside roles job (⟨phase, none⟩ :: tasks) := by
  refine ⟨some ⟨phase, none⟩, tasks, List.Perm.refl _, h, hfits, fun t ht => ?_⟩
  obtain ⟨phase', reply⟩ := t
  obtain rfl : phase' = .resumeVerify := hidle _ ht
  trivial

/-- What does not launch minds no cancel, and no stop either unless it sheds the last source. -/
theorem MainFits.halted {main : Option (Task Phase Reply)} (h : MainFits job main)
    (hlaunches : ∀ t ∈ main, t.phase.launches = false) (hrunning : job'.running = job.running)
    (haccepted : job'.accepted ≠ none) (hactive : job'.rebalanceActive = job.rebalanceActive)
    (hgo : job'.accepted ≠ some .cancel → job.accepted ≠ some .cancel ∧
      ∀ t ∈ main, t.phase.atLastSource = false) : MainFits job' main := by
  have hnot {phase : Phase} {reply : Option Reply} (heq : main = some ⟨phase, reply⟩)
      (hlaunch : phase.launches) : False := by
    rw [hlaunches ⟨phase, reply⟩ heq] at hlaunch
    cases hlaunch
  match main, h with
  | none, h => exact hrunning.trans h
  | some ⟨.startActive, _⟩, _ => exact (hnot rfl rfl).elim
  | some ⟨.resumeActive, _⟩, _ => exact (hnot rfl rfl).elim
  | some ⟨.resumeFrozen, _⟩, _ => exact (hnot rfl rfl).elim
  | some ⟨.run point, _⟩, h =>
    refine ⟨hrunning ▸ h.running, haccepted, fun hcancel hcleared => ?_, fun hcancel hrest => ?_,
      fun hcancel => h.complete (hgo hcancel).1⟩
    · rw [hactive]
      exact h.active (hgo hcancel).1 hcleared
    · have hlast := (hgo hcancel).2 _ rfl
      rw [Phase.atLastSource, hrest] at hlast
      cases hlast
  | some ⟨.resumeVerify, _⟩, h => exact hrunning.trans h

theorem beside_call {request : Request} {tasks : List (Task Phase Reply)}
    (hcare : careful.call request job tasks) (h : Beside roles job tasks) :
    Beside roles (call request job).1 (awaiting (call request job).2 ++ tasks) := by
  cases request with
  | start =>
    rw [call]
    split
    · exact h
    · next hrunning =>
      exact beside_launch (hcare.resolve_left hrunning) ⟨nofun, nofun⟩
        ⟨⟨Bool.eq_false_iff.mpr hrunning, .inl rfl⟩, nofun⟩
  | resumePendingJob =>
    exact beside_launch hcare ⟨nofun, nofun⟩ ⟨⟨(beside_idle h hcare).2, .inr rfl⟩, nofun⟩
  | cancel =>
    obtain ⟨main, others, hperm, -, hmain, hothers⟩ := h
    refine ⟨main, ⟨.cancelActive, none⟩ :: others, (hperm.cons _).trans List.perm_middle.symm,
      ⟨fun _ => rfl, nofun⟩, ?_, fun t ht => ?_⟩
    · refine MainFits.halted hmain (fun t ht => ?_) rfl nofun rfl fun hcancel => absurd rfl hcancel
      exact hcare t (hperm.symm.subset (List.mem_append_left _ (Option.mem_toList.mpr ht)))
    · rcases List.mem_cons.mp ht with rfl | hold
      · exact ⟨rfl, nofun⟩
      · exact OtherFits.alike (hothers t hold) (fun _ => rfl) rfl
  | stop =>
    obtain ⟨main, others, hperm, hsound, hmain, hothers⟩ := h
    have hmainCare (t : Task Phase Reply) (ht : t ∈ main) :=
      hcare t (hperm.symm.subset (List.mem_append_left _ (Option.mem_toList.mpr ht)))
    have hkeep (hcancel : job.accepted = some .cancel) :
        (call .stop job).1.accepted = some .cancel := if_pos hcancel
    have hsome : (call .stop job).1.accepted ≠ none := by
      by_cases hcancel : job.accepted = some .cancel
      · rw [hkeep hcancel]
        exact nofun
      · rw [show (call .stop job).1.accepted = some .stop from if_neg hcancel]
        exact nofun
    refine ⟨main, others, hperm, ⟨fun _ => rfl, fun hreturned => ?_⟩, ?_, fun t ht => ?_⟩
    · exact ⟨hkeep (hsound.returned hreturned).1, (hsound.returned hreturned).2⟩
    · exact MainFits.halted hmain (fun t ht => (hmainCare t ht).1) rfl hsome rfl fun hgo =>
        ⟨fun hcancel => hgo (hkeep hcancel), fun t ht => (hmainCare t ht).2⟩
    · exact OtherFits.alike (hothers t ht) hkeep rfl

theorem beside_resume {phase : Phase} {reply : Reply} {others : List (Task Phase Reply)}
    (hcare : careful.resume phase reply job others)
    (h : Beside roles job (⟨phase, some reply⟩ :: others)) :
    Beside roles (resume cfg phase reply job).1
      (awaiting (resume cfg phase reply job).2 ++ others) := by
  refine h.turn (fun _ _ _ hsound hmain => ?_) other_resume
  have hgoes : Goes job (resume cfg phase reply job) := resume_goes hsound hmain hcare
  exact ⟨hgoes.sound, hgoes.fits, .inr fun t ht =>
    OtherFits.alike ht hgoes.accepted.trans hgoes.rebalanceActive⟩

theorem beside_initial (h : Initial job) : Beside roles job [] := by
  obtain ⟨hrunning, -, haccepted, hreturned⟩ := h
  refine beside_nil ⟨?_, ?_⟩ hrunning
  · rw [haccepted]
    exact nofun
  · rw [hreturned]
    exact nofun

theorem reachable_beside {s : State Job Phase Reply}
    (h : Reachable ((system cfg).machine careful Initial) s) : Beside roles s.job s.tasks :=
  reachable_invariant (fun _ _ _ hl hs => hs.perm hl) (fun _ hinitial => beside_initial hinitial)
    (fun _ _ _ hcare hs => beside_call hcare hs)
    (fun _ _ _ _ _ hanswer hs => hs.turn (fun _ _ _ hsound hmain =>
      main_answer hsound hmain hanswer) fun hsound ht => other_answer hsound ht hanswer)
    (fun _ _ _ _ hcare hs => beside_resume hcare hs) h

/-! ## No move is begun -/

theorem begun_run (job : Job) : (run job).1.begun = job.begun := by
  rw [run]
  split <;> rfl

theorem begun_nextSource (cutShort : Bool) (sources : List ℕ) (job : Job) :
    (nextSource cutShort sources job).1.begun = job.begun := by
  cases sources with
  | nil => rfl
  | cons source rest =>
    rw [nextSource]
    split <;> rfl

theorem begun_leaveSource (cutShort : Bool) (rest : List ℕ) (seen : Seen) (job : Job) :
    (leaveSource cutShort rest seen job).1.begun = job.begun := by
  rw [leaveSource]
  split
  · rfl
  · exact begun_nextSource cutShort rest job

theorem begun_drainSourceToTarget (cutShort : Bool) (source : ℕ) (rest tiers : List ℕ)
    (seen : Seen) (job : Job) :
    (drainSourceToTarget cutShort source rest tiers seen job).1.begun = job.begun := by
  cases tiers with
  | nil => exact begun_leaveSource cutShort rest seen job
  | cons minSize tiers =>
    rw [drainSourceToTarget]
    split
    · exact begun_leaveSource false rest seen job
    · split
      · exact begun_leaveSource job.cancelled rest seen job
      · rfl

theorem begun_nextTier (cutShort : Bool) (place : Place) (seen : Seen) (job : Job) :
    (nextTier cutShort place seen job).1.begun = job.begun :=
  begun_drainSourceToTarget cutShort place.source place.rest place.tiers seen job

theorem begun_shedTier (place : Place) (cursor : Option ℕ) (seen : Seen) (job : Job) :
    (shedTier place cursor seen job).1.begun = job.begun := by
  rw [shedTier]
  split
  · exact begun_nextTier false place seen job
  · split
    · exact begun_nextTier true place seen job
    · rfl

theorem begun_moveBatch (hcancelled : job.cancelled) (place : Place) (last : ℕ) (seen : Seen)
    (left inflight : ℕ) :
    (moveBatch cfg place last seen left inflight job).1.begun = job.begun := by
  obtain ⟨n, point, heq, -, hn⟩ := moveBatch_eq cfg place last seen left inflight job
  rw [heq]
  exact hn hcancelled

theorem begun_resumeRun (hcancelled : job.cancelled) (point : Point) (reply : Reply) :
    (resumeRun cfg point reply job).1.begun = job.begun := by
  unfold resumeRun
  split
  · rfl
  · split
    · rfl
    · exact begun_nextSource false _ job
  · exact begun_drainSourceToTarget false _ _ sizeTiers _ job
  · split
    · exact begun_nextTier _ _ _ job
    · rfl
  · exact begun_nextTier false _ _ job
  · rfl
  · next stored seen =>
    refine begun_moveBatch ?_ _ _ seen _ 0
    exact hcancelled
  · split
    · rfl
    · exact begun_moveBatch hcancelled _ _ _ _ _
  · exact begun_moveBatch hcancelled _ _ _ _ _
  · exact begun_shedTier _ _ _ job
  · rfl
  · rfl

theorem begun_resume (hcancelled : job.cancelled) (phase : Phase) (reply : Reply) :
    (resume cfg phase reply job).1.begun = job.begun := by
  unfold resume
  split
  · exact begun_run job
  · rfl
  · exact begun_run job
  · rfl
  · split <;> rfl
  · rfl
  · exact begun_resumeRun hcancelled _ _
  · rfl

/-- A run that was cancelled begins nothing more. -/
theorem begun_next {s : State Job Phase Reply} (hcancelled : s.job.cancelled)
    (e : AwaitedCalls.Event Reply Request) :
    ((system cfg).next s e).job.begun = s.job.begun := by
  refine next_keeps Job.begun s (fun request => ?_) (fun phase reply job' h => ?_)
    (fun phase reply => begun_resume hcancelled phase reply) e
  · cases request with
    | start =>
      show (call .start s.job).1.begun = s.job.begun
      rw [call]
      split <;> rfl
    | _ => rfl
  · obtain ⟨v, c, rfl, -⟩ := answer_persisted h
    rfl

theorem settled_of_reachable {s : State Job Phase Reply}
    (h : Reachable ((system cfg).machine careful Initial) s) : Settled cfg s := by
  obtain ⟨main, others, hperm, hsound, hmain, hothers⟩ := reachable_beside h
  have hrun : ∀ t ∈ s.tasks, ∀ point, t.phase = .run point → Running s.job point t.reply := by
    intro t ht point hphase
    obtain ⟨phase, reply⟩ := t
    obtain rfl := hphase
    rcases List.mem_append.mp (hperm.subset ht) with hthis | hthis
    · obtain rfl := Option.mem_toList.mp hthis
      exact hmain
    · exact (hothers _ hthis).elim
  have hasked (hrunning : s.job.running) : s.job.accepted ≠ none := by
    match main, hmain with
    | none, hmain => exact absurd hrunning (Bool.eq_false_iff.mp hmain)
    | some ⟨.startActive, _⟩, hmain => exact absurd hrunning (Bool.eq_false_iff.mp hmain.1.running)
    | some ⟨.resumeActive, _⟩, hmain =>
      exact absurd hrunning (Bool.eq_false_iff.mp hmain.1.running)
    | some ⟨.resumeFrozen, _⟩, hmain =>
      exact absurd hrunning (Bool.eq_false_iff.mp hmain.1.running)
    | some ⟨.run _, _⟩, hmain => exact hmain.accepted
    | some ⟨.resumeVerify, _⟩, hmain => exact absurd hrunning (Bool.eq_false_iff.mp hmain)
  have hcancelled {accepted : Accepted} (haccepted : s.job.accepted = some accepted)
      (hhalts : accepted = .stop ∨ accepted = .cancel) : s.job.cancelled := by
    refine hsound.halted ?_
    rw [haccepted]
    exact hhalts.imp (congrArg some) (congrArg some)
  refine ⟨fun hrunning hgo => ?_, fun hidle => (beside_idle (reachable_beside h) hidle).2,
    fun hstopped e => ?_, fun hreturned => (hsound.returned hreturned).2,
    fun t ht point hphase hcancel hcleared => ?_, fun t ht hphase => ?_⟩
  · cases haccepted : s.job.accepted with
    | none => exact absurd haccepted (hasked hrunning)
    | some accepted =>
      have hnot (hhalts : accepted = .stop ∨ accepted = .cancel) : False := by
        rw [hcancelled haccepted hhalts] at hgo
        cases hgo
      cases accepted with
      | start => exact .inl rfl
      | resume => exact .inr rfl
      | stop => exact (hnot (.inl rfl)).elim
      | cancel => exact (hnot (.inr rfl)).elim
  · refine begun_next (hsound.halted ?_) e
    exact hstopped.imp id fun hreturned => (hsound.returned hreturned).1
  · have hrunning := hrun t ht point hphase
    exact ⟨hrunning.running, hrunning.active hcancel hcleared⟩
  · by_contra hcancel
    exact (hrun t ht _ hphase).complete hcancel rfl

/-! ## Beside the drain -/

instance (request : Request) (job : Job) (tasks : List (Task Phase Reply)) :
    Decidable (careful.call request job tasks) :=
  match request with
  | .start => inferInstanceAs
      (Decidable (job.running = true ∨ ∀ t ∈ tasks, t.phase = .resumeVerify))
  | .resumePendingJob => inferInstanceAs (Decidable (∀ t ∈ tasks, t.phase = .resumeVerify))
  | .cancel => inferInstanceAs (Decidable (∀ t ∈ tasks, t.phase.launches = false))
  | .stop => inferInstanceAs
      (Decidable (∀ t ∈ tasks, t.phase.launches = false ∧ t.phase.atLastSource = false))

instance (phase : Phase) (reply : Reply) (job : Job) (others : List (Task Phase Reply)) :
    Decidable (careful.resume phase reply job others) :=
  inferInstanceAs (Decidable (phase.freezes reply = true → job.accepted = some .cancel))

def idleJob : Job := ⟨false, false, defaultConcurrency, false, none, 0, none, false⟩

def idle : State Job Phase Reply := ⟨idleJob, []⟩

/-- A call of the task in front is answered, and it goes on. -/
def step (reply : Reply) : List (AwaitedCalls.Event Reply Request) := [.answer 0 reply, .resume 0]

theorem initial_idle (care : Care Job Phase Reply Request) (cfg : Config) :
    ((system cfg).machine care Initial).Initial idle :=
  ⟨⟨rfl, rfl, rfl, rfl⟩, rfl⟩

def withoutDelays : Config := ⟨false⟩

/-- A rebalance begins its first move, from the first of these sources. -/
def beginMoving (sources : List ℕ) : List (AwaitedCalls.Event Reply Request) :=
  let seen : Seen := ⟨false, false⟩
  [.call .start] ++ step .ok ++ step (.concurrency (some 1) seen) ++ step (.paused 3 sources) ++
    step (.frozen false seen) ++ step (.frozen false seen) ++ step (.found 2 7 seen) ++
    step (.concurrency (some 1) seen)

/-- A rebalance is stopped while a move is in the air, and the move lands. -/
def stopMoving : List (AwaitedCalls.Event Reply Request) :=
  let seen : Seen := ⟨false, false⟩
  [.call .stop] ++ step (.landed 0 seen) ++ step (.landed 0 seen)

theorem jobs_settle {cfg : DrainVolumeJob.Config} {cfg' : Config}
    {drain : State DrainVolumeJob.Job DrainVolumeJob.Phase DrainVolumeJob.Reply}
    {rebalance : State Job Phase Reply}
    (hdrain : Reachable ((DrainVolumeJob.system cfg).machine DrainVolumeJob.careful
      DrainVolumeJob.Initial) drain)
    (hrebalance : Reachable ((system cfg').machine careful Initial) rebalance) :
    DrainVolumeJob.Settled cfg drain ∧ Settled cfg' rebalance :=
  ⟨DrainVolumeJob.settled_of_reachable hdrain, settled_of_reachable hrebalance⟩

/-- A drain was cancelled in time, and a rebalance stopped before its last source. -/
theorem jobs_settle_halted :
    let drain := DrainVolumeJob.cancelledInTime.foldl
      (DrainVolumeJob.system DrainVolumeJob.oneAtATime).next DrainVolumeJob.idle
    let rebalance := (beginMoving [5, 6] ++ stopMoving).foldl (system withoutDelays).next idle
    drain.job.cancelReturned ∧ drain.job.begun = 1 ∧ rebalance.job.accepted = some .stop ∧
      rebalance.job.rebalanceActive ∧ rebalance.job.begun = 1 ∧
      DrainVolumeJob.Settled DrainVolumeJob.oneAtATime drain ∧ Settled withoutDelays rebalance := by
  have hdrain := (Reachable.initial (DrainVolumeJob.initial_idle DrainVolumeJob.careful
    DrainVolumeJob.oneAtATime)).run DrainVolumeJob.cancelledInTime (by decide +kernel)
  have hrebalance := (Reachable.initial (initial_idle careful withoutDelays)).run
    (beginMoving [5, 6] ++ stopMoving) (by decide +kernel)
  exact ⟨by decide +kernel, by decide +kernel, by decide +kernel, by decide +kernel,
    by decide +kernel, jobs_settle hdrain hrebalance⟩

/-- A rebalance is cancelled before it has begun to run. -/
def cancelledWhileStarting : List (AwaitedCalls.Event Reply Request) :=
  [.call .start, .answer 0 .ok, .call .cancel] ++ step .ok ++ step .ok ++ step .ok ++ [.resume 0]

/-- All requests have returned, and there is still a drain, or a rebalance, that was cancelled. A
rebalance that is stopped at its last source clears that it is active, as if the source had come
down to its target. -/
theorem requests_lost :
    (∃ s, Reachable ((DrainVolumeJob.system DrainVolumeJob.oneAtATime).machine carefree
        DrainVolumeJob.Initial) s ∧
      s.job.accepted = some .cancel ∧ s.job.cancelReturned ∧
      s.tasks = [⟨.run 5 none (.processBatch 1 1 7), none⟩] ∧ s.job.running ∧
      s.job.cancelled = false ∧ s.job.begun = 1 ∧ s.job.drainVolumeId = none) ∧
    (∃ s, Reachable ((system withoutDelays).machine carefree Initial) s ∧
      s.job.accepted = some .cancel ∧ s.job.cancelReturned ∧
      s.tasks = [⟨.run .getConcurrency, none⟩] ∧ s.job.running ∧
      s.job.cancelled = false ∧ s.job.rebalanceActive = false) ∧
    ∃ s, Reachable ((system withoutDelays).machine carefree Initial) s ∧
      s.tasks = [] ∧ s.job.accepted = some .stop ∧ s.job.begun = 1 ∧
      s.job.rebalanceActive = false := by
  have hdrain := Reachable.initial
    (DrainVolumeJob.initial_idle carefree DrainVolumeJob.oneAtATime)
  have hrebalance := Reachable.initial (initial_idle carefree withoutDelays)
  refine ⟨⟨_, hdrain.run DrainVolumeJob.cancelledWhileStarting (by decide +kernel), ?_⟩,
    ⟨_, hrebalance.run cancelledWhileStarting (by decide +kernel), ?_⟩,
    ⟨_, hrebalance.run (beginMoving [5] ++ stopMoving ++ step .ok ++ step .ok ++ step .ok)
      (by decide +kernel), ?_⟩⟩
  · decide +kernel
  · decide +kernel
  · decide +kernel

end RebalanceJob
