import Strubs.ManifestWriter

/-! # The promises of the manifest writes

A call that finds no pass at work starts one and waits for it. One that comes during a pass waits
until that pass is over, and then for the one that is started because of it. Whatever else the
process does comes in between. -/
namespace ManifestPasses

open StateMachine

/-- A pass that has come to its end is `settled`, and `done` once `finally` has run. -/
inductive Stage where
  | running
  | settled (ok : Bool)
  | done (ok : Bool)
  deriving DecidableEq

/-- When it was started, after which pass if not by a call, when it first read the fleet, and
whether what it read has been written to any volume. -/
structure Pass where
  startedAt : ℕ
  after : Option ℕ
  readAt : Option ℕ
  published : Bool
  stage : Stage
  deriving DecidableEq

def Pass.isDone (p : Pass) : Bool :=
  match p.stage with
  | .done _ => true
  | _ => false

/-- What the promise of a call hangs on. -/
inductive Promise where
  | pending (p : ℕ)
  | chained (p : ℕ)
  | trailing (p : ℕ)
  | resolved
  | rejected
  deriving DecidableEq

structure Call where
  calledAt : ℕ
  during : Option ℕ
  promise : Promise
  deriving DecidableEq

/-- The clock counts whatever happens. -/
structure State where
  clock : ℕ
  passes : ℕ
  pass : ℕ → Pass
  calls : ℕ
  call : ℕ → Call
  pending : Option ℕ
  queued : Bool
  trailing : Option ℕ

def initial : State where
  clock := 0
  passes := 0
  pass := fun _ => ⟨0, none, none, false, .done true⟩
  calls := 0
  call := fun _ => ⟨0, none, .rejected⟩
  pending := none
  queued := false
  trailing := none

inductive Event where
  | change
  | write
  | build (p : ℕ)
  | publish (p : ℕ)
  | settle (p : ℕ) (ok : Bool)
  | finallyRun (p : ℕ)
  | resume (c : ℕ)
  deriving DecidableEq

def Enabled (s : State) : Event → Prop
  | .change | .write => True
  | .build p => p < s.passes ∧ (s.pass p).stage = .running
  | .publish p => p < s.passes ∧ (s.pass p).stage = .running ∧ (s.pass p).readAt.isSome
  | .settle p _ => p < s.passes ∧ (s.pass p).stage = .running
  | .finallyRun p => p < s.passes ∧
    ((s.pass p).stage = .settled true ∨ (s.pass p).stage = .settled false)
  | .resume c => c < s.calls

instance (s : State) (e : Event) : Decidable (Enabled s e) := by
  cases e <;> simp only [Enabled] <;> infer_instance

def startPass (after : Option ℕ) (s : State) : State :=
  { s with
    passes := s.passes + 1
    pass := Function.update s.pass s.passes ⟨s.clock, after, none, false, .running⟩
    pending := some s.passes }

def addCall (during : Option ℕ) (promise : Promise) (s : State) : State :=
  { s with
    calls := s.calls + 1
    call := Function.update s.call s.calls ⟨s.clock, during, promise⟩ }

def write (s : State) : State :=
  match s.pending with
  | some p => addCall (some p) (.chained p) { s with queued := true }
  | none => addCall none (.pending s.passes) (startPass none s)

def setPass (p : ℕ) (pass : Pass) (s : State) : State :=
  { s with pass := Function.update s.pass p pass }

def setPromise (c : ℕ) (promise : Promise) (s : State) : State :=
  { s with call := Function.update s.call c { s.call c with promise } }

/-- If any call came during the pass the next one is started at once. -/
def finallyRun (p : ℕ) (s : State) : State :=
  let ok := decide ((s.pass p).stage = .settled true)
  let s := { setPass p { s.pass p with stage := .done ok } s with pending := none }
  if s.queued then
    let s := startPass (some p) { s with queued := false }
    { s with trailing := s.pending }
  else { s with trailing := none }

/-- A call goes on when what it waits for is over. The trailing pass does not reject it. -/
def resume (c : ℕ) (s : State) : State :=
  match (s.call c).promise with
  | .pending p =>
    match (s.pass p).stage with
    | .done ok => setPromise c (if ok then .resolved else .rejected) s
    | _ => s
  | .chained p =>
    if (s.pass p).isDone then
      setPromise c (match s.trailing with
        | some q => .trailing q
        | none => .resolved) s
    else s
  | .trailing p => if (s.pass p).isDone then setPromise c .resolved s else s
  | .resolved | .rejected => s

def act (s : State) : Event → State
  | .change => s
  | .write => write s
  | .build p => setPass p { s.pass p with readAt := (s.pass p).readAt.or (some s.clock) } s
  | .publish p => setPass p { s.pass p with published := true } s
  | .settle p ok => setPass p { s.pass p with stage := .settled ok } s
  | .finallyRun p => finallyRun p s
  | .resume c => resume c s

def next (s : State) (e : Event) : State :=
  { act s e with clock := (act s e).clock + 1 }

def machine : Machine State Event where
  Initial s := s = initial
  Enabled := Enabled
  next := next

instance (s : State) (e : Event) : Decidable (machine.Enabled s e) :=
  inferInstanceAs (Decidable (Enabled s e))

/-- How many calls came while the pass was at work. -/
def arrivals (s : State) (p : ℕ) : ℕ :=
  (List.range s.calls).countP fun c => (s.call c).during = some p

/-- How many passes were started because of it. -/
def followers (s : State) (p : ℕ) : ℕ :=
  (List.range s.passes).countP fun q => (s.pass q).after = some p

/-! ## What holds in every state -/

/-- What a call waits for began no earlier than the call, or is going to. -/
def Owed (s : State) (c : ℕ) : Prop :=
  match (s.call c).promise with
  | .pending p | .trailing p => p < s.passes ∧ (s.call c).calledAt ≤ (s.pass p).startedAt
  | .chained p => (s.call c).during = some p
  | .resolved => ∃ p < s.passes, (s.pass p).isDone = true ∧
      (s.call c).calledAt ≤ (s.pass p).startedAt
  | .rejected => True

/-- A pass reads no earlier than it starts, and writes what it has read. -/
structure Pass.Current (p : Pass) : Prop where
  since : ∀ t, p.readAt = some t → p.startedAt ≤ t
  read : p.published = true → p.readAt.isSome

def Arrived (s : State) (p : ℕ) : Prop := ∃ c < s.calls, (s.call c).during = some p

structure Invariant (s : State) : Prop where
  done : ∀ p < s.passes, s.pending ≠ some p → (s.pass p).isDone = true
  last : ∀ p, s.pending = some p → p + 1 = s.passes ∧ (s.pass p).isDone = false
  queued : s.queued = true ↔ ∃ p, s.pending = some p ∧ Arrived s p
  trailing : ∀ p, s.trailing = some p ↔ s.pending = some p ∧ (s.pass p).after.isSome = true
  ordered : ∀ p q, p ≤ q → q < s.passes → (s.pass p).startedAt ≤ (s.pass q).startedAt
  started : ∀ p < s.passes, (s.pass p).startedAt ≤ s.clock
  current : ∀ p < s.passes, (s.pass p).Current
  called : ∀ c < s.calls, (s.call c).calledAt ≤ s.clock
  during : ∀ c < s.calls, ∀ p, (s.call c).during = some p → p < s.passes
  after : ∀ q < s.passes, ∀ p, (s.pass q).after = some p → q = p + 1 ∧ Arrived s p
  followed : ∀ c < s.calls, ∀ p, (s.call c).during = some p → (s.pass p).isDone = true →
    p + 1 < s.passes ∧ (s.pass (p + 1)).after = some p ∧
      (s.call c).calledAt ≤ (s.pass (p + 1)).startedAt
  owed : ∀ c < s.calls, Owed s c

variable {s : State}

theorem invariant_initial : Invariant initial := by
  constructor <;> simp [initial, Arrived]

/-- Time passes. -/
theorem Invariant.tick (h : Invariant s) : Invariant { s with clock := s.clock + 1 } :=
  { h with
    started := fun p hp => (h.started p hp).trans (Nat.le_succ _)
    called := fun c hc => (h.called c hc).trans (Nat.le_succ _) }

/-- What an updated pass keeps, every pass keeps. -/
theorem setPass_field {α : Type*} (f : Pass → α) {p : ℕ} {pass : Pass} (h : f pass = f (s.pass p))
    (q : ℕ) : f ((setPass p pass s).pass q) = f (s.pass q) := by
  by_cases hq : q = p
  · subst hq
    simp [setPass, h]
  · simp [setPass, hq]

/-- What holds of the updated pass and of the others holds of every pass. -/
theorem setPass_forall {P : Pass → Prop} {p : ℕ} {pass : Pass} (hpass : P pass)
    (h : ∀ q < s.passes, q ≠ p → P (s.pass q)) :
    ∀ q < s.passes, P ((setPass p pass s).pass q) := by
  intro q hq
  by_cases hqp : q = p
  · subst hqp
    simpa only [setPass, Function.update_self] using hpass
  · simpa only [setPass, Function.update_of_ne hqp] using h q hq hqp

/-- A pass gets further, but is not over. -/
theorem Invariant.setPass (h : Invariant s) {p : ℕ} {pass : Pass}
    (hstarted : pass.startedAt = (s.pass p).startedAt) (hafter : pass.after = (s.pass p).after)
    (hcurrent : pass.Current) (hdone : pass.isDone = (s.pass p).isDone) :
    Invariant (setPass p pass s) := by
  have hstarted' := setPass_field Pass.startedAt hstarted
  have hafter' := setPass_field Pass.after hafter
  have hdone' := setPass_field Pass.isDone hdone
  refine ⟨?_, ?_, h.queued, ?_, ?_, ?_, ?_, h.called, h.during, ?_, ?_, ?_⟩
  · intro q hq hne
    rw [hdone']
    exact h.done q hq hne
  · intro q hq
    rw [hdone']
    exact h.last q hq
  · intro q
    rw [hafter']
    exact h.trailing q
  · intro q r hqr hr
    rw [hstarted', hstarted']
    exact h.ordered q r hqr hr
  · intro q hq
    rw [hstarted']
    exact h.started q hq
  · exact setPass_forall hcurrent fun q hq _ => h.current q hq
  · intro q hq r hr
    rw [hafter'] at hr
    exact h.after q hq r hr
  · intro c hc q hq hqdone
    rw [hdone'] at hqdone
    rw [hafter', hstarted']
    exact h.followed c hc q hq hqdone
  · intro c hc
    have howed := h.owed c hc
    simp only [Owed] at howed ⊢
    show match (s.call c).promise with
      | .pending q | .trailing q => q < s.passes ∧ _ ≤ _
      | .chained q => _
      | .resolved => ∃ q < s.passes, _ = true ∧ _ ≤ _
      | .rejected => True
    simp only [hstarted', hdone']
    exact howed

theorem arrived_setPromise (c : ℕ) (promise : Promise) (p : ℕ) :
    Arrived (setPromise c promise s) p ↔ Arrived s p := by
  have hduring : ∀ d, ((setPromise c promise s).call d).during = (s.call d).during := by
    intro d
    by_cases hd : d = c
    · subst hd
      simp [setPromise]
    · simp [setPromise, hd]
  simp only [Arrived, hduring]
  rfl

/-- A promise hangs on something else from now on. -/
theorem Invariant.setPromise (h : Invariant s) {c : ℕ} {promise : Promise}
    (howed : Owed (setPromise c promise s) c) : Invariant (setPromise c promise s) := by
  have hother : ∀ d, d ≠ c → (ManifestPasses.setPromise c promise s).call d = s.call d :=
    fun d hd => Function.update_of_ne hd _ _
  have hsame : ∀ d, ((ManifestPasses.setPromise c promise s).call d).during = (s.call d).during ∧
      ((ManifestPasses.setPromise c promise s).call d).calledAt = (s.call d).calledAt := by
    intro d
    by_cases hd : d = c
    · subst hd
      simp [ManifestPasses.setPromise]
    · rw [hother d hd]
      exact ⟨rfl, rfl⟩
  refine ⟨h.done, h.last, ?_, h.trailing, h.ordered, h.started, h.current, ?_, ?_, ?_, ?_, ?_⟩
  · simp only [arrived_setPromise]
    exact h.queued
  · intro d hd
    rw [(hsame d).2]
    exact h.called d hd
  · intro d hd p hp
    rw [(hsame d).1] at hp
    exact h.during d hd p hp
  · simp only [arrived_setPromise]
    exact h.after
  · intro d hd p hp hdone
    rw [(hsame d).1] at hp
    rw [(hsame d).2]
    exact h.followed d hd p hp hdone
  · intro d hd
    by_cases hdc : d = c
    · exact hdc ▸ howed
    · have := h.owed d hd
      simp only [Owed, hother d hdc] at this ⊢
      exact this

/-- The pass that was started because of a call is over, or the trailing one is no earlier. -/
theorem Invariant.resume (h : Invariant s) {c : ℕ} (hc : c < s.calls) :
    Invariant (resume c s) := by
  have howed := h.owed c hc
  have hcall : ∀ promise, (ManifestPasses.setPromise c promise s).call c =
      { s.call c with promise } := fun _ => Function.update_self ..
  simp only [ManifestPasses.resume]
  cases hpromise : (s.call c).promise with
  | pending p =>
    simp only [Owed, hpromise] at howed
    simp only
    split
    next ok hstage =>
      apply h.setPromise
      cases ok with
      | true =>
        simp only [Owed, hcall, if_true]
        exact ⟨p, howed.1, by show (s.pass p).isDone = true; rw [Pass.isDone, hstage], howed.2⟩
      | false => simp [Owed, hcall]
    · exact h
  | trailing p =>
    simp only [Owed, hpromise] at howed
    simp only
    split_ifs with hdone
    · apply h.setPromise
      simp only [Owed, hcall]
      exact ⟨p, howed.1, hdone, howed.2⟩
    · exact h
  | chained p =>
    simp only [Owed, hpromise] at howed
    simp only
    split_ifs with hdone
    · obtain ⟨hnext, hafter, hle⟩ := h.followed c hc p howed hdone
      apply h.setPromise
      cases htrailing : s.trailing with
      | none =>
        simp only [Owed, hcall]
        refine ⟨p + 1, hnext, ?_, hle⟩
        apply h.done (p + 1) hnext
        intro hpending
        have := (h.trailing (p + 1)).mpr ⟨hpending, by rw [hafter]; rfl⟩
        rw [htrailing] at this
        cases this
      | some q =>
        have hq := (h.last q ((h.trailing q).mp htrailing).1).1
        simp only [Owed, hcall]
        exact ⟨Nat.lt_of_succ_le (Nat.le_of_eq hq),
          hle.trans (h.ordered (p + 1) q (by omega) (Nat.lt_of_succ_le (Nat.le_of_eq hq)))⟩
    · exact h
  | resolved => exact h
  | rejected => exact h

theorem call_addCall {during : Option ℕ} {promise : Promise} {c : ℕ} (hc : c < s.calls) :
    (addCall during promise s).call c = s.call c :=
  Function.update_of_ne hc.ne _ _

theorem arrived_addCall (during : Option ℕ) (promise : Promise) (p : ℕ) :
    Arrived (addCall during promise s) p ↔ Arrived s p ∨ during = some p := by
  constructor
  · rintro ⟨c, hc, hp⟩
    rcases Nat.lt_succ_iff_lt_or_eq.mp hc with hc | rfl
    · rw [call_addCall hc] at hp
      exact .inl ⟨c, hc, hp⟩
    · simp only [addCall, Function.update_self] at hp
      exact .inr hp
  · rintro (⟨c, hc, hp⟩ | rfl)
    · exact ⟨c, Nat.lt_succ_of_lt hc, by rw [call_addCall hc]; exact hp⟩
    · exact ⟨s.calls, Nat.lt_succ_self _, by simp [addCall]⟩

/-- One more call, that is owed what it waits for. -/
theorem Invariant.addCall (h : Invariant s) {during : Option ℕ} {promise : Promise} {queued : Bool}
    (hqueued : queued = (s.queued || during.isSome))
    (hduring : ∀ p, during = some p → s.pending = some p)
    (howed : Owed (addCall during promise s) s.calls) :
    Invariant (addCall during promise { s with queued }) := by
  have hcall : ∀ {c}, c < s.calls →
      (ManifestPasses.addCall during promise { s with queued }).call c = s.call c :=
    fun hc => call_addCall hc
  have hself : (ManifestPasses.addCall during promise { s with queued }).call s.calls =
      ⟨s.clock, during, promise⟩ := Function.update_self ..
  have harrived : ∀ p, Arrived (ManifestPasses.addCall during promise { s with queued }) p ↔
      Arrived s p ∨ during = some p := arrived_addCall (s := s) during promise
  refine ⟨h.done, h.last, ?_, h.trailing, h.ordered, h.started, h.current, ?_, ?_, ?_, ?_, ?_⟩
  · simp only [harrived]
    show queued = true ↔ _
    rw [hqueued, Bool.or_eq_true]
    constructor
    · rintro (hq | hsome)
      · obtain ⟨p, hp, ha⟩ := h.queued.mp hq
        exact ⟨p, hp, .inl ha⟩
      · obtain ⟨p, hp⟩ := Option.isSome_iff_exists.mp hsome
        exact ⟨p, hduring p hp, .inr hp⟩
    · rintro ⟨p, hp, ha | ha⟩
      · exact .inl (h.queued.mpr ⟨p, hp, ha⟩)
      · exact .inr (Option.isSome_of_eq_some ha)
  · intro c hc
    rcases Nat.lt_succ_iff_lt_or_eq.mp hc with hc | rfl
    · rw [hcall hc]
      exact h.called c hc
    · rw [hself]
      exact le_rfl
  · intro c hc p hp
    rcases Nat.lt_succ_iff_lt_or_eq.mp hc with hc | rfl
    · rw [hcall hc] at hp
      exact h.during c hc p hp
    · rw [hself] at hp
      exact Nat.lt_of_succ_le (h.last p (hduring p hp)).1.le
  · intro q hq p hp
    obtain ⟨heq, ha⟩ := h.after q hq p hp
    exact ⟨heq, (harrived p).mpr (.inl ha)⟩
  · intro c hc p hp hdone
    rcases Nat.lt_succ_iff_lt_or_eq.mp hc with hc | rfl
    · rw [hcall hc] at hp ⊢
      exact h.followed c hc p hp hdone
    · rw [hself] at hp
      have hdone' : (s.pass p).isDone = true := hdone
      rw [(h.last p (hduring p hp)).2] at hdone'
      cases hdone'
  · intro c hc
    rcases Nat.lt_succ_iff_lt_or_eq.mp hc with hc | rfl
    · have := h.owed c hc
      simp only [Owed, hcall hc] at this ⊢
      exact this
    · exact howed

theorem pass_startPass {after : Option ℕ} {p : ℕ} (hp : p < s.passes) :
    (startPass after s).pass p = s.pass p :=
  Function.update_of_ne hp.ne _ _

theorem pass_startPass_self (after : Option ℕ) :
    (startPass after s).pass s.passes = ⟨s.clock, after, none, false, .running⟩ :=
  Function.update_self ..

theorem owed_startPass {after : Option ℕ} {c : ℕ} (h : Owed s c) : Owed (startPass after s) c := by
  have hcall : (startPass after s).call c = s.call c := rfl
  simp only [Owed, hcall] at h ⊢
  cases hpromise : (s.call c).promise with
  | pending p | trailing p =>
    simp only [hpromise] at h ⊢
    rw [pass_startPass h.1]
    exact ⟨Nat.lt_succ_of_lt h.1, h.2⟩
  | chained p =>
    simp only [hpromise] at h ⊢
    exact h
  | resolved =>
    simp only [hpromise] at h ⊢
    obtain ⟨p, hp, hdone, hle⟩ := h
    exact ⟨p, Nat.lt_succ_of_lt hp, by rw [pass_startPass hp]; exact hdone,
      by rw [pass_startPass hp]; exact hle⟩
  | rejected => trivial

/-- A pass is started when none is at work. It is one that a call starts, or the one that is due to
the calls that came during the last. -/
theorem invariant_startPass {after : Option ℕ}
    (hidle : ∀ p < s.passes, (s.pass p).isDone = true) (hqueued : s.queued = false)
    (htrailing : s.trailing = if after.isSome then some s.passes else none)
    (hordered : ∀ p q, p ≤ q → q < s.passes → (s.pass p).startedAt ≤ (s.pass q).startedAt)
    (hstarted : ∀ p < s.passes, (s.pass p).startedAt ≤ s.clock)
    (hcurrent : ∀ p < s.passes, (s.pass p).Current)
    (hcalled : ∀ c < s.calls, (s.call c).calledAt ≤ s.clock)
    (hduring : ∀ c < s.calls, ∀ p, (s.call c).during = some p → p < s.passes)
    (hafter : ∀ q < s.passes, ∀ p, (s.pass q).after = some p → q = p + 1 ∧ Arrived s p)
    (hdue : ∀ p, after = some p → s.passes = p + 1 ∧ Arrived s p)
    (hfollowed : ∀ c < s.calls, ∀ p, (s.call c).during = some p → after ≠ some p →
      p + 1 < s.passes ∧ (s.pass (p + 1)).after = some p ∧
        (s.call c).calledAt ≤ (s.pass (p + 1)).startedAt)
    (howed : ∀ c < s.calls, Owed s c) : Invariant (startPass after s) := by
  have hcases : ∀ p < (startPass after s).passes, p < s.passes ∨ p = s.passes := fun p hp =>
    Nat.lt_succ_iff_lt_or_eq.mp hp
  refine ⟨?_, ?_, ?_, ?_, ?_, ?_, ?_, hcalled, ?_, ?_, ?_, fun c hc => owed_startPass (howed c hc)⟩
  · intro p hp hne
    rcases hcases p hp with hp | rfl
    · rw [pass_startPass hp]
      exact hidle p hp
    · exact absurd rfl hne
  · intro p hp
    obtain rfl := Option.some.inj hp
    rw [pass_startPass_self]
    exact ⟨rfl, rfl⟩
  · refine iff_of_false (by show ¬s.queued = true; simp [hqueued]) ?_
    rintro ⟨p, hp, c, hc, hp'⟩
    obtain rfl := Option.some.inj hp
    exact absurd (hduring c hc _ hp') (lt_irrefl _)
  · intro p
    show s.trailing = some p ↔ some s.passes = some p ∧ _
    rw [htrailing]
    constructor
    · intro hp
      split_ifs at hp with hsome
      obtain rfl := Option.some.inj hp
      rw [pass_startPass_self]
      exact ⟨rfl, hsome⟩
    · rintro ⟨hp, hsome⟩
      obtain rfl := Option.some.inj hp
      rw [pass_startPass_self] at hsome
      exact if_pos hsome
  · intro p q hpq hq
    rcases hcases q hq with hq | rfl
    · rw [pass_startPass hq, pass_startPass (hpq.trans_lt hq)]
      exact hordered p q hpq hq
    · rw [pass_startPass_self]
      rcases hcases p (hpq.trans_lt hq) with hp | rfl
      · rw [pass_startPass hp]
        exact hstarted p hp
      · rw [pass_startPass_self]
  · intro p hp
    rcases hcases p hp with hp | rfl
    · rw [pass_startPass hp]
      exact hstarted p hp
    · rw [pass_startPass_self]
      exact le_rfl
  · intro p hp
    rcases hcases p hp with hp | rfl
    · rw [pass_startPass hp]
      exact hcurrent p hp
    · rw [pass_startPass_self]
      exact ⟨fun t ht => (by cases ht), fun h => (by cases h)⟩
  · intro c hc p hp
    exact Nat.lt_succ_of_lt (hduring c hc p hp)
  · intro q hq p hp
    rcases hcases q hq with hq | rfl
    · rw [pass_startPass hq] at hp
      exact hafter q hq p hp
    · rw [pass_startPass_self] at hp
      exact hdue p hp
  · intro c hc p hp hdone
    by_cases heq : after = some p
    · have hlast := (hdue p heq).1
      rw [← hlast, pass_startPass_self]
      exact ⟨Nat.lt_succ_self _, heq, hcalled c hc⟩
    · obtain ⟨hlt, hby, hle⟩ := hfollowed c hc p hp heq
      rw [pass_startPass hlt]
      exact ⟨Nat.lt_succ_of_lt hlt, hby, hle⟩

theorem Invariant.not_queued (h : Invariant s) (hpending : s.pending = none) :
    s.queued = false := by
  rw [← Bool.not_eq_true, h.queued]
  rintro ⟨p, hp, -⟩
  rw [hpending] at hp
  cases hp

theorem Invariant.write (h : Invariant s) : Invariant (write s) := by
  rw [ManifestPasses.write]
  split
  next p hpending =>
    apply h.addCall
    · rw [Option.isSome_some, Bool.or_true]
    · intro q hq
      rw [hpending, hq]
    · simp [Owed, ManifestPasses.addCall]
  next hpending =>
    have hidle : ∀ p < s.passes, (s.pass p).isDone = true := fun p hp =>
      h.done p hp (by rw [hpending]; exact (Option.some_ne_none p).symm)
    have hstarted : Invariant (startPass none s) := by
      refine invariant_startPass hidle (h.not_queued hpending) ?_ h.ordered h.started h.current
        h.called
        h.during h.after (fun p hp => by cases hp) (fun c hc p hp _ => ?_) h.owed
      · cases htrailing : s.trailing with
        | none => rfl
        | some q =>
          have := ((h.trailing q).mp htrailing).1
          rw [hpending] at this
          cases this
      · exact h.followed c hc p hp (hidle p (h.during c hc p hp))
    apply hstarted.addCall
    · rw [Option.isSome_none, Bool.or_false]
      rfl
    · intro p hp
      cases hp
    · have hcall : (ManifestPasses.addCall none (.pending s.passes) (startPass none s)).call
          (startPass none s).calls = ⟨s.clock, none, .pending s.passes⟩ := Function.update_self ..
      have hpass : (ManifestPasses.addCall none (.pending s.passes) (startPass none s)).pass
          s.passes = ⟨s.clock, none, none, false, .running⟩ := pass_startPass_self none
      simp only [Owed, hcall, hpass]
      exact ⟨Nat.lt_succ_self _, le_rfl⟩

/-- Only a pass that has come to its end is done with now. -/
theorem Invariant.finallyRun (h : Invariant s) {p : ℕ} (hp : p < s.passes)
    (hwaits : (s.pass p).isDone = false) : Invariant (finallyRun p s) := by
  have hpending : s.pending = some p := by
    by_contra hne
    rw [h.done p hp hne] at hwaits
    cases hwaits
  have hlast := (h.last p hpending).1
  rw [ManifestPasses.finallyRun]
  generalize hpass : ({ s.pass p with
    stage := .done (decide ((s.pass p).stage = .settled true)) } : Pass) = pass
  have hdone : pass.isDone = true := by
    subst hpass
    rfl
  have hkept : pass.startedAt = (s.pass p).startedAt ∧ pass.after = (s.pass p).after := by
    subst hpass
    exact ⟨rfl, rfl⟩
  have hcurrent : pass.Current := by
    subst hpass
    exact ⟨(h.current p hp).since, (h.current p hp).read⟩
  clear hpass
  have hstarted := setPass_field Pass.startedAt hkept.1
  have hafter := setPass_field Pass.after hkept.2
  have hbefore : ∀ q < s.passes, q ≠ p → (s.pass q).isDone = true := fun q hq hqp =>
    h.done q hq (by rw [hpending]; exact fun h => hqp (Option.some.inj h).symm)
  have hidle : ∀ q < s.passes, ((ManifestPasses.setPass p pass s).pass q).isDone = true :=
    setPass_forall (P := fun p => p.isDone = true) hdone hbefore
  have hmono : ∀ q, (s.pass q).isDone = true →
      ((ManifestPasses.setPass p pass s).pass q).isDone = true := by
    intro q hq
    by_cases hqp : q = p
    · subst hqp
      simpa [ManifestPasses.setPass] using hdone
    · simpa only [ManifestPasses.setPass, Function.update_of_ne hqp] using hq
  have howed : ∀ c < s.calls, Owed (ManifestPasses.setPass p pass s) c := by
    intro c hc
    have := h.owed c hc
    simp only [Owed] at this ⊢
    have hcall : (ManifestPasses.setPass p pass s).call c = s.call c := rfl
    rw [hcall]
    cases hpromise : (s.call c).promise with
    | pending q | trailing q =>
      simp only [hpromise, hstarted] at this ⊢
      exact this
    | chained q =>
      simp only [hpromise] at this ⊢
      exact this
    | resolved =>
      simp only [hpromise, hstarted] at this ⊢
      obtain ⟨q, hq, hqdone, hle⟩ := this
      exact ⟨q, hq, hmono q hqdone, hle⟩
    | rejected => trivial
  have hordered : ∀ q r, q ≤ r → r < s.passes →
      ((ManifestPasses.setPass p pass s).pass q).startedAt ≤
        ((ManifestPasses.setPass p pass s).pass r).startedAt := by
    intro q r hqr hr
    rw [hstarted, hstarted]
    exact h.ordered q r hqr hr
  have hclock : ∀ q < s.passes,
      ((ManifestPasses.setPass p pass s).pass q).startedAt ≤ s.clock := by
    intro q hq
    rw [hstarted]
    exact h.started q hq
  have hcurrents : ∀ q < s.passes, ((ManifestPasses.setPass p pass s).pass q).Current :=
    setPass_forall hcurrent fun q hq _ => h.current q hq
  have hafters : ∀ q < s.passes, ∀ r, ((ManifestPasses.setPass p pass s).pass q).after = some r →
      q = r + 1 ∧ Arrived s r := by
    intro q hq r hr
    rw [hafter] at hr
    exact h.after q hq r hr
  have hfollowed : ∀ c < s.calls, ∀ q, (s.call c).during = some q → q ≠ p →
      q + 1 < s.passes ∧ ((ManifestPasses.setPass p pass s).pass (q + 1)).after = some q ∧
        (s.call c).calledAt ≤ ((ManifestPasses.setPass p pass s).pass (q + 1)).startedAt := by
    intro c hc q hq hqp
    rw [hafter, hstarted]
    exact h.followed c hc q hq (hbefore q (h.during c hc q hq) hqp)
  simp only
  split_ifs with hqueued
  · have harrived : Arrived s p := by
      obtain ⟨q, hq, ha⟩ := h.queued.mp hqueued
      rw [hpending] at hq
      exact Option.some.inj hq ▸ ha
    exact @invariant_startPass
      { ManifestPasses.setPass p pass s with
        pending := none, queued := false, trailing := some s.passes } (some p)
      hidle rfl rfl hordered hclock hcurrents h.called h.during hafters
      (fun q hq => Option.some.inj hq ▸ ⟨hlast.symm, harrived⟩)
      (fun c hc q hq hne => hfollowed c hc q hq fun h => hne (h ▸ rfl)) howed
  · have hnone : ∀ c < s.calls, (s.call c).during ≠ some p := fun c hc hp =>
      hqueued (h.queued.mpr ⟨p, hpending, c, hc, hp⟩)
    refine ⟨fun q hq _ => hidle q hq, fun q hq => (by cases hq), ?_, ?_, hordered, hclock,
      hcurrents, h.called, h.during, hafters, ?_, howed⟩
    · exact iff_of_false hqueued (by rintro ⟨q, hq, -⟩; cases hq)
    · exact fun q => iff_of_false (by simp) (by rintro ⟨hq, -⟩; cases hq)
    · exact fun c hc q hq _ => hfollowed c hc q hq fun h => hnone c hc (h ▸ hq)

theorem Invariant.next (h : Invariant s) {e : Event} (he : Enabled s e) : Invariant (next s e) := by
  suffices hact : Invariant (act s e) from hact.tick
  cases e with
  | change => exact h
  | write => exact h.write
  | build p =>
    have hcurrent := h.current p he.1
    refine h.setPass rfl rfl ⟨fun t ht => ?_, fun _ => Option.isSome_or ▸ ?_⟩ rfl
    · rcases Option.or_eq_some_iff.mp ht with hread | ⟨-, hnow⟩
      · exact hcurrent.since t hread
      · obtain rfl := Option.some.inj hnow
        exact h.started p he.1
    · exact Bool.or_true _
  | publish p =>
    exact h.setPass rfl rfl ⟨(h.current p he.1).since, fun _ => he.2.2⟩ rfl
  | settle p ok =>
    have hrunning : (s.pass p).isDone = false := by rw [Pass.isDone, he.2]
    exact h.setPass rfl rfl ⟨(h.current p he.1).since, (h.current p he.1).read⟩
      (hrunning ▸ rfl)
  | finallyRun p =>
    have hsettled : (s.pass p).isDone = false := by
      rcases he.2 with hstage | hstage <;> rw [Pass.isDone, hstage]
    exact h.finallyRun he.1 hsettled
  | resume c => exact h.resume he

theorem reachable_invariant (h : Reachable machine s) : Invariant s := by
  refine h.invariant (P := Invariant) (fun s hs => ?_) fun _ _ h he => h.next he
  obtain rfl : s = initial := hs
  exact invariant_initial

/-! ## What a caller may rely on -/

theorem Invariant.followers_eq (h : Invariant s) {p : ℕ} (hp : (s.pass p).isDone = true) :
    followers s p = if arrivals s p = 0 then 0 else 1 := by
  have harrivals : arrivals s p = 0 ↔ ¬Arrived s p := by
    simp [arrivals, Arrived, List.countP_eq_zero]
  by_cases ha : Arrived s p
  · obtain ⟨c, hc, hduring⟩ := ha
    obtain ⟨hnext, hafter, -⟩ := h.followed c hc p hduring hp
    rw [if_neg (fun h => harrivals.mp h ⟨c, hc, hduring⟩), followers]
    have honly : ∀ q ∈ List.range s.passes,
        (decide ((s.pass q).after = some p) = true ↔ (q == p + 1) = true) := by
      intro q hq
      rw [decide_eq_true_eq, beq_iff_eq]
      constructor
      · exact fun hafter' => (h.after q (List.mem_range.mp hq) p hafter').1
      · rintro rfl
        exact hafter
    rw [List.countP_congr honly]
    exact List.count_eq_one_of_mem List.nodup_range (List.mem_range.mpr hnext)
  · rw [if_pos (harrivals.mpr ha), followers, List.countP_eq_zero]
    intro q hq hafter
    exact ha (h.after q (List.mem_range.mp hq) p (of_decide_eq_true hafter)).2

/-- At most one pass is at work. A call is answered when a pass is over that began no earlier, that
has read no state of the fleet that is older, and that has read one if it has written to any
volume. The calls during one pass make one more. -/
theorem writes_are_coalesced (h : Reachable machine s) :
    (∀ p < s.passes, ∀ q < s.passes, (s.pass p).stage = .running →
      (s.pass q).stage = .running → p = q) ∧
    (∀ c < s.calls, (s.call c).promise = .resolved →
      ∃ p < s.passes, (s.pass p).isDone = true ∧ (s.call c).calledAt ≤ (s.pass p).startedAt ∧
        (∀ t, (s.pass p).readAt = some t → (s.call c).calledAt ≤ t) ∧
        ((s.pass p).published = true →
          ∃ t, (s.pass p).readAt = some t ∧ (s.call c).calledAt ≤ t)) ∧
    ∀ p < s.passes, (s.pass p).isDone = true →
      followers s p = if arrivals s p = 0 then 0 else 1 := by
  have hinv := reachable_invariant h
  refine ⟨fun p hp q hq hprunning hqrunning => ?_, fun c hc hresolved => ?_, fun p _ hdone =>
    hinv.followers_eq hdone⟩
  · have hpending : ∀ r < s.passes, (s.pass r).stage = .running → s.pending = some r := by
      intro r hr hrunning
      by_contra hne
      have hdone := hinv.done r hr hne
      rw [Pass.isDone, hrunning] at hdone
      cases hdone
    exact Option.some.inj ((hpending p hp hprunning).symm.trans (hpending q hq hqrunning))
  · have howed := hinv.owed c hc
    simp only [Owed, hresolved] at howed
    obtain ⟨p, hp, hdone, hle⟩ := howed
    have hcurrent := hinv.current p hp
    have hread : ∀ t, (s.pass p).readAt = some t → (s.call c).calledAt ≤ t := fun t ht =>
      hle.trans (hcurrent.since t ht)
    refine ⟨p, hp, hdone, hle, hread, fun hpublished => ?_⟩
    obtain ⟨t, ht⟩ := Option.isSome_iff_exists.mp (hcurrent.read hpublished)
    exact ⟨t, ht, hread t ht⟩

/-- Two calls come during a pass that fails, and are answered by the next. -/
theorem writes_are_coalesced_burst :
    let events : List Event := [.write, .build 0, .change, .write, .write, .settle 0 false,
      .finallyRun 0, .resume 0, .resume 1, .build 1, .publish 1, .settle 1 true, .finallyRun 1,
      .resume 1, .resume 2]
    let s := events.foldl next initial
    (∀ c < 3, (s.call c).promise = [.rejected, .resolved, .resolved][c]?.getD .rejected) ∧
      followers s 0 = 1 ∧ arrivals s 0 = 2 ∧ (s.pass 1).published = true ∧
      ∃ p < s.passes, (s.pass p).isDone = true ∧ (s.call 1).calledAt ≤ (s.pass p).startedAt ∧
        (∀ t, (s.pass p).readAt = some t → (s.call 1).calledAt ≤ t) ∧
        ((s.pass p).published = true →
          ∃ t, (s.pass p).readAt = some t ∧ (s.call 1).calledAt ≤ t) := by
  intro events s
  have hs : Reachable machine s :=
    (Reachable.initial (m := machine) rfl).run events (by decide +kernel)
  refine ⟨by decide +kernel, ?_, by decide +kernel, by decide +kernel, ?_⟩
  · exact (writes_are_coalesced hs).2.2 0 (by decide +kernel) (by decide +kernel)
  · exact (writes_are_coalesced hs).2.1 1 (by decide +kernel) (by decide +kernel)

/-- Nobody is stranded: what a call waits for is under way, or the call may go on. -/
theorem call_is_answered (h : Reachable machine s) {c : ℕ} (hc : c < s.calls)
    (hwaits : (s.call c).promise ≠ .resolved ∧ (s.call c).promise ≠ .rejected)
    (hquiet : s.pending = none) : (resume c s).call c ≠ s.call c := by
  have hinv := reachable_invariant h
  have hidle : ∀ p < s.passes, (s.pass p).isDone = true := fun p hp =>
    hinv.done p hp (by rw [hquiet]; exact (Option.some_ne_none p).symm)
  have howed := hinv.owed c hc
  have hset : ∀ {promise}, promise ≠ (s.call c).promise →
      (setPromise c promise s).call c ≠ s.call c := by
    intro promise hne heq
    simp only [setPromise, Function.update_self] at heq
    exact hne (congrArg Call.promise heq)
  simp only [resume]
  cases hpromise : (s.call c).promise with
  | pending p =>
    simp only [Owed, hpromise] at howed
    have hdone := hidle p howed.1
    simp only [Pass.isDone] at hdone ⊢
    split at hdone
    next ok hstage =>
      apply hset
      rw [hpromise]
      cases ok <;> simp
    · cases hdone
  | chained p =>
    simp only [Owed, hpromise] at howed
    simp only [hidle p (hinv.during c hc p howed), if_true]
    apply hset
    rw [hpromise]
    cases s.trailing <;> simp
  | trailing p =>
    simp only [Owed, hpromise] at howed
    simp only [hidle p howed.1, if_true]
    apply hset
    simp [hpromise]
  | resolved => exact absurd hpromise hwaits.1
  | rejected => exact absurd hpromise hwaits.2

/-! ## The writer -/

/-- The writer that the passes belong to, whatever they find. -/
structure Matches (s : State) (w : ManifestWriter.State) : Prop where
  pass : w.pass.isSome = s.pending.isSome
  queued : w.queued = s.queued

/-- A request to the writer is a call, and the end of its pass is the end of the pending one. -/
theorem matches_write {w : ManifestWriter.State} (h : Matches s w) :
    Matches (write s) (ManifestWriter.request w) := by
  have hpass := h.pass
  have hqueued := h.queued
  unfold write ManifestWriter.request
  cases hpending : s.pending with
  | none =>
    rw [hpending, Option.isSome_none, Option.isSome_eq_false_iff,
      Option.isNone_iff_eq_none] at hpass
    rw [hpass]
    exact ⟨rfl, hqueued⟩
  | some p =>
    rw [hpending, Option.isSome_some] at hpass
    obtain ⟨pass, hsome⟩ := Option.isSome_iff_exists.mp hpass
    rw [hsome]
    exact ⟨rfl, rfl⟩

theorem matches_finallyRun {w : ManifestWriter.State} (h : Matches s w) (p : ℕ) :
    Matches (finallyRun p s) (ManifestWriter.passDone w) := by
  have hqueued := h.queued
  unfold finallyRun ManifestWriter.passDone
  show Matches (if s.queued then _ else _) _
  cases hs : s.queued with
  | true =>
    rw [hs] at hqueued
    simp only [hqueued, if_true]
    exact ⟨rfl, rfl⟩
  | false =>
    rw [hs] at hqueued
    simp only [hqueued, Bool.false_eq_true, if_false]
    exact ⟨rfl, hs.symm⟩

end ManifestPasses
