import Strubs.StateMachine
import Mathlib.Data.List.Count
import Mathlib.Tactic.Linarith

/-! # Guessing the admin password

A login verifies its password while others verify theirs, and the failures are counted when a
verification has ended, not when it begins. Five failures lock the login for half a minute. A
verification that was running when the lock was set still gives its answer. -/
namespace LoginThrottle

open StateMachine

def LOGIN_MAX_FAILURES : ℕ := 5
def LOGIN_LOCKOUT_MS : ℕ := 30 * 1000
def LOGIN_MAX_CONCURRENT : ℕ := 3

inductive Answer where
  | ok | invalid | throttled
  deriving DecidableEq, Repr

/-- The answers given are not kept by the source. -/
structure State where
  now : ℕ
  loginFailures : ℕ
  loginLockedUntil : ℕ
  loginInFlight : ℕ
  answers : List Answer
  deriving DecidableEq

def isLoginLocked (s : State) : Bool :=
  s.now < s.loginLockedUntil || LOGIN_MAX_CONCURRENT ≤ s.loginInFlight

def recordLoginResult (s : State) (ok : Bool) : State :=
  if ok then { s with loginFailures := 0, loginLockedUntil := 0 }
  else if LOGIN_MAX_FAILURES ≤ s.loginFailures + 1 then
    { s with loginFailures := 0, loginLockedUntil := s.now + LOGIN_LOCKOUT_MS }
  else { s with loginFailures := s.loginFailures + 1 }

/-- A verification ends with its verdict, or with the database's error. -/
inductive Event where
  | tick (ms : ℕ)
  | verifyLoginPassword
  | verified (ok : Bool)
  | failed
  deriving DecidableEq

def Enabled (s : State) : Event → Prop
  | .tick _ | .verifyLoginPassword => True
  | .verified _ | .failed => 0 < s.loginInFlight

instance (s : State) (e : Event) : Decidable (Enabled s e) := by
  cases e <;> simp only [Enabled] <;> infer_instance

def next (s : State) : Event → State
  | .tick ms => { s with now := s.now + ms }
  | .verifyLoginPassword =>
    if isLoginLocked s then { s with answers := s.answers ++ [.throttled] }
    else { s with loginInFlight := s.loginInFlight + 1 }
  | .verified ok =>
    let recorded := recordLoginResult s ok
    { recorded with
      loginInFlight := s.loginInFlight - 1
      answers := s.answers ++ [if ok then .ok else .invalid] }
  | .failed => { s with loginInFlight := s.loginInFlight - 1 }

def Initial (s : State) : Prop :=
  s.loginFailures = 0 ∧ s.loginLockedUntil = 0 ∧ s.loginInFlight = 0 ∧ s.answers = []

def machine : Machine State Event := ⟨Initial, Enabled, next⟩

/-- No right password is verified. -/
def guessing : Machine State Event :=
  ⟨Initial, fun s e => Enabled s e ∧ e ≠ .verified true, next⟩

instance (s : State) (e : Event) : Decidable (guessing.Enabled s e) :=
  inferInstanceAs (Decidable (Enabled s e ∧ e ≠ .verified true))

def guesses (s : State) : ℕ := s.answers.count .invalid

/-- Those that run when the lock is set, and the failures counted since, never make up a second
lock while the first one lasts. -/
structure Invariant (s : State) : Prop where
  failures : s.loginFailures < LOGIN_MAX_FAILURES
  inFlight : s.loginInFlight ≤ LOGIN_MAX_CONCURRENT
  locked : s.now < s.loginLockedUntil →
    s.loginFailures + s.loginInFlight < LOGIN_MAX_CONCURRENT
  until_le : s.loginLockedUntil ≤ s.now + LOGIN_LOCKOUT_MS

theorem invariant_initial {s : State} (h : Initial s) : Invariant s := by
  obtain ⟨hfailures, hlocked, hflight, -⟩ := h
  constructor
  · rw [hfailures]
    decide
  · rw [hflight]
    decide
  · intro hnow
    omega
  · omega

theorem verified_cases (s : State) (ok : Bool) :
    (ok = true ∧ (next s (.verified ok)).loginFailures = 0 ∧
      (next s (.verified ok)).loginLockedUntil = 0) ∨
    (ok = false ∧ LOGIN_MAX_FAILURES ≤ s.loginFailures + 1 ∧
      (next s (.verified ok)).loginFailures = 0 ∧
      (next s (.verified ok)).loginLockedUntil = s.now + LOGIN_LOCKOUT_MS) ∨
    (ok = false ∧ s.loginFailures + 1 < LOGIN_MAX_FAILURES ∧
      (next s (.verified ok)).loginFailures = s.loginFailures + 1 ∧
      (next s (.verified ok)).loginLockedUntil = s.loginLockedUntil) := by
  by_cases hok : ok = true
  · exact .inl ⟨hok, by simp [next, recordLoginResult, hok], by simp [next, recordLoginResult, hok]⟩
  · by_cases hmax : LOGIN_MAX_FAILURES ≤ s.loginFailures + 1
    · exact .inr (.inl ⟨by simpa using hok, hmax, by simp [next, recordLoginResult, hok, hmax],
        by simp [next, recordLoginResult, hok, hmax]⟩)
    · exact .inr (.inr ⟨by simpa using hok, by omega, by simp [next, recordLoginResult, hok, hmax],
        by simp [next, recordLoginResult, hok, hmax]⟩)

@[simp]
theorem verified_inFlight (s : State) (ok : Bool) :
    (next s (.verified ok)).loginInFlight = s.loginInFlight - 1 := rfl

@[simp]
theorem verified_now (s : State) (ok : Bool) : (next s (.verified ok)).now = s.now := by
  simp only [next, recordLoginResult]
  split
  · rfl
  · split <;> rfl

theorem verified_guesses (s : State) (ok : Bool) :
    guesses (next s (.verified ok)) = guesses s + if ok then 0 else 1 := by
  cases ok <;> simp [guesses, next]

theorem invariant_step {s : State} {e : Event} (h : Invariant s) (he : Enabled s e) :
    Invariant (next s e) := by
  obtain ⟨hfailures, hflight, hlocked, huntil⟩ := h
  cases e with
  | tick ms =>
    refine ⟨hfailures, hflight, fun hnow => ?_, ?_⟩
    · apply hlocked
      simp only [next] at hnow
      omega
    · simp only [next]
      omega
  | verifyLoginPassword =>
    by_cases hbusy : isLoginLocked s = true
    · simp only [next, if_pos hbusy]
      exact ⟨hfailures, hflight, hlocked, huntil⟩
    · simp only [next, if_neg hbusy]
      simp only [isLoginLocked, Bool.or_eq_true, decide_eq_true_eq, not_or, not_lt, not_le]
        at hbusy
      exact ⟨hfailures, hbusy.2, fun hnow => absurd hbusy.1 (Nat.not_le_of_lt hnow), huntil⟩
  | verified ok =>
    simp only [Enabled] at he
    obtain ⟨-, hf, hu⟩ | ⟨-, hmax, hf, hu⟩ | ⟨-, hmax, hf, hu⟩ := verified_cases s ok
    · constructor
      · rw [hf]
        decide
      · simp
        omega
      · rw [hu]
        intro hnow
        omega
      · rw [hu]
        omega
    -- Two of the three may still be running when the fifth failure is counted.
    · constructor
      · rw [hf]
        decide
      · simp
        omega
      · intro _
        rw [hf, verified_inFlight]
        omega
      · rw [hu, verified_now]
    · constructor
      · rw [hf]
        exact hmax
      · simp
        omega
      · intro hnow
        rw [hu, verified_now] at hnow
        have := hlocked hnow
        rw [hf, verified_inFlight]
        omega
      · rw [hu, verified_now]
        exact huntil
  | failed =>
    refine ⟨hfailures, ?_, fun hnow => ?_, huntil⟩
    · simp only [next]
      omega
    · have := hlocked hnow
      simp only [next]
      omega

theorem reachable_invariant {s : State} (h : Reachable machine s) : Invariant s :=
  h.invariant (fun _ => invariant_initial) fun _ _ => invariant_step

theorem guessing_reachable {s s' : State} (hs : Reachable machine s) (h : Steps guessing s s') :
    Reachable machine s' := by
  induction h with
  | refl => exact hs
  | step _ he ih => exact ih.step he.1

/-- What was guessed since some state, in lots of five and the failures still counted. The locks
that were set since do not overlap. -/
structure Guessed (s s' : State) (locks : ℕ) : Prop where
  now_le : s.now ≤ s'.now
  guesses_le : guesses s' ≤ guesses s + LOGIN_MAX_FAILURES * locks + s'.loginFailures
  locked : 0 < locks → s.now + LOGIN_LOCKOUT_MS * locks ≤ s'.loginLockedUntil

theorem guessed_refl (s : State) : Guessed s s 0 :=
  ⟨Nat.le_refl _, by omega, fun h => absurd h (Nat.lt_irrefl 0)⟩

theorem guessed_step {s s' : State} {e : Event} {locks : ℕ} (hinv : Invariant s')
    (h : Guessed s s' locks) (he : guessing.Enabled s' e) :
    ∃ locks, Guessed s (next s' e) locks := by
  obtain ⟨he, hwrong⟩ := he
  obtain ⟨hnow, hle, hlocked⟩ := h
  cases e with
  | tick ms => exact ⟨locks, by simp only [next]; omega, hle, hlocked⟩
  | verifyLoginPassword =>
    refine ⟨locks, ?_⟩
    by_cases hbusy : isLoginLocked s' = true
    · simp only [next, if_pos hbusy]
      exact ⟨hnow, by simpa [guesses] using hle, hlocked⟩
    · simp only [next, if_neg hbusy]
      exact ⟨hnow, hle, hlocked⟩
  | verified ok =>
    have hg := verified_guesses s' ok
    obtain ⟨rfl, -⟩ | ⟨rfl, hmax, hf, hu⟩ | ⟨rfl, hmax, hf, hu⟩ := verified_cases s' ok
    · exact absurd rfl hwrong
    · refine ⟨locks + 1, by rw [verified_now]; exact hnow, ?_, fun _ => ?_⟩
      · have := hinv.failures
        rw [hf, hg, Nat.mul_succ]
        simp only [Bool.false_eq_true, if_false]
        omega
      · -- A lock that still lasts leaves room for two failures only.
        have hfree : s'.loginLockedUntil ≤ s'.now := by
          by_contra hlt
          have := hinv.locked (Nat.lt_of_not_le hlt)
          simp only [LOGIN_MAX_FAILURES, LOGIN_MAX_CONCURRENT] at hmax this
          omega
        rw [hu, Nat.mul_succ]
        by_cases hzero : locks = 0
        · rw [hzero]
          omega
        · have := hlocked (Nat.pos_of_ne_zero hzero)
          omega
    · refine ⟨locks, by rw [verified_now]; exact hnow, ?_, fun hpos => ?_⟩
      · rw [hf, hg]
        simp only [Bool.false_eq_true, if_false]
        omega
      · rw [hu]
        exact hlocked hpos
  | failed => exact ⟨locks, hnow, hle, hlocked⟩

theorem guessed_run {s s' : State} (hs : Reachable machine s) (h : Steps guessing s s') :
    ∃ locks, Guessed s s' locks := by
  induction h with
  | refl => exact ⟨0, guessed_refl s⟩
  | step hsteps he ih =>
    obtain ⟨locks, hguessed⟩ := ih
    exact guessed_step (reachable_invariant (guessing_reachable hs hsteps)) hguessed he

/-- **Main result.** However the verifications overlap, a run in which no right password is
verified gets five wrong answers for every half minute, and seven more. -/
theorem guesses_bounded {s s' : State} (hs : Reachable machine s) (h : Steps guessing s s') :
    guesses s' ≤ guesses s + 5 * ((s'.now - s.now) / 30000) + 7 ∧ s'.loginInFlight ≤ 3 ∧
      s'.loginLockedUntil ≤ s'.now + 30000 := by
  obtain ⟨hfailures, hflight, hlocked, huntil⟩ :=
    reachable_invariant (guessing_reachable hs h)
  obtain ⟨locks, hnow, hle, hsince⟩ := guessed_run hs h
  simp only [LOGIN_MAX_FAILURES, LOGIN_MAX_CONCURRENT, LOGIN_LOCKOUT_MS, Nat.reduceMul]
    at hfailures hflight hlocked huntil hle hsince
  refine ⟨?_, hflight, huntil⟩
  by_cases hmany : (s'.now - s.now) / 30000 < locks
  · -- The last lock lasts, so only what was running when it was set has failed since.
    have hsince' := hsince (by omega)
    have hfew := hlocked (by omega)
    omega
  · omega

/-- Seven at once, and the next five half a minute later. -/
theorem guesses_bounded_burst :
    guesses ([Event.verifyLoginPassword, .verified false, .verifyLoginPassword, .verified false,
      .verifyLoginPassword, .verified false, .verifyLoginPassword, .verified false,
      .verifyLoginPassword, .verifyLoginPassword, .verifyLoginPassword, .verified false,
      .verified false, .verified false, .verifyLoginPassword].foldl next ⟨60000, 0, 0, 0, []⟩) ≤
      0 + 5 * ((60000 - 60000) / 30000) + 7 :=
  (guesses_bounded (Reachable.initial (by simp [machine, Initial])) (Steps.run _ (by decide))).1

end LoginThrottle
