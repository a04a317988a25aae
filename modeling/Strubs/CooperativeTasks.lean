import Mathlib.Data.List.Basic
import Mathlib.Logic.Basic

/-! # Tasks that take turns

One process runs several tasks, and one gives way to another only where it awaits a call. What a
task does between two calls is one step. A task is shown to keep a guarantee at every step on
the assumption that all that happens meanwhile is what it relies on. Tasks each of which relies
on no more than the others guarantee can then take turns in any order. -/
namespace CooperativeTasks

universe u

variable {Call : Type u} {Answer : Call → Type u} {ε α β : Type u}

/-- A task that has come to its next await, has returned, or has thrown. -/
inductive Task {Call : Type u} (Answer : Call → Type u) (ε α : Type u) where
  | returned (a : α)
  | thrown (e : ε)
  | awaiting (c : Call) (resume : Except ε (Answer c) → Task Answer ε α)

namespace Task

def bind : Task Answer ε α → (α → Task Answer ε β) → Task Answer ε β
  | .returned a, f => f a
  | .thrown e, _ => .thrown e
  | .awaiting c resume, f => .awaiting c fun answer => (resume answer).bind f

/-- What is thrown goes to the handler. -/
def caught : Task Answer ε α → (ε → Task Answer ε α) → Task Answer ε α
  | .returned a, _ => .returned a
  | .thrown e, handler => handler e
  | .awaiting c resume, handler => .awaiting c fun answer => (resume answer).caught handler

instance : Monad (Task Answer ε) where
  pure := .returned
  bind := bind

instance : MonadExcept ε (Task Answer ε) where
  throw := .thrown
  tryCatch := caught

def isDone : Task Answer ε α → Bool
  | .awaiting _ _ => false
  | _ => true

end Task

/-- A call that is rejected throws where it is awaited. -/
def perform (c : Call) : Task Answer ε (Answer c) :=
  .awaiting c fun
    | .ok answer => .returned answer
    | .error e => .thrown e

/-! ## The calls of a task -/

namespace Task

/-- Every call that the task can come to. -/
def Calls (P : Call → Prop) : Task Answer ε α → Prop
  | .awaiting c resume => P c ∧ ∀ answer, (resume answer).Calls P
  | _ => True

variable {P : Call → Prop}

theorem Calls.mono {P' : Call → Prop} {t : Task Answer ε α} (ht : t.Calls P)
    (hP : ∀ c, P c → P' c) : t.Calls P' := by
  induction t with
  | returned a => trivial
  | thrown e => trivial
  | awaiting c resume ih => exact ⟨hP c ht.1, fun answer => ih answer (ht.2 answer)⟩

theorem Calls.bind {t : Task Answer ε α} {f : α → Task Answer ε β} (ht : t.Calls P)
    (hf : ∀ a, (f a).Calls P) : (t >>= f).Calls P := by
  show (t.bind f).Calls P
  induction t with
  | returned a => exact hf a
  | thrown e => trivial
  | awaiting c resume ih => exact ⟨ht.1, fun answer => ih answer (ht.2 answer)⟩

theorem Calls.caught {t : Task Answer ε α} {handler : ε → Task Answer ε α} (ht : t.Calls P)
    (hhandler : ∀ e, (handler e).Calls P) : (tryCatch t handler).Calls P := by
  show (t.caught handler).Calls P
  induction t with
  | returned a => trivial
  | thrown e => exact hhandler e
  | awaiting c resume ih => exact ⟨ht.1, fun answer => ih answer (ht.2 answer)⟩

theorem Calls.perform {c : Call} (h : P c) :
    (CooperativeTasks.perform c : Task Answer ε (Answer c)).Calls P :=
  ⟨h, fun answer => by cases answer <;> trivial⟩

theorem Calls.forM {f : α → Task Answer ε PUnit} {l : List α} (h : ∀ a ∈ l, (f a).Calls P) :
    (l.forM f).Calls P := by
  induction l with
  | nil => trivial
  | cons a l ih =>
    exact Calls.bind (h a List.mem_cons_self) fun _ =>
      ih fun b hb => h b (List.mem_cons_of_mem a hb)

end Task

/-! ## What a task keeps -/

section Meets

variable {World Env : Type*}

/-- What holds if the task returns. -/
def Returns (Q : α → World → Prop) : Except ε α → World → Prop
  | .ok a, w => Q a w
  | .error _, _ => True

variable (exec : Env → (c : Call) → World → Except ε (Answer c) × World)
  (rely guar : World → World → Prop)

/-- Every step of the task keeps the guarantee, and it ends as it should. Before each call the
others may have done what is relied on, and the environment chooses how the call turns out. -/
def Meets : Task Answer ε α → (Except ε α → World → Prop) → World → Prop
  | .returned a, post, w => post (.ok a) w
  | .thrown e, post, w => post (.error e) w
  | .awaiting c resume, post, w => ∀ w', rely w w' → ∀ env,
      guar w' (exec env c w').2 ∧ Meets (resume (exec env c w').1) post (exec env c w').2

variable {exec rely guar} {w : World}

theorem Meets.mono {post post' : Except ε α → World → Prop} {t : Task Answer ε α}
    (h : Meets exec rely guar t post w)
    (hpost : ∀ result w, post result w → post' result w) : Meets exec rely guar t post' w := by
  induction t generalizing w with
  | returned a => exact hpost _ _ h
  | thrown e => exact hpost _ _ h
  | awaiting c resume ih => exact fun w' hw' env => ⟨(h w' hw' env).1, ih _ (h w' hw' env).2⟩

theorem Meets.bind {t : Task Answer ε α} {f : α → Task Answer ε β} {Q : β → World → Prop}
    (h : Meets exec rely guar t (Returns fun a w => Meets exec rely guar (f a) (Returns Q) w) w) :
    Meets exec rely guar (t >>= f) (Returns Q) w := by
  show Meets exec rely guar (t.bind f) (Returns Q) w
  induction t generalizing w with
  | returned a => exact h
  | thrown e => exact h
  | awaiting c resume ih => exact fun w' hw' env => ⟨(h w' hw' env).1, ih _ (h w' hw' env).2⟩

/-- A task, and what comes after it when it returns. -/
theorem Meets.andThen {t : Task Answer ε α} {f : α → Task Answer ε β} {P : α → World → Prop}
    {Q : β → World → Prop} (h : Meets exec rely guar t (Returns P) w)
    (hf : ∀ a w, P a w → Meets exec rely guar (f a) (Returns Q) w) :
    Meets exec rely guar (t >>= f) (Returns Q) w := by
  refine Meets.bind (h.mono fun result w hresult => ?_)
  cases result with
  | ok a => exact hf a w hresult
  | error e => trivial

theorem Meets.perform {c : Call} {Q : Answer c → World → Prop}
    (h : ∀ w', rely w w' → ∀ env, guar w' (exec env c w').2 ∧
      ∀ answer, (exec env c w').1 = .ok answer → Q answer (exec env c w').2) :
    Meets exec rely guar (CooperativeTasks.perform c) (Returns Q) w := by
  intro w' hw' env
  obtain ⟨hstep, hrest⟩ := h w' hw' env
  refine ⟨hstep, ?_⟩
  generalize exec env c w' = outcome at hrest
  obtain ⟨e | answer, w''⟩ := outcome
  · trivial
  · exact hrest answer rfl

/-- What one round of a loop keeps, the loop keeps. -/
theorem Meets.forM {f : α → Task Answer ε PUnit} (I : List α → World → Prop) (l : List α)
    (hround : ∀ done a rest, l = done ++ a :: rest → ∀ w, I done w →
      Meets exec rely guar (f a) (Returns fun _ w => I (done ++ [a]) w) w) (hstart : I [] w) :
    Meets exec rely guar (l.forM f) (Returns fun _ w => I l w) w := by
  suffices h : ∀ rest done w, l = done ++ rest → I done w →
      Meets exec rely guar (rest.forM f) (Returns fun _ w => I l w) w from h l [] w rfl hstart
  intro rest
  induction rest with
  | nil =>
    intro done w hl hdone
    rw [List.append_nil] at hl
    exact hl ▸ hdone
  | cons a rest ih =>
    intro done w hl hdone
    exact (hround done a rest hl w hdone).andThen fun _ w hnext =>
      ih (done ++ [a]) w (by rw [hl, List.append_assoc]; rfl) hnext

/-- What each of its calls keeps, a task keeps, whether it returns or throws. -/
theorem Meets.of_calls {P : Call → Prop} {I : World → Prop} {t : Task Answer ε α}
    (ht : t.Calls P) (hstable : ∀ w w', I w → rely w w' → I w')
    (hcall : ∀ c, P c → ∀ w env, I w → guar w (exec env c w).2 ∧ I (exec env c w).2) (hw : I w) :
    Meets exec rely guar t (fun _ w => I w) w := by
  induction t generalizing w with
  | returned a => exact hw
  | thrown e => exact hw
  | awaiting c resume ih =>
    intro w' hw' env
    obtain ⟨hguar, hI⟩ := hcall c ht.1 w' env (hstable _ _ hw hw')
    exact ⟨hguar, ih _ (ht.2 _) hI⟩

end Meets

/-! ## Taking turns -/

/-- What the tasks of each role guarantee and rely on. -/
structure Discipline (World Role : Type*) where
  guar : Role → World → World → Prop
  rely : Role → World → World → Prop
  compatible : Role → Role → Prop
  symm : ∀ {r r'}, compatible r r' → compatible r' r
  trans : ∀ {r a b c}, rely r a b → rely r b c → rely r a c
  heeds : ∀ {r r' w w'}, compatible r r' → guar r w w' → rely r' w w'

section Turns

variable {World Role Env : Type*}
  (exec : Env → (c : Call) → World → Except ε (Answer c) × World) (d : Discipline World Role)

/-- Tasks that can take turns: each keeps its guarantee, and relies on no more than the others
guarantee. -/
structure Harmonious (running : List (Role × Task Answer ε α)) (w : World) : Prop where
  meets : ∀ p ∈ running, Meets exec (d.rely p.1) (d.guar p.1) p.2 (fun _ _ => True) w
  waits : ∀ p ∈ running, p.2.isDone = false
  compatible : running.Pairwise fun p q => d.compatible p.1 q.1

variable {exec d} {running : List (Role × Task Answer ε α)} {w w' : World}

theorem harmonious_nil (w : World) : Harmonious exec d ([] : List (Role × Task Answer ε α)) w where
  meets _ h := by cases h
  waits _ h := by cases h
  compatible := .nil

/-- Tasks that wait stay as they are when something happens that all of them rely on. -/
theorem Harmonious.disturbed (h : Harmonious exec d running w)
    (hrely : ∀ p ∈ running, d.rely p.1 w w') : Harmonious exec d running w' := by
  refine ⟨fun p hp => ?_, h.waits, h.compatible⟩
  have hmeets := h.meets p hp
  have hwaits := h.waits p hp
  obtain ⟨role, t⟩ := p
  cases t with
  | returned a => cases hwaits
  | thrown e => cases hwaits
  | awaiting c resume =>
    -- what has happened comes before whatever else happens until the call
    exact fun _ hlater env => hmeets _ (d.trans (hrely _ hp) hlater) env

theorem Harmonious.sublist {running' : List (Role × Task Answer ε α)}
    (h : Harmonious exec d running w) (hsub : running'.Sublist running) :
    Harmonious exec d running' w :=
  ⟨fun p hp => h.meets p (hsub.subset hp), fun p hp => h.waits p (hsub.subset hp),
    h.compatible.sublist hsub⟩

/-- A new task takes its turns with those it is compatible with. -/
theorem Harmonious.start (h : Harmonious exec d running w) {role : Role} {t : Task Answer ε α}
    (hcompatible : ∀ p ∈ running, d.compatible role p.1)
    (hmeets : Meets exec (d.rely role) (d.guar role) t (fun _ _ => True) w)
    (hwaits : t.isDone = false) : Harmonious exec d ((role, t) :: running) w :=
  ⟨List.forall_mem_cons.mpr ⟨hmeets, h.meets⟩, List.forall_mem_cons.mpr ⟨hwaits, h.waits⟩,
    List.pairwise_cons.mpr ⟨hcompatible, h.compatible⟩⟩

/-- The tasks after one of them has taken a step. One that is done is no longer there. -/
def turn (before : List (Role × Task Answer ε α)) (role : Role) (t : Task Answer ε α)
    (after : List (Role × Task Answer ε α)) : List (Role × Task Answer ε α) :=
  if t.isDone then before ++ after else before ++ (role, t) :: after

/-- A step keeps the guarantee of the task that takes it, and disturbs no other. -/
theorem Harmonious.step {before after : List (Role × Task Answer ε α)} {role : Role} {c : Call}
    {resume : Except ε (Answer c) → Task Answer ε α}
    (h : Harmonious exec d (before ++ (role, .awaiting c resume) :: after) w)
    (hrefl : d.rely role w w) (env : Env) :
    d.guar role w (exec env c w).2 ∧
      Harmonious exec d (turn before role (resume (exec env c w).1) after) (exec env c w).2 := by
  have hmem : (role, Task.awaiting c resume) ∈ before ++ (role, .awaiting c resume) :: after := by
    simp
  obtain ⟨hguar, hrest⟩ := h.meets _ hmem w hrefl env
  refine ⟨hguar, ?_⟩
  obtain ⟨hbefore, hafter, hacross⟩ := List.pairwise_append.mp h.compatible
  rw [List.pairwise_cons] at hafter
  have hothers : ∀ p ∈ before ++ after, d.compatible role p.1 := by
    intro p hp
    rcases List.mem_append.mp hp with hp | hp
    · exact d.symm (hacross p hp _ List.mem_cons_self)
    · exact hafter.1 p hp
  have hsub : (before ++ after).Sublist (before ++ (role, .awaiting c resume) :: after) :=
    List.Sublist.append_left (List.sublist_cons_self _ _) _
  have hkept := (h.sublist hsub).disturbed fun p hp => d.heeds (hothers p hp) hguar
  rw [turn]
  split
  · exact hkept
  · next hwaits =>
    have hcons := hkept.start hothers hrest (Bool.not_eq_true _ ▸ hwaits)
    have hperm : (before ++ (role, resume (exec env c w).1) :: after).Perm
        ((role, resume (exec env c w).1) :: (before ++ after)) := List.perm_middle
    refine ⟨fun p hp => hcons.meets p (hperm.subset hp),
      fun p hp => hcons.waits p (hperm.subset hp), ?_⟩
    exact (hperm.pairwise_iff fun hpq => d.symm hpq).mpr hcons.compatible

end Turns

/-! ## A task by itself -/

section Alone

variable {World Env : Type*} (exec : Env → (c : Call) → World → Except ε (Answer c) × World)

/-- What comes of a task that nothing disturbs, with one choice of the environment for each
call. -/
def Task.alone (env : ℕ → Env) : Task Answer ε α → ℕ → World → Except ε α × World
  | .returned a, _, w => (.ok a, w)
  | .thrown e, _, w => (.error e, w)
  | .awaiting c resume, n, w =>
    (resume (exec (env n) c w).1).alone env (n + 1) (exec (env n) c w).2

/-- What holds at the end of a task, whatever the environment chooses. -/
def Always (t : Task Answer ε α) (post : Except ε α → World → Prop) (w : World) : Prop :=
  ∀ env n, post (t.alone exec env n w).1 (t.alone exec env n w).2

variable {exec} {w : World} {t : Task Answer ε α} {f : α → Task Answer ε β}

theorem Always.returned {post : Except ε α → World → Prop} {a : α} (h : post (.ok a) w) :
    Always exec (pure a) post w :=
  fun _ _ => h

theorem Always.thrown {post : Except ε α → World → Prop} {e : ε} (h : post (.error e) w) :
    Always exec (throw e) post w :=
  fun _ _ => h

theorem Always.mono {post post' : Except ε α → World → Prop} (h : Always exec t post w)
    (hpost : ∀ result w', post result w' → post' result w') : Always exec t post' w :=
  fun env n => hpost _ _ (h env n)

theorem always_awaiting {c : Call} {resume : Except ε (Answer c) → Task Answer ε α}
    {post : Except ε α → World → Prop} :
    Always exec (.awaiting c resume) post w ↔
      ∀ env, Always exec (resume (exec env c w).1) post (exec env c w).2 := by
  constructor
  · intro h env rest n
    -- the choice for this call comes before the others
    have hrun := h (fun k => if k = n then env else rest (k - 1)) n
    have hshift : ∀ (t : Task Answer ε α) (m : ℕ) (w : World), n < m →
        t.alone exec (fun k => if k = n then env else rest (k - 1)) m w =
          t.alone exec rest (m - 1) w := by
      intro t
      induction t with
      | returned a => exact fun _ _ _ => rfl
      | thrown e => exact fun _ _ _ => rfl
      | awaiting c resume ih =>
        intro m w hm
        have hchoice : (if m = n then env else rest (m - 1)) = rest (m - 1) :=
          if_neg (by omega)
        simp only [Task.alone, hchoice]
        rw [ih _ (m + 1) _ (by omega)]
        congr 1
        omega
    simp only [Task.alone, ite_true] at hrun
    rw [hshift _ _ _ (Nat.lt_succ_self n)] at hrun
    exact hrun
  · intro h env n
    exact h (env n) env (n + 1)

theorem Always.bind {post : Except ε β → World → Prop}
    (h : Always exec t (fun result w' => match result with
      | .ok a => Always exec (f a) post w'
      | .error e => post (.error e) w') w) : Always exec (t >>= f) post w := by
  show Always exec (t.bind f) post w
  induction t generalizing w with
  | returned a => exact fun env n => h env n env n
  | thrown e => exact fun env n => h env n
  | awaiting c resume ih =>
    exact always_awaiting.mpr fun env => ih _ (always_awaiting.mp h env)

theorem Always.perform {c : Call} {post : Except ε (Answer c) → World → Prop}
    (h : ∀ env, post (exec env c w).1 (exec env c w).2) :
    Always exec (CooperativeTasks.perform c) post w := by
  refine always_awaiting.mpr fun env => ?_
  have hcall := h env
  generalize exec env c w = outcome at hcall
  obtain ⟨e | answer, w'⟩ := outcome
  · exact fun _ _ => hcall
  · exact fun _ _ => hcall

/-- With one choice for all calls, what comes of two tasks one after the other. -/
theorem Task.alone_bind (env : Env) (t : Task Answer ε α) (f : α → Task Answer ε β) (n : ℕ)
    (w : World) : (t >>= f).alone exec (fun _ => env) n w =
      match t.alone exec (fun _ => env) n w with
      | (.ok a, w') => (f a).alone exec (fun _ => env) n w'
      | (.error e, w') => (.error e, w') := by
  have hany : ∀ (t : Task Answer ε β) (m n : ℕ) (w : World),
      t.alone exec (fun _ => env) m w = t.alone exec (fun _ => env) n w := by
    intro t
    induction t with
    | returned a => exact fun _ _ _ => rfl
    | thrown e => exact fun _ _ _ => rfl
    | awaiting c resume ih => exact fun m n w => ih _ (m + 1) (n + 1) _
  show (t.bind f).alone exec (fun _ => env) n w = _
  induction t generalizing n w with
  | returned a => rfl
  | thrown e => rfl
  | awaiting c resume ih =>
    simp only [Task.bind, Task.alone]
    rw [ih]
    generalize (resume (exec env c w).1).alone exec (fun _ => env) (n + 1) (exec env c w).2 = r
    obtain ⟨e | a, w'⟩ := r
    · rfl
    · exact hany _ _ _ _

variable (exec) in
/-- One run of a task, with the same choice for each call. -/
def Runs (env : Env) (t : Task Answer ε α) (w : World) (result : Except ε α) (w' : World) : Prop :=
  ∀ n, t.alone exec (fun _ => env) n w = (result, w')

namespace Runs

variable {env : Env} {w' w'' : World}

theorem returned {a : α} : Runs exec env (pure a) w (.ok a) w := fun _ => rfl

theorem thrown {e : ε} : Runs exec env (throw e : Task Answer ε α) w (.error e) w := fun _ => rfl

theorem bind {a : α} {result : Except ε β} (ht : Runs exec env t w (.ok a) w')
    (hf : Runs exec env (f a) w' result w'') : Runs exec env (t >>= f) w result w'' := by
  intro n
  rw [Task.alone_bind, ht n]
  exact hf n

theorem bind_error {e : ε} (ht : Runs exec env t w (.error e) w') :
    Runs exec env (t >>= f) w (.error e) w' := by
  intro n
  rw [Task.alone_bind, ht n]

theorem performed {c : Call} {result : Except ε (Answer c)} (h : exec env c w = (result, w')) :
    Runs exec env (CooperativeTasks.perform c) w result w' := by
  intro n
  simp only [CooperativeTasks.perform, Task.alone, h]
  cases result with
  | ok a => rfl
  | error e => rfl

end Runs

theorem Always.run {post : Except ε α → World → Prop} (h : Always exec t post w) {env : Env}
    {result : Except ε α} {w' : World} (hrun : Runs exec env t w result w') : post result w' := by
  have hpost := h (fun _ => env) 0
  rw [hrun 0] at hpost
  exact hpost

theorem Always.caught {post post' : Except ε α → World → Prop} {handler : ε → Task Answer ε α}
    (ht : Always exec t post' w) (hok : ∀ a w', post' (.ok a) w' → post (.ok a) w')
    (hhandler : ∀ e w', post' (.error e) w' → Always exec (handler e) post w') :
    Always exec (tryCatch t handler) post w := by
  show Always exec (t.caught handler) post w
  induction t generalizing w with
  | returned a => exact fun env n => hok a w (ht env n)
  | thrown e => exact fun env n => hhandler e w (ht env n) env n
  | awaiting c resume ih => exact always_awaiting.mpr fun env => ih _ (always_awaiting.mp ht env)

/-- A task has ended in a state with the invariant, with a result or with an error. -/
def Ended (I : World → Prop) (Q : α → Prop) (E : ε → Prop) : Except ε α → World → Prop
  | .ok a, w => I w ∧ Q a
  | .error e, w => I w ∧ E e

variable (exec)

/-- From any state with the invariant a task ends in one with it. -/
def Triple (I : World → Prop) (t : Task Answer ε α) (Q : α → Prop) (E : ε → Prop) : Prop :=
  ∀ w, I w → Always exec t (Ended I Q E) w

variable {exec} {I : World → Prop} {P Q : α → Prop} {R : β → Prop} {E E' : ε → Prop}

namespace Triple

theorem returned {a : α} (h : Q a) : Triple exec I (pure a) Q E :=
  fun _ hw => Always.returned ⟨hw, h⟩

theorem thrown {e : ε} (h : E e) : Triple exec I (throw e) Q E :=
  fun _ hw => Always.thrown ⟨hw, h⟩

theorem bind (ht : Triple exec I t P E) (hf : ∀ a, P a → Triple exec I (f a) R E) :
    Triple exec I (t >>= f) R E := by
  intro w hw
  refine Always.bind ((ht w hw).mono fun result w' h => ?_)
  cases result with
  | ok a => exact hf a h.2 w' h.1
  | error e => exact h

theorem caught {handler : ε → Task Answer ε α} (ht : Triple exec I t Q E')
    (hhandler : ∀ e, E' e → Triple exec I (handler e) Q E) :
    Triple exec I (tryCatch t handler) Q E :=
  fun w hw => (ht w hw).caught (fun _ _ h => h) fun e w' h => hhandler e h.2 w' h.1

theorem performed {c : Call} {Q : Answer c → Prop}
    (h : ∀ w, I w → ∀ env, Ended I Q E (exec env c w).1 (exec env c w).2) :
    Triple exec I (CooperativeTasks.perform c) Q E :=
  fun w hw => Always.perform fun env => h w hw env

theorem mono (ht : Triple exec I t P E) (hQ : ∀ a, P a → Q a) (hE : ∀ e, E e → E' e) :
    Triple exec I t Q E' := by
  intro w hw
  refine (ht w hw).mono fun result w' h => ?_
  cases result with
  | ok a => exact ⟨h.1, hQ a h.2⟩
  | error e => exact ⟨h.1, hE e h.2⟩

end Triple

end Alone

end CooperativeTasks
