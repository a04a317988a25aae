import Mathlib.Data.List.Perm.Basic
import Strubs.StateMachine

/-! # Calls that are awaited

The tasks of one process share its memory, and each of them runs on until it awaits a call. The
call is answered at some later time, and at some time after that the task goes on. -/
namespace AwaitedCalls

open StateMachine

variable {Job Phase Reply Call : Type*}

/-- What a request does when it comes, which answers a call that is awaited may have and what it
does to the store, and what the task does then until its next call. -/
structure System (Job Phase Reply Call : Type*) where
  call : Call → Job → Job × Option Phase
  answer : Phase → Reply → Job → Option Job
  resume : Phase → Reply → Job → Job × Option Phase

structure Task (Phase Reply : Type*) where
  phase : Phase
  reply : Option Reply
  deriving DecidableEq

structure State (Job Phase Reply : Type*) where
  job : Job
  tasks : List (Task Phase Reply)

inductive Event (Reply Call : Type*) where
  | call (c : Call)
  | answer (i : ℕ) (reply : Reply)
  | resume (i : ℕ)

def awaiting (phase : Option Phase) : List (Task Phase Reply) :=
  (phase.map fun phase => ⟨phase, none⟩).toList

/-- When a request may come, and when a task may go on beside the others. -/
structure Care (Job Phase Reply Call : Type*) where
  call : Call → Job → List (Task Phase Reply) → Prop
  resume : Phase → Reply → Job → List (Task Phase Reply) → Prop

namespace System

variable (sys : System Job Phase Reply Call) (care : Care Job Phase Reply Call)

def Enabled (s : State Job Phase Reply) : Event Reply Call → Prop
  | .call c => care.call c s.job s.tasks
  | .answer i reply => ∃ t ∈ s.tasks[i]?, t.reply = none ∧ (sys.answer t.phase reply s.job).isSome
  | .resume i => ∃ t ∈ s.tasks[i]?, ∃ reply ∈ t.reply,
      care.resume t.phase reply s.job (s.tasks.eraseIdx i)

def next (s : State Job Phase Reply) : Event Reply Call → State Job Phase Reply
  | .call c => ⟨(sys.call c s.job).1, awaiting (sys.call c s.job).2 ++ s.tasks⟩
  | .answer i reply =>
    match s.tasks[i]? with
    | some t => ⟨(sys.answer t.phase reply s.job).getD s.job,
        ⟨t.phase, some reply⟩ :: s.tasks.eraseIdx i⟩
    | none => s
  | .resume i =>
    match s.tasks[i]? with
    | some ⟨phase, some reply⟩ => ⟨(sys.resume phase reply s.job).1,
        awaiting (sys.resume phase reply s.job).2 ++ s.tasks.eraseIdx i⟩
    | _ => s

def machine (initial : Job → Prop) : Machine (State Job Phase Reply) (Event Reply Call) where
  Initial s := initial s.job ∧ s.tasks = []
  Enabled := sys.Enabled care
  next := sys.next

end System

section Decidable

variable (sys : System Job Phase Reply Call) (care : Care Job Phase Reply Call)
  [∀ c job tasks, Decidable (care.call c job tasks)]
  [∀ phase reply job others, Decidable (care.resume phase reply job others)]

instance (s : State Job Phase Reply) (e : Event Reply Call) : Decidable (sys.Enabled care s e) :=
  match e with
  | .call c => inferInstanceAs (Decidable (care.call c s.job s.tasks))
  | .answer i reply => inferInstanceAs (Decidable (∃ t ∈ s.tasks[i]?, t.reply = none ∧
      (sys.answer t.phase reply s.job).isSome))
  | .resume i => inferInstanceAs (Decidable (∃ t ∈ s.tasks[i]?, ∃ reply ∈ t.reply,
      care.resume t.phase reply s.job (s.tasks.eraseIdx i)))

instance (initial : Job → Prop) (s : State Job Phase Reply) (e : Event Reply Call) :
    Decidable ((sys.machine care initial).Enabled s e) :=
  inferInstanceAs (Decidable (sys.Enabled care s e))

end Decidable

/-- Whatever may come whenever it wants to. -/
def carefree : Care Job Phase Reply Call := ⟨fun _ _ _ => True, fun _ _ _ _ => True⟩

instance (c : Call) (job : Job) (tasks : List (Task Phase Reply)) :
    Decidable ((carefree : Care Job Phase Reply Call).call c job tasks) :=
  inferInstanceAs (Decidable True)

instance (phase : Phase) (reply : Reply) (job : Job) (others : List (Task Phase Reply)) :
    Decidable ((carefree : Care Job Phase Reply Call).resume phase reply job others) :=
  inferInstanceAs (Decidable True)

variable {sys : System Job Phase Reply Call} {care : Care Job Phase Reply Call}
  {initial : Job → Prop} {P : Job → List (Task Phase Reply) → Prop}

/-- What does not depend on the order of the tasks holds in every state that is reached, if a
request, an answer and a task that goes on keep it. -/
theorem reachable_invariant (hperm : ∀ job l l', l.Perm l' → P job l → P job l')
    (hinitial : ∀ job, initial job → P job [])
    (hcall : ∀ c job tasks, care.call c job tasks → P job tasks →
      P (sys.call c job).1 (awaiting (sys.call c job).2 ++ tasks))
    (hanswer : ∀ phase reply job job' others, sys.answer phase reply job = some job' →
      P job (⟨phase, none⟩ :: others) → P job' (⟨phase, some reply⟩ :: others))
    (hresume : ∀ phase reply job others, care.resume phase reply job others →
      P job (⟨phase, some reply⟩ :: others) →
      P (sys.resume phase reply job).1 (awaiting (sys.resume phase reply job).2 ++ others))
    {s : State Job Phase Reply} (h : Reachable (sys.machine care initial) s) :
    P s.job s.tasks := by
  refine Reachable.invariant (P := fun s => P s.job s.tasks) (fun s hs => ?_)
    (fun s e hs he => ?_) h
  · obtain ⟨hjob, htasks⟩ := hs
    rw [htasks]
    exact hinitial s.job hjob
  · have htake {i : ℕ} {t : Task Phase Reply} (ht : s.tasks[i]? = some t) :
        P s.job (t :: s.tasks.eraseIdx i) := by
      obtain ⟨hi, rfl⟩ := List.getElem?_eq_some_iff.mp ht
      exact hperm _ _ _ (List.getElem_cons_eraseIdx_perm hi).symm hs
    cases e with
    | call c => exact hcall c s.job s.tasks he hs
    | answer i reply =>
      obtain ⟨⟨phase, _⟩, ht, rfl, hsome⟩ := he
      obtain ⟨job', hjob'⟩ := Option.isSome_iff_exists.mp hsome
      show P (sys.next s _).job (sys.next s _).tasks
      rw [System.next, ht]
      simp only [hjob', Option.getD_some]
      exact hanswer phase reply s.job job' _ hjob' (htake ht)
    | resume i =>
      obtain ⟨⟨phase, _⟩, ht, reply, rfl, hcare⟩ := he
      show P (sys.next s _).job (sys.next s _).tasks
      rw [System.next, ht]
      exact hresume phase reply s.job _ hcare (htake ht)

/-- What a call that is answered leaves in the store. One that is rejected may have been applied
all the same, and one that is not has an answer that is expected. -/
def stored (job written : Job) (expected fails : Bool) (rejected : Option Bool) : Option Job :=
  match rejected with
  | some applied => if fails then some (if applied then written else job) else none
  | none => if expected then some written else none

theorem stored_allowed {job written job' : Job} {expected fails : Bool} {rejected : Option Bool}
    (h : stored job written expected fails rejected = some job') :
    (rejected = none → expected) ∧ (rejected.isSome → fails) := by
  cases rejected with
  | some applied =>
    rw [stored] at h
    split at h
    · next hfails => exact ⟨nofun, fun _ => hfails⟩
    · cases h
  | none =>
    rw [stored] at h
    split at h
    · next hexpected => exact ⟨fun _ => hexpected, nofun⟩
    · cases h

theorem stored_cases {job written job' : Job} {expected fails : Bool} {rejected : Option Bool}
    (h : stored job written expected fails rejected = some job') :
    rejected.isSome ∧ job' = job ∨ job' = written := by
  rw [stored.eq_def] at h
  split at h
  · split at h
    · obtain rfl := Option.some.inj h
      split
      · exact .inr rfl
      · exact .inl ⟨rfl, rfl⟩
    · cases h
  · split at h
    · exact .inr (Option.some.inj h).symm
    · cases h

/-- What a request, an answer and a task that goes on leave as it is, every step does. -/
theorem next_keeps {α : Type*} (f : Job → α) (s : State Job Phase Reply)
    (hcall : ∀ c, f (sys.call c s.job).1 = f s.job)
    (hanswer : ∀ phase reply job', sys.answer phase reply s.job = some job' → f job' = f s.job)
    (hresume : ∀ phase reply, f (sys.resume phase reply s.job).1 = f s.job)
    (e : Event Reply Call) : f (sys.next s e).job = f s.job := by
  cases e with
  | call c => exact hcall c
  | answer i reply =>
    rw [System.next]
    split
    · next t _ =>
      cases h : sys.answer t.phase reply s.job with
      | none => rfl
      | some job' => exact hanswer t.phase reply job' h
    · rfl
  | resume i =>
    rw [System.next]
    split
    · exact hresume _ _
    · rfl

/-- Of a task and the others it is either the one that is set apart or one of the rest. -/
theorem turn_cases {t : Task Phase Reply} {main : Option (Task Phase Reply)}
    {rest others : List (Task Phase Reply)} (h : (t :: rest).Perm (main.toList ++ others)) :
    main = some t ∧ rest.Perm others ∨
      ∃ others', others.Perm (t :: others') ∧ rest.Perm (main.toList ++ others') := by
  rcases List.mem_append.mp (h.subset List.mem_cons_self) with hmain | hother
  · rw [Option.mem_toList] at hmain
    subst hmain
    exact .inl ⟨rfl, List.Perm.cons_inv h⟩
  · obtain ⟨before, after, rfl⟩ := List.append_of_mem hother
    refine .inr ⟨before ++ after, List.perm_middle, List.Perm.cons_inv (h.trans ?_)⟩
    rw [← List.append_assoc, ← List.append_assoc]
    exact List.perm_middle

/-! ## One task beside others -/

section Beside

/-- What holds of the memory, of the one task that is set apart, which may rely on being alone,
and of each of the others. -/
structure Roles (Job Phase Reply : Type*) where
  sound : Job → Prop
  main : Job → Prop → Option (Task Phase Reply) → Prop
  other : Job → Task Phase Reply → Prop
  mono : ∀ {job alone alone' t}, main job alone t → (alone → alone') → main job alone' t

variable {roles : Roles Job Phase Reply} {job job' : Job} {alone : Prop}
  {new : Option (Task Phase Reply)} {tasks rest : List (Task Phase Reply)} {t : Task Phase Reply}

def Beside (roles : Roles Job Phase Reply) (job : Job) (tasks : List (Task Phase Reply)) : Prop :=
  ∃ main others, tasks.Perm (main.toList ++ others) ∧ roles.sound job ∧
    roles.main job (others = []) main ∧ ∀ t ∈ others, roles.other job t

/-- The task that is set apart takes its turn, and disturbs no other unless it is alone. -/
structure MainTurn (roles : Roles Job Phase Reply) (job job' : Job) (alone : Prop)
    (new : Option (Task Phase Reply)) : Prop where
  sound : roles.sound job'
  main : roles.main job' alone new
  others : alone ∨ ∀ t, roles.other job t → roles.other job' t

/-- One of the others comes or takes its turn, and disturbs no one. -/
structure OtherTurn (roles : Roles Job Phase Reply) (job job' : Job)
    (new : Option (Task Phase Reply)) : Prop where
  sound : roles.sound job'
  others : ∀ t, roles.other job t → roles.other job' t
  new : ∀ t ∈ new, roles.other job' t
  main : ∀ main, roles.main job False main → roles.main job' False main

theorem Beside.perm {l l' : List (Task Phase Reply)} (hl : l.Perm l')
    (h : Beside roles job l) : Beside roles job l' := by
  obtain ⟨main, others, hperm, hrest⟩ := h
  exact ⟨main, others, hl.symm.trans hperm, hrest⟩

theorem beside_nil (hsound : roles.sound job) (hmain : roles.main job True none) :
    Beside roles job [] :=
  ⟨none, [], List.Perm.refl _, hsound, roles.mono hmain fun _ => rfl, by simp⟩

theorem Beside.of_nil (h : Beside roles job []) : roles.sound job ∧ roles.main job True none := by
  obtain ⟨main, others, hperm, hsound, hmain, -⟩ := h
  rw [List.nil_perm, List.append_eq_nil_iff, Option.toList_eq_nil_iff] at hperm
  obtain ⟨rfl, rfl⟩ := hperm
  exact ⟨hsound, roles.mono hmain fun _ => trivial⟩

/-- A task that comes when there is none is set apart. -/
theorem beside_singleton (hsound : roles.sound job) (hmain : roles.main job True (some t)) :
    Beside roles job [t] :=
  ⟨some t, [], List.Perm.refl _, hsound, roles.mono hmain fun _ => rfl, by simp⟩

theorem OtherTurn.beside {main : Option (Task Phase Reply)} {others : List (Task Phase Reply)}
    (h : OtherTurn roles job job' new) (hperm : tasks.Perm (main.toList ++ others))
    (hmain : roles.main job False main) (hothers : ∀ t ∈ others, roles.other job t) :
    Beside roles job' (new.toList ++ tasks) := by
  refine ⟨main, new.toList ++ others, ?_, h.sound, roles.mono (h.main main hmain) False.elim,
    fun t ht => ?_⟩
  · refine (List.Perm.append_left _ hperm).trans ?_
    rw [← List.append_assoc, ← List.append_assoc]
    exact List.Perm.append_right _ List.perm_append_comm
  · rcases List.mem_append.mp ht with hnew | hold
    · exact h.new t (Option.mem_toList.mp hnew)
    · exact h.others t (hothers t hold)

theorem Beside.turn (h : Beside roles job (t :: rest))
    (hmain : ∀ others, rest.Perm others → (∀ u ∈ others, roles.other job u) → roles.sound job →
      roles.main job (others = []) (some t) → MainTurn roles job job' (others = []) new)
    (hother : roles.sound job → roles.other job t → OtherTurn roles job job' new) :
    Beside roles job' (new.toList ++ rest) := by
  obtain ⟨main, others, hperm, hsound, hfits, hothers⟩ := h
  rcases turn_cases hperm with ⟨rfl, hrest⟩ | ⟨others', hturn, hrest⟩
  · obtain ⟨hsound', hnew, hkeep⟩ := hmain others hrest hothers hsound hfits
    refine ⟨new, others, hrest.append_left _, hsound', hnew, fun u hu => ?_⟩
    rcases hkeep with rfl | hkeep
    · cases hu
    · exact hkeep u (hothers u hu)
  · refine (hother hsound (hothers t (hturn.symm.subset List.mem_cons_self))).beside hrest
      (roles.mono hfits fun hnil => ?_)
      fun u hu => hothers u (hturn.symm.subset (List.mem_cons_of_mem t hu))
    rw [hnil] at hturn
    exact absurd hturn.length_eq (by simp)

end Beside

/-! ## Tasks that are beside each other -/

section Together

/-- What holds of the memory, of each task, and of the phases of any two of them. -/
structure Accord (Job Phase Reply : Type*) where
  sound : Job → Prop
  fits : Job → Task Phase Reply → Prop
  beside : Phase → Phase → Prop
  symm : ∀ {p q}, beside p q → beside q p

variable {accord : Accord Job Phase Reply} {job job' : Job} {new : Option (Task Phase Reply)}
  {tasks rest : List (Task Phase Reply)} {t : Task Phase Reply}

structure Together (accord : Accord Job Phase Reply) (job : Job)
    (tasks : List (Task Phase Reply)) : Prop where
  sound : accord.sound job
  fits : ∀ t ∈ tasks, accord.fits job t
  beside : tasks.Pairwise fun t u => accord.beside t.phase u.phase

theorem Together.perm {l l' : List (Task Phase Reply)} (hl : l.Perm l')
    (h : Together accord job l) : Together accord job l' :=
  ⟨h.sound, fun t ht => h.fits t (hl.symm.subset ht),
    h.beside.perm hl fun hbeside => accord.symm hbeside⟩

theorem together_nil (h : accord.sound job) : Together accord job [] :=
  ⟨h, by simp, List.Pairwise.nil⟩

/-- A request comes, and perhaps a task with it. -/
theorem Together.arrive (h : Together accord job tasks) (hsound : accord.sound job')
    (hfits : ∀ u ∈ tasks, accord.fits job u → accord.fits job' u)
    (hnew : ∀ n ∈ new, accord.fits job' n ∧
      ∀ u ∈ tasks, accord.fits job u → accord.beside n.phase u.phase) :
    Together accord job' (new.toList ++ tasks) := by
  refine ⟨hsound, fun u hu => ?_, List.pairwise_append.mpr ⟨?_, h.beside, fun n hn u hu => ?_⟩⟩
  · rcases List.mem_append.mp hu with hn | hold
    · exact (hnew u (Option.mem_toList.mp hn)).1
    · exact hfits u hold (h.fits u hold)
  · cases new with
    | none => exact List.Pairwise.nil
    | some n => exact List.pairwise_singleton _ n
  · exact (hnew n (Option.mem_toList.mp hn)).2 u hu (h.fits u hu)

/-- A task takes its turn. The rest of them are beside it, and beside what becomes of it. -/
theorem Together.turn (h : Together accord job (t :: rest)) (hsound : accord.sound job')
    (hfits : ∀ u ∈ rest, accord.fits job u → accord.beside t.phase u.phase →
      accord.fits job' u)
    (hnew : ∀ n ∈ new, accord.fits job' n ∧ ∀ u ∈ rest, accord.fits job u →
      accord.beside t.phase u.phase → accord.beside n.phase u.phase) :
    Together accord job' (new.toList ++ rest) := by
  obtain ⟨hbeside, hpairwise⟩ := List.pairwise_cons.mp h.beside
  have hrest : Together accord job rest :=
    ⟨h.sound, fun u hu => h.fits u (List.mem_cons_of_mem t hu), hpairwise⟩
  exact hrest.arrive hsound (fun u hu hfit => hfits u hu hfit (hbeside u hu))
    fun n hn => ⟨(hnew n hn).1, fun u hu hfit => (hnew n hn).2 u hu hfit (hbeside u hu)⟩

end Together

end AwaitedCalls
