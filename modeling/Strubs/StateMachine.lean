import Mathlib.Data.List.Induction

/-! # State machines

A system that takes one enabled event after another. What holds at first and is kept by
every enabled event holds in every state that is reached. -/
namespace StateMachine

variable {σ ε : Type*}

structure Machine (σ ε : Type*) where
  Initial : σ → Prop
  Enabled : σ → ε → Prop
  next : σ → ε → σ

variable {m : Machine σ ε}

inductive Reachable (m : Machine σ ε) : σ → Prop where
  | initial {s} (h : m.Initial s) : Reachable m s
  | step {s e} (h : Reachable m s) (he : m.Enabled s e) : Reachable m (m.next s e)

theorem Reachable.invariant {P : σ → Prop} (hinitial : ∀ s, m.Initial s → P s)
    (hstep : ∀ s e, P s → m.Enabled s e → P (m.next s e)) {s : σ} (h : Reachable m s) : P s := by
  induction h with
  | initial h => exact hinitial _ h
  | step _ he ih => exact hstep _ _ ih he

/-- The same machine from other states, and with events that may be disabled by more. -/
theorem Reachable.mono {m' : Machine σ ε} (hinitial : ∀ s, m'.Initial s → Reachable m s)
    (henabled : ∀ s e, m'.Enabled s e → m.Enabled s e) (hnext : m'.next = m.next) {s : σ}
    (h : Reachable m' s) : Reachable m s := by
  induction h with
  | initial h => exact hinitial _ h
  | step _ he ih =>
    rw [hnext]
    exact ih.step (henabled _ _ he)

/-- From one state to a later one. -/
inductive Steps (m : Machine σ ε) : σ → σ → Prop where
  | refl (s) : Steps m s s
  | step {s s' e} (h : Steps m s s') (he : m.Enabled s' e) : Steps m s (m.next s' e)

theorem Steps.reachable {s s' : σ} (h : Steps m s s') (hs : Reachable m s) : Reachable m s' := by
  induction h with
  | refl => exact hs
  | step _ he ih => exact ih.step he

/-- A run all of whose events are enabled. -/
theorem Steps.run {s : σ} (events : List ε)
    (hrun : ∀ n (hn : n < events.length),
      m.Enabled ((events.take n).foldl m.next s) events[n]) :
    Steps m s (events.foldl m.next s) := by
  induction events using List.reverseRecOn with
  | nil => exact .refl s
  | append_singleton events e ih =>
    rw [List.foldl_append]
    apply Steps.step (ih fun n hn => ?_)
    · simpa using hrun events.length (by simp)
    · have := hrun n (by simp; omega)
      rwa [List.take_append_of_le_length (Nat.le_of_lt hn), List.getElem_append_left hn] at this

theorem Reachable.run {s : σ} (h : Reachable m s) (events : List ε)
    (hrun : ∀ n (hn : n < events.length),
      m.Enabled ((events.take n).foldl m.next s) events[n]) :
    Reachable m (events.foldl m.next s) :=
  (Steps.run events hrun).reachable h

/-- What every event keeps once it holds stays true. -/
theorem Steps.stable {P : σ → Prop}
    (hstep : ∀ s e, Reachable m s → P s → m.Enabled s e → P (m.next s e)) {s s' : σ}
    (hs : Reachable m s) (h : Steps m s s') (hp : P s) : P s' := by
  induction h with
  | refl => exact hp
  | step hsteps he ih => exact hstep _ _ (hsteps.reachable hs) ih he

/-! ## Parties

Of a system whose parties stand in a list: one comes after the others, or one takes a step. -/

section Parties

variable {α : Type*} {l : List α} {n k : ℕ} {a b : α} {f : α → α}

theorem getElem?_concat_iff :
    (l ++ [a])[n]? = some b ↔ l[n]? = some b ∨ n = l.length ∧ a = b := by
  rw [List.getElem?_append]
  split
  · rename_i hn
    constructor
    · exact Or.inl
    · rintro (h | ⟨rfl, -⟩)
      · exact h
      · exact absurd hn (Nat.lt_irrefl _)
  · rename_i hn
    rw [List.getElem?_singleton]
    have hnone : l[n]? = none := List.getElem?_eq_none (Nat.le_of_not_lt hn)
    by_cases h : n = l.length
    · simp [h]
    · have : ¬n - l.length = 0 := by omega
      simp [h, hnone, this]

theorem getElem?_modify_iff : (l.modify n f)[k]? = some b ↔
    k ≠ n ∧ l[k]? = some b ∨ k = n ∧ ∃ a, l[k]? = some a ∧ f a = b := by
  rw [List.getElem?_modify, Option.map_eq_map, Option.map_eq_some_iff]
  by_cases h : k = n
  · simp [h]
  · simp [h, Ne.symm h]

/-- What a party shows of itself may be the same after its step. -/
theorem filterMap_modify {β : Type*} {g : α → Option β} (hf : ∀ a, g (f a) = g a) :
    (l.modify n f).filterMap g = l.filterMap g := by
  induction l generalizing n with
  | nil => rw [List.modify_nil]
  | cons a l ih =>
    cases n with
    | zero => rw [List.modify_zero_cons, List.filterMap_cons, List.filterMap_cons, hf]
    | succ n => rw [List.modify_succ_cons, List.filterMap_cons, List.filterMap_cons, ih]

end Parties

end StateMachine
