import Mathlib.Data.List.Infix

/-! # Logs of effects

What a procedure does, in order, and what each effect may come after. -/
namespace EffectLog

variable {ε : Type*} {P Q : List ε → ε → Prop} {log : List ε}

/-- Each effect is allowed after the ones before it. -/
def Orderly (P : List ε → ε → Prop) (log : List ε) : Prop :=
  ∀ before e, before ++ [e] <+: log → P before e

@[simp] theorem orderly_nil : Orderly P [] := by
  intro before e h
  simp at h

theorem orderly_concat {e : ε} : Orderly P (log ++ [e]) ↔ Orderly P log ∧ P log e := by
  constructor
  · intro h
    refine ⟨fun before e' hbefore => ?_, h log e (List.prefix_refl _)⟩
    exact h before e' (hbefore.trans (List.prefix_append _ _))
  · rintro ⟨h, he⟩ before e' hbefore
    rcases List.prefix_concat_iff.1 hbefore with heq | hbefore
    · obtain ⟨hlog, hlast⟩ := List.append_inj' heq rfl
      obtain rfl := List.singleton_inj.1 hlast
      rw [hlog]
      exact he
    · exact h before e' hbefore

/-- What an effect finds, wherever it is. -/
theorem Orderly.split (h : Orderly P log) {before after : List ε} {e : ε}
    (heq : log = before ++ e :: after) : P before e := by
  apply h
  rw [heq]
  exact ⟨after, by simp⟩

/-- The only effect of a kind is where it is. -/
theorem split_unique {p : ε → Prop} {l t before after : List ε} {x y : ε}
    (hl : ∀ e ∈ l, ¬p e) (ht : ∀ e ∈ t, ¬p e) (hy : p y)
    (h : l ++ x :: t = before ++ y :: after) : x = y ∧ t = after := by
  induction l generalizing before with
  | nil =>
    cases before with
    | nil =>
      simp only [List.nil_append, List.cons.injEq] at h
      exact h
    | cons e before =>
      simp only [List.nil_append, List.cons_append, List.cons.injEq] at h
      exact absurd hy (ht y (by simp [h.2]))
  | cons e l ih =>
    cases before with
    | nil =>
      simp only [List.nil_append, List.cons_append, List.cons.injEq] at h
      obtain ⟨rfl, -⟩ := h
      exact absurd hy (hl e (by simp))
    | cons e' before =>
      simp only [List.cons_append, List.cons.injEq] at h
      exact ih (fun e he => hl e (List.mem_cons_of_mem _ he)) h.2

end EffectLog
