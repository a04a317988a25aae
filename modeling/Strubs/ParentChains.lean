import Mathlib.Logic.Relation
import Mathlib.Logic.Relator

/-! # Chains of parents

Everything has one parent at most. A chain of parents ends at something that has none, or goes
round for ever. -/
namespace ParentChains

open Relation

variable {κ : Type*} {Up : κ → κ → Prop}

/-- It is an ancestor of its own. -/
def OnCycle (Up : κ → κ → Prop) (a : κ) : Prop := TransGen Up a a

def Top (Up : κ → κ → Prop) (a : κ) : Prop := ∀ b, ¬Up a b

theorem eq_of_top {a b : κ} (ha : Top Up a) (h : ReflTransGen Up a b) : a = b := by
  rcases h.cases_head with heq | ⟨c, hc, -⟩
  · exact heq
  · exact absurd hc (ha c)

/-- Whoever is below another one has the same top. -/
theorem reaches_top_iff (hunique : Relator.RightUnique Up) {a b t : κ} (ht : Top Up t)
    (hab : ReflTransGen Up a b) : ReflTransGen Up a t ↔ ReflTransGen Up b t := by
  constructor
  · intro hat
    rcases ReflTransGen.total_of_right_unique hunique hab hat with hbt | htb
    · exact hbt
    · obtain rfl := eq_of_top ht htb
      exact .refl
  · exact hab.trans

theorem top_unique (hunique : Relator.RightUnique Up) {a s t : κ} (hs : Top Up s) (ht : Top Up t)
    (has : ReflTransGen Up a s) (hat : ReflTransGen Up a t) : s = t :=
  eq_of_top hs ((reaches_top_iff hunique ht has).mp hat)

theorem OnCycle.not_top {a : κ} (h : OnCycle Up a) : ¬Top Up a := by
  intro htop
  obtain ⟨c, hc, -⟩ := TransGen.head'_iff.mp h
  exact htop c hc

/-- The ancestors of what is on a cycle are on it too. -/
theorem OnCycle.ancestor (hunique : Relator.RightUnique Up) {a b : κ} (h : OnCycle Up a)
    (hab : ReflTransGen Up a b) : OnCycle Up b := by
  induction hab with
  | refl => exact h
  | tail _ hstep ih =>
    obtain ⟨c, hc, hback⟩ := TransGen.head'_iff.mp ih
    obtain rfl := hunique hc hstep
    exact TransGen.tail' hback hstep

theorem OnCycle.not_reaches (hunique : Relator.RightUnique Up) {a t : κ} (h : OnCycle Up a)
    (ht : Top Up t) : ¬ReflTransGen Up a t :=
  fun hat => (h.ancestor hunique hat).not_top ht

end ParentChains
