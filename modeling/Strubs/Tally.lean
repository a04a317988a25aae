import Mathlib.Algebra.Order.BigOperators.Group.List
import Mathlib.Algebra.Order.Group.Nat
import Mathlib.Algebra.Ring.Nat

/-! # Tallies

What the entries of a table come to, when one entry at a time changes. -/
namespace Tally

variable {α : Type*}

def total (f : α → ℕ) (l : List α) : ℕ := (l.map f).sum

@[simp] theorem total_nil (f : α → ℕ) : total f [] = 0 := rfl

@[simp] theorem total_append_singleton (f : α → ℕ) (l : List α) (a : α) :
    total f (l ++ [a]) = total f l + f a := by
  simp [total]

/-- The old entry is taken out and the new one put in. -/
theorem total_set {l : List α} {i : ℕ} {a : α} (f : α → ℕ) (b : α) (h : l[i]? = some a) :
    total f (l.set i b) + f a = total f l + f b := by
  unfold total
  induction l generalizing i with
  | nil => cases h
  | cons x l ih =>
    cases i with
    | zero =>
      obtain rfl : x = a := Option.some.inj h
      simp only [List.set_cons_zero, List.map_cons, List.sum_cons]
      omega
    | succ i =>
      have := ih (i := i) h
      simp only [List.set_cons_succ, List.map_cons, List.sum_cons]
      omega

theorem le_total {l : List α} {a : α} (f : α → ℕ) (h : a ∈ l) : f a ≤ total f l :=
  List.single_le_sum (fun _ _ => Nat.zero_le _) _ (List.mem_map_of_mem h)

theorem total_congr {f g : α → ℕ} {l : List α} (h : ∀ a ∈ l, f a = g a) :
    total f l = total g l := by
  rw [total, total, List.map_congr_left h]

theorem total_eq_zero {f : α → ℕ} {l : List α} (h : ∀ a ∈ l, f a = 0) : total f l = 0 :=
  List.sum_eq_zero fun n hn => by
    obtain ⟨a, ha, rfl⟩ := List.mem_map.mp hn
    exact h a ha

/-- Two tallies against two others, entry by entry. -/
theorem total_add_le {f g f' g' : α → ℕ} {l : List α} (h : ∀ a ∈ l, f a + g a ≤ f' a + g' a) :
    total f l + total g l ≤ total f' l + total g' l := by
  unfold total
  rw [← List.sum_map_add, ← List.sum_map_add]
  exact List.sum_le_sum h

/-! ## Counting -/

theorem countP_add_countP {p q r : α → Bool} {l : List α}
    (h : ∀ a ∈ l, p a = (q a || r a) ∧ ¬(q a = true ∧ r a = true)) :
    l.countP q + l.countP r = l.countP p := by
  induction l with
  | nil => rfl
  | cons a l ih =>
    obtain ⟨⟨hor, hboth⟩, hl⟩ := List.forall_mem_cons.mp h
    have ih := ih hl
    rw [List.countP_cons, List.countP_cons, List.countP_cons, hor]
    cases hq : q a <;> cases hr : r a
    · simpa using ih
    · simp
      omega
    · simp
      omega
    · exact absurd ⟨hq, hr⟩ hboth

theorem total_ite (p : α → Bool) (l : List α) :
    total (fun a => if p a then 1 else 0) l = l.countP p := by
  induction l with
  | nil => rfl
  | cons a l ih =>
    rw [List.countP_cons, ← ih, Nat.add_comm]
    rfl

/-- Pairs are counted by either side. -/
theorem total_countP_comm {β : Type*} (p : α → β → Bool) (l : List α) (m : List β) :
    total (fun a => m.countP (p a)) l = total (fun b => l.countP (p · b)) m := by
  induction l with
  | nil => exact (total_eq_zero fun b _ => rfl).symm
  | cons a l ih =>
    have hhead := total_ite (p a) m
    simp only [total, List.map_cons, List.sum_cons] at ih hhead ⊢
    rw [ih, ← hhead, ← List.sum_map_add]
    refine congrArg List.sum (List.map_congr_left fun b _ => ?_)
    rw [List.countP_cons, Nat.add_comm]

end Tally
