import Mathlib.Data.List.Dedup
import Mathlib.Data.List.Perm.Subperm
import Mathlib.Order.Basic

/-! # The first element of each class

Elements with the same key are of one class. The first ones of a list are as many as its classes,
and no selection has more classes than elements, or than the list it is taken from. -/
namespace FirstOfClass

variable {α β : Type*} [DecidableEq β] (key : α → β)

def classes (l : List α) : ℕ := (l.map key).dedup.length

/-- The elements that no earlier one shares its class with, in the order of the list. -/
def firsts : List α → List α
  | [] => []
  | a :: l => a :: (firsts l).filter fun b => key b ≠ key a

/-- What the first elements of a list add to a selection. -/
def newcomers (chosen l : List α) : List α :=
  (firsts key l).filter fun a => key a ∉ chosen.map key

variable {key}

theorem firsts_subset (l : List α) : firsts key l ⊆ l := by
  induction l with
  | nil => exact List.Subset.refl _
  | cons a l ih =>
    intro b hb
    rcases List.mem_cons.mp hb with rfl | hb
    · exact List.mem_cons_self
    · exact List.mem_cons_of_mem _ (ih (List.mem_filter.mp hb).1)

theorem nodup_firsts (l : List α) : ((firsts key l).map key).Nodup := by
  induction l with
  | nil => exact List.nodup_nil
  | cons a l ih =>
    rw [firsts, List.map_cons, List.nodup_cons]
    constructor
    · intro hmem
      obtain ⟨b, hb, heq⟩ := List.mem_map.mp hmem
      exact of_decide_eq_true (List.mem_filter.mp hb).2 heq
    · exact ih.sublist ((List.filter_sublist).map key)

theorem firsts_of_nodup {l : List α} (h : (l.map key).Nodup) : firsts key l = l := by
  induction l with
  | nil => rfl
  | cons a l ih =>
    rw [List.map_cons, List.nodup_cons] at h
    rw [firsts, ih h.2, List.filter_eq_self.mpr]
    intro b hb
    exact decide_eq_true fun heq => h.1 (heq ▸ List.mem_map_of_mem hb)

/-- Every class has a first element. -/
theorem mem_map_firsts {l : List α} {b : β} : b ∈ (firsts key l).map key ↔ b ∈ l.map key := by
  induction l with
  | nil => rfl
  | cons a l ih =>
    rw [firsts, List.map_cons, List.map_cons, List.mem_cons, List.mem_cons, ← ih]
    refine or_congr_right' fun hne => ?_
    constructor
    · intro hb
      exact List.map_subset key (List.filter_subset_self _) hb
    · intro hb
      obtain ⟨c, hc, rfl⟩ := List.mem_map.mp hb
      exact List.mem_map_of_mem (List.mem_filter.mpr ⟨hc, decide_eq_true hne⟩)

theorem newcomers_nil_right (chosen : List α) : newcomers key chosen [] = [] := rfl

theorem newcomers_nil_left (l : List α) : newcomers key [] l = firsts key l := by
  simp [newcomers]

theorem newcomers_cons_of_mem {chosen l : List α} {a : α} (h : key a ∈ chosen.map key) :
    newcomers key chosen (a :: l) = newcomers key chosen l := by
  rw [newcomers, firsts, List.filter_cons_of_neg (by simpa using h), List.filter_filter, newcomers]
  refine List.filter_congr fun b _ => ?_
  rw [Bool.and_eq_left_iff_imp]
  intro hb
  refine decide_eq_true fun heq => of_decide_eq_true hb ?_
  rwa [heq]

theorem newcomers_cons_of_not_mem {chosen l : List α} {a : α} (h : key a ∉ chosen.map key) :
    newcomers key chosen (a :: l) = a :: newcomers key (chosen ++ [a]) l := by
  rw [newcomers, firsts, List.filter_cons_of_pos (by simpa using h), List.filter_filter, newcomers]
  congr 1
  refine List.filter_congr fun b _ => ?_
  simp only [List.map_append, List.mem_append, List.map_singleton, List.mem_singleton, not_or,
    Bool.decide_and, ne_eq]

theorem newcomers_subset (chosen l : List α) : newcomers key chosen l ⊆ l :=
  fun _ ha => firsts_subset l (List.mem_filter.mp ha).1

/-- The newcomers bring new classes only, and each of them one. -/
theorem nodup_append_newcomers {chosen : List α} (h : (chosen.map key).Nodup) (l : List α) :
    ((chosen ++ newcomers key chosen l).map key).Nodup := by
  rw [List.map_append, List.nodup_append]
  refine ⟨h, (nodup_firsts l).sublist (List.filter_sublist.map key), ?_⟩
  rintro b hb c hc rfl
  obtain ⟨a, ha, rfl⟩ := List.mem_map.mp hc
  exact of_decide_eq_true (List.mem_filter.mp ha).2 hb

theorem mem_map_append_newcomers {chosen l : List α} {b : β} (h : b ∈ l.map key) :
    b ∈ (chosen ++ newcomers key chosen l).map key := by
  rw [List.map_append, List.mem_append]
  by_cases hchosen : b ∈ chosen.map key
  · exact .inl hchosen
  · obtain ⟨a, ha, rfl⟩ := List.mem_map.mp (mem_map_firsts.mpr h)
    exact .inr (List.mem_map_of_mem (List.mem_filter.mpr ⟨ha, decide_eq_true hchosen⟩))

theorem classes_le_length (l : List α) : classes key l ≤ l.length := by
  have h := (List.dedup_sublist (l.map key)).length_le
  rwa [List.length_map] at h

theorem classes_eq_length {l : List α} (h : (l.map key).Nodup) : classes key l = l.length := by
  rw [classes, h.dedup, List.length_map]

theorem classes_eq_length_firsts (l : List α) : classes key l = (firsts key l).length := by
  have hperm : (l.map key).dedup.Perm ((firsts key l).map key) :=
    (List.perm_ext_iff_of_nodup (List.nodup_dedup _) (nodup_firsts l)).mpr fun b => by
      rw [List.mem_dedup, mem_map_firsts]
  rw [classes, hperm.length_eq, List.length_map]

/-- Keys that tell the same elements apart have the same classes. -/
theorem firsts_congr {γ : Type*} [DecidableEq γ] {key' : α → γ} {l : List α}
    (h : ∀ a ∈ l, ∀ b ∈ l, key a = key b ↔ key' a = key' b) : firsts key l = firsts key' l := by
  induction l with
  | nil => rfl
  | cons a l ih =>
    rw [firsts, firsts, ih fun b hb c hc =>
      h b (List.mem_cons_of_mem _ hb) c (List.mem_cons_of_mem _ hc)]
    congr 1
    refine List.filter_congr fun b hb => decide_eq_decide.mpr (not_congr ?_)
    exact h b (List.mem_cons_of_mem _ (firsts_subset l hb)) a List.mem_cons_self

theorem classes_mono {s l : List α} (h : ∀ b ∈ s.map key, b ∈ l.map key) :
    classes key s ≤ classes key l := by
  refine List.Subperm.length_le (List.subperm_of_subset (List.nodup_dedup _) fun b hb => ?_)
  exact List.mem_dedup.mpr (h b (List.mem_dedup.mp hb))

/-- Completing a selection of distinct classes, first by newcomers and then by anything, is as
diverse as any selection of the same size. -/
theorem classes_le_of_newcomers {chosen l result s : List α} {n : ℕ}
    (hchosen : (chosen.map key).Nodup) (hresult : result.length ≤ n)
    (h : (chosen ++ newcomers key chosen l).take n <+: result) (hs : s ⊆ l)
    (hlen : s.length ≤ result.length) : classes key s ≤ classes key result := by
  have hnodup := nodup_append_newcomers hchosen l
  have hall := @mem_map_append_newcomers _ _ _ key chosen l
  generalize chosen ++ newcomers key chosen l = spread at h hnodup hall
  by_cases hfull : n ≤ spread.length
  · have hsame : spread.take n = result := h.eq_of_length (by
      have := h.length_le
      rw [List.length_take] at this ⊢
      omega)
    have htake : ((spread.take n).map key).Nodup :=
      hnodup.sublist ((List.take_sublist n spread).map key)
    rw [← hsame, classes_eq_length htake, hsame]
    exact Nat.le_trans (classes_le_length s) hlen
  · rw [List.take_of_length_le (by omega)] at h
    exact classes_mono fun b hb =>
      List.map_subset key h.subset (hall (List.map_subset key hs hb))

end FirstOfClass
