import Mathlib.Data.List.Induction
import Mathlib.Data.List.Perm.Basic

/-! # Clusters of a common prefix

The first path takes to itself those that begin like it for as far as any does, and the others
are dealt with in the same way. -/
namespace PrefixClusters

variable {ι α : Type*} [DecidableEq α]

/-- How far two paths are the same. -/
def common : List α → List α → ℕ
  | a :: l, b :: m => if a = b then common l m + 1 else 0
  | _, _ => 0

/-- Those that begin with the first `n` components, or with the most that any of them begins
with, and those that do not. -/
def split (path : List α) (others : List (ι × List α)) :
    ℕ → List (ι × List α) × List (ι × List α)
  | 0 => ([], others)
  | n + 1 =>
    let mates := others.filter fun o => (path.take (n + 1)).isPrefixOf o.2
    if mates.isEmpty then split path others n
    else (mates, others.filter fun o => !(path.take (n + 1)).isPrefixOf o.2)

theorem split_perm (path : List α) (others : List (ι × List α)) (n : ℕ) :
    ((split path others n).1 ++ (split path others n).2).Perm others := by
  induction n with
  | zero => exact List.Perm.refl _
  | succ n ih =>
    rw [split]
    split
    · exact ih
    · exact List.filter_append_perm _ _

def clusters : List (ι × List α) → List (List (ι × List α))
  | [] => []
  | u :: others =>
    let parts := split u.2 others u.2.length
    (u :: parts.1) :: clusters parts.2
termination_by l => l.length
decreasing_by
  have := (split_perm u.2 others u.2.length).length_eq
  rw [List.length_append] at this
  simp only [List.length_cons]
  omega

variable {l m p : List α} {items : List (ι × List α)}

@[simp]
theorem common_self (l : List α) : common l l = l.length := by
  induction l with
  | nil => rfl
  | cons a l ih => rw [common, if_pos rfl, ih, List.length_cons]

theorem length_le_common (h : p <+: l) (h' : p <+: m) : p.length ≤ common l m := by
  induction p generalizing l m with
  | nil => exact Nat.zero_le _
  | cons a p ih =>
    obtain ⟨t, rfl⟩ := h
    obtain ⟨t', rfl⟩ := h'
    rw [List.cons_append, List.cons_append, common, if_pos rfl, List.length_cons]
    exact Nat.succ_le_succ (ih (List.prefix_append _ _) (List.prefix_append _ _))

theorem prefix_of_le_common (h : p <+: l) (hle : p.length ≤ common l m) : p <+: m := by
  induction p generalizing l m with
  | nil => exact List.nil_prefix
  | cons a p ih =>
    obtain ⟨t, rfl⟩ := h
    cases m with
    | nil => simp [common] at hle
    | cons b m =>
      rw [List.cons_append, common] at hle
      by_cases hab : a = b
      · rw [if_pos hab, List.length_cons] at hle
        subst hab
        exact (List.prefix_cons_inj a).mpr
          (ih (List.prefix_append p t) (Nat.le_of_succ_le_succ hle))
      · rw [if_neg hab] at hle
        cases hle

/-- There is a length at which the parts come apart. -/
theorem split_spec (path : List α) (others : List (ι × List α)) {n : ℕ} (hn : n ≠ 0) :
    ∃ k, k ≠ 0 ∧ k ≤ n ∧ (∀ o ∈ (split path others n).1, path.take k <+: o.2) ∧
      ∀ o ∈ (split path others n).2, ¬path.take k <+: o.2 := by
  induction n with
  | zero => exact absurd rfl hn
  | succ n ih =>
    rw [split]
    by_cases hmates : (others.filter fun o => (path.take (n + 1)).isPrefixOf o.2).isEmpty
    · rw [if_pos hmates]
      by_cases hzero : n = 0
      · subst hzero
        refine ⟨1, Nat.one_ne_zero, Nat.le_refl _, fun o ho => ?_, fun o ho hprefix => ?_⟩
        · cases ho
        · rw [List.isEmpty_iff, List.filter_eq_nil_iff] at hmates
          exact hmates o ho (List.isPrefixOf_iff_prefix.mpr hprefix)
      · obtain ⟨k, hk, hle, hparts⟩ := ih hzero
        exact ⟨k, hk, Nat.le_succ_of_le hle, hparts⟩
    · rw [if_neg hmates]
      refine ⟨n + 1, Nat.succ_ne_zero n, Nat.le_refl _, fun o ho => ?_, fun o ho hprefix => ?_⟩
      · exact List.isPrefixOf_iff_prefix.mp (List.mem_filter.mp ho).2
      · have hnot := (List.mem_filter.mp ho).2
        rw [List.isPrefixOf_iff_prefix.mpr hprefix] at hnot
        cases hnot

theorem clusters_perm (items : List (ι × List α)) : (clusters items).flatten.Perm items := by
  induction items using clusters.induct with
  | case1 => rw [clusters]; exact List.Perm.refl _
  | case2 u others parts ih =>
    rw [clusters, List.flatten_cons, List.cons_append]
    exact ((List.Perm.append_left _ ih).trans (split_perm _ _ _)).cons u

/-- What the first cluster has in common, none of the others has. -/
theorem cluster_prefix (u : ι × List α) (others : List (ι × List α)) (hu : u.2 ≠ []) :
    ∃ p : List α, p.length ≠ 0 ∧
      (∀ x ∈ u :: (split u.2 others u.2.length).1, p <+: x.2) ∧
      ∀ y ∈ (split u.2 others u.2.length).2, ¬p <+: y.2 := by
  have hlength : u.2.length ≠ 0 := fun h => hu (List.length_eq_zero_iff.mp h)
  obtain ⟨k, hk, hle, hmates, hrest⟩ := split_spec u.2 others hlength
  refine ⟨u.2.take k, ?_, fun x hx => ?_, hrest⟩
  · rw [List.length_take, Nat.min_eq_left hle]
    exact hk
  · rcases List.mem_cons.mp hx with rfl | hx
    · exact List.take_prefix _ _
    · exact hmates x hx

theorem mem_of_cluster {G : List (ι × List α)} {x : ι × List α} (hG : G ∈ clusters items)
    (hx : x ∈ G) : x ∈ items :=
  (clusters_perm items).subset (List.mem_flatten.mpr ⟨G, hG, hx⟩)

theorem mem_of_rest {path : List α} {n : ℕ} {x : ι × List α}
    (hx : x ∈ (split path items n).2) : x ∈ items :=
  (split_perm path items n).subset (List.mem_append_right _ hx)

theorem cluster_ne_nil {G : List (ι × List α)} (hG : G ∈ clusters items) : G ≠ [] := by
  induction items using clusters.induct with
  | case1 =>
    rw [clusters] at hG
    cases hG
  | case2 u others parts ih =>
    rw [clusters] at hG
    rcases List.mem_cons.mp hG with rfl | hG
    · exact List.cons_ne_nil _ _
    · exact ih hG

/-- The members of a cluster begin alike. -/
theorem clusters_close (hne : ∀ x ∈ items, x.2 ≠ []) :
    ∀ G ∈ clusters items, ∀ x ∈ G, ∀ y ∈ G, common x.2 y.2 ≠ 0 := by
  induction items using clusters.induct with
  | case1 =>
    intro G hG
    rw [clusters] at hG
    cases hG
  | case2 u others parts ih =>
    obtain ⟨hu, hothers⟩ := List.forall_mem_cons.mp hne
    rw [clusters, List.forall_mem_cons]
    constructor
    · intro x hx y hy
      obtain ⟨p, hp, hmates, -⟩ := cluster_prefix u others hu
      have := length_le_common (hmates x hx) (hmates y hy)
      omega
    · exact ih fun x hx => hothers x (mem_of_rest hx)

/-- Of two clusters, the members of the one that was made first are nearer to each other than
to any member of the other. -/
theorem clusters_stable (hne : ∀ x ∈ items, x.2 ≠ []) :
    (clusters items).Pairwise fun G H =>
      ∀ x ∈ G, ∀ w ∈ G, ∀ y ∈ H, common x.2 y.2 < common x.2 w.2 := by
  induction items using clusters.induct with
  | case1 =>
    rw [clusters]
    exact List.Pairwise.nil
  | case2 u others parts ih =>
    obtain ⟨hu, hothers⟩ := List.forall_mem_cons.mp hne
    rw [clusters, List.pairwise_cons]
    constructor
    · intro H hH x hx w hw y hy
      obtain ⟨p, -, hmates, hrest⟩ := cluster_prefix u others hu
      have hnear := length_le_common (hmates x hx) (hmates w hw)
      have hfar : ¬p.length ≤ common x.2 y.2 := fun hle =>
        hrest y (mem_of_cluster hH hy) (prefix_of_le_common (hmates x hx) hle)
      omega
    · exact ih fun x hx => hothers x (mem_of_rest hx)

end PrefixClusters
