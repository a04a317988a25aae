import Mathlib.Algebra.BigOperators.Group.Finset.Piecewise
import Mathlib.Algebra.Order.BigOperators.Group.Finset
import Mathlib.Data.List.MinMax
import Mathlib.Data.List.Perm.Subperm

/-! # Taking from queues in turn

A round takes the first element of every queue that still has one. However early one stops, no
other choice of as many elements puts fewer of them into the fullest class. -/
namespace RoundRobin

variable {κ α : Type*} [DecidableEq κ]

def round (ks : List κ) (q : κ → List α) : List α := ks.filterMap fun k => (q k).head?

def shift (q : κ → List α) : κ → List α := fun k => (q k).tail

/-- What the first rounds take. -/
def rounds (ks : List κ) : ℕ → (κ → List α) → List α
  | 0, _ => []
  | n + 1, q => round ks q ++ rounds ks n (shift q)

/-- Round after round until there are enough. -/
def alternate (ks : List κ) (count : ℕ) : ℕ → (κ → List α) → List α → Option (List α)
  | 0, _, sorted => if sorted.length < count then none else some sorted
  | fuel + 1, q, sorted =>
    if sorted.length < count then alternate ks count fuel (shift q) (sorted ++ round ks q)
    else some sorted

def load (key : α → κ) (l : List α) (k : κ) : ℕ := l.countP fun a => key a = k

/-- The load of the fullest class. -/
def maxLoad (key : α → κ) (l : List α) : ℕ := (l.map fun a => load key l (key a)).foldr max 0

/-- The elements of each class, class after class. -/
theorem perm_flatMap_filter {key : α → κ} {ks : List κ} {l : List α} (hks : ks.Nodup)
    (h : ∀ a ∈ l, key a ∈ ks) :
    (ks.flatMap fun k => l.filter fun a => key a = k).Perm l := by
  induction ks generalizing l with
  | nil =>
    rw [List.eq_nil_iff_forall_not_mem.mpr fun a ha => List.not_mem_nil (h a ha)]
    exact List.Perm.refl _
  | cons k ks ih =>
    obtain ⟨hk, hks⟩ := List.nodup_cons.mp hks
    rw [List.flatMap_cons]
    have hrest : (ks.flatMap fun k' => l.filter fun a => key a = k') =
        ks.flatMap fun k' =>
          (l.filter fun a => !decide (key a = k)).filter fun a => key a = k' := by
      refine List.flatMap_congr fun k' hk' => ?_
      rw [List.filter_filter]
      refine List.filter_congr fun a _ => ?_
      rw [Bool.eq_iff_iff]
      simp only [decide_eq_true_eq, Bool.and_eq_true, Bool.not_eq_true', decide_eq_false_iff_not]
      exact ⟨fun ha => ⟨ha, fun hak => hk (hak ▸ ha ▸ hk')⟩, fun ha => ha.1⟩
    rw [hrest]
    refine ((ih hks fun a ha => ?_).append_left _).trans (List.filter_append_perm _ l)
    obtain ⟨hmem, hne⟩ := List.mem_filter.mp ha
    simp only [Bool.not_eq_true', decide_eq_false_iff_not] at hne
    exact (List.mem_cons.mp (h a hmem)).resolve_left hne

/-- Every class has a queue of its own, and each is listed once. -/
structure Queues (key : α → κ) (ks : List κ) (q : κ → List α) : Prop where
  nodup : ks.Nodup
  key_eq : ∀ k, ∀ a ∈ q k, key a = k
  listed : ∀ k, q k ≠ [] → k ∈ ks

variable {key : α → κ} {ks : List κ} {q : κ → List α} {l : List α} {n : ℕ}

theorem load_append (key : α → κ) (l l' : List α) (k : κ) :
    load key (l ++ l') k = load key l k + load key l' k := List.countP_append

theorem load_sublist {l' : List α} (h : l.Sublist l') (k : κ) : load key l k ≤ load key l' k :=
  h.countP_le

theorem load_perm {l' : List α} (h : l.Perm l') (k : κ) : load key l k = load key l' k :=
  h.countP_eq _

theorem load_le_maxLoad (key : α → κ) (l : List α) (k : κ) : load key l k ≤ maxLoad key l := by
  by_cases h : ∃ a ∈ l, key a = k
  · obtain ⟨a, ha, rfl⟩ := h
    exact List.le_max_of_le (List.mem_map_of_mem ha) le_rfl
  · have hzero : load key l k = 0 :=
      List.countP_eq_zero.mpr fun a ha hk => h ⟨a, ha, of_decide_eq_true hk⟩
    rw [hzero]
    exact Nat.zero_le _

theorem maxLoad_le {m : ℕ} (h : ∀ k, load key l k ≤ m) : maxLoad key l ≤ m := by
  refine List.max_le_of_forall_le _ _ fun x hx => ?_
  obtain ⟨a, -, rfl⟩ := List.mem_map.mp hx
  exact h _

theorem length_eq_sum_load (key : α → κ) (l : List α) {s : Finset κ} (h : ∀ a ∈ l, key a ∈ s) :
    l.length = ∑ k ∈ s, load key l k := by
  induction l with
  | nil => simp [load]
  | cons a l ih =>
    have hload : ∀ k, load key (a :: l) k = load key l k + if key a = k then 1 else 0 := by
      intro k
      simp only [load, List.countP_cons, decide_eq_true_eq]
    simp only [hload, Finset.sum_add_distrib, Finset.sum_ite_eq, h a List.mem_cons_self, if_true,
      List.length_cons]
    rw [ih fun b hb => h b (List.mem_cons_of_mem _ hb)]

namespace Queues

omit [DecidableEq κ] in
theorem shift (h : Queues key ks q) : Queues key ks (RoundRobin.shift q) where
  nodup := h.nodup
  key_eq k a ha := h.key_eq k a (List.mem_of_mem_tail ha)
  listed k hk := h.listed k fun hnil => hk (by rw [RoundRobin.shift, hnil]; rfl)

/-- A round takes one of each queue that is not empty. -/
theorem load_round (h : Queues key ks q) (k : κ) :
    load key (round ks q) k = min (q k).length 1 := by
  have hhead : ∀ k', ((q k').head?.map fun a => decide (key a = k)).getD false =
      (decide (k' = k) && !(q k).isEmpty) := by
    intro k'
    by_cases hk : k' = k
    · subst hk
      cases hq : q k' with
      | nil => simp
      | cons a rest => simp [h.key_eq k' a (hq ▸ List.mem_cons_self)]
    · cases hq : q k' with
      | nil => simp [hk]
      | cons a rest => simp [h.key_eq k' a (hq ▸ List.mem_cons_self), hk]
  rw [load, round, List.countP_filterMap]
  simp only [hhead]
  cases hq : q k with
  | nil => simp
  | cons a rest =>
    have honce := List.count_eq_one_of_mem h.nodup
      (h.listed k (by rw [hq]; exact List.cons_ne_nil _ _))
    simpa [List.count, beq_eq_decide] using honce

theorem load_rounds (h : Queues key ks q) (n : ℕ) (k : κ) :
    load key (rounds ks n q) k = min (q k).length n := by
  induction n generalizing q with
  | zero => simp [rounds, load]
  | succ n ih =>
    rw [rounds, load_append, h.load_round, ih h.shift, RoundRobin.shift, List.length_tail]
    omega

/-- A class that is taken for the `(t + 1)`-th time has had all the others taken `t` times, as
far as they go. -/
theorem le_load_take (h : Queues key ks q) {m t : ℕ} {k : κ}
    (ht : t < load key ((rounds ks n q).take m) k) (k' : κ) :
    min (q k').length t ≤ load key ((rounds ks n q).take m) k' := by
  induction n generalizing q m t with
  | zero =>
    rw [rounds, List.take_nil] at ht
    cases ht
  | succ n ih =>
    cases t with
    | zero => exact Nat.min_le_right _ _ |>.trans (Nat.zero_le _)
    | succ t =>
      have hround := h.load_round
      rw [rounds, List.take_append, load_append] at ht ⊢
      have hfirst : load key ((round ks q).take m) k ≤ 1 :=
        (load_sublist (List.take_sublist _ _) k).trans (by rw [hround]; exact Nat.min_le_right _ _)
      have hrest : t < load key ((rounds ks n (RoundRobin.shift q)).take (m - (round ks q).length))
          k := by omega
      have hlater := ih h.shift hrest
      have hwhole : (round ks q).take m = round ks q := by
        apply List.take_of_length_le
        by_contra hlt
        rw [Nat.sub_eq_zero_of_le (by omega), List.take_zero] at hrest
        cases hrest
      rw [hwhole, hround]
      rw [RoundRobin.shift, List.length_tail] at hlater
      omega

/-- No choice of as many elements has a lower fullest class. -/
theorem maxLoad_take_le (h : Queues key ks q) {m : ℕ} {s : List α}
    (hs : ∀ k, load key s k ≤ (q k).length)
    (hlength : ((rounds ks n q).take m).length ≤ s.length) :
    maxLoad key ((rounds ks n q).take m) ≤ maxLoad key s := by
  by_contra hlt
  rw [not_le] at hlt
  obtain ⟨k, hk⟩ : ∃ k, maxLoad key s < load key ((rounds ks n q).take m) k := by
    by_contra hall
    push Not at hall
    exact absurd (maxLoad_le hall) (not_le.mpr hlt)
  have hle : ∀ k', load key s k' ≤ load key ((rounds ks n q).take m) k' := fun k' =>
    (Nat.le_min.mpr ⟨hs k', load_le_maxLoad key s k'⟩).trans (h.le_load_take hk k')
  have hlisted : ∀ l : List α, (∀ k, load key l k ≤ (q k).length) →
      ∀ a ∈ l, key a ∈ ks.toFinset := by
    intro l hl a ha
    rw [List.mem_toFinset]
    apply h.listed
    intro hnil
    have hpos : 0 < load key l (key a) := List.countP_pos_iff.mpr ⟨a, ha, decide_eq_true rfl⟩
    have := hl (key a)
    rw [hnil, List.length_nil] at this
    omega
  have htaken : ∀ k, load key ((rounds ks n q).take m) k ≤ (q k).length := fun k =>
    (load_sublist (List.take_sublist _ _) k).trans
      (by rw [h.load_rounds]; exact Nat.min_le_left _ _)
  refine absurd hlength (not_le.mpr ?_)
  rw [length_eq_sum_load key s (hlisted s hs), length_eq_sum_load key _ (hlisted _ htaken)]
  apply Finset.sum_lt_sum fun k' _ => hle k'
  refine ⟨k, ?_, (load_le_maxLoad key s k).trans_lt hk⟩
  obtain ⟨a, ha, hkey⟩ := List.countP_pos_iff.mp (Nat.zero_lt_of_lt hk)
  rw [← of_decide_eq_true hkey]
  exact hlisted _ htaken a ha

end Queues

omit [DecidableEq κ] in
theorem perm_rounds (ks : List κ) (n : ℕ) (q : κ → List α) :
    (rounds ks n q).Perm (ks.flatMap fun k => (q k).take n) := by
  induction n generalizing q with
  | zero => simp [rounds]
  | succ n ih =>
    have hround : round ks q = ks.flatMap fun k => (q k).head?.toList := by
      rw [round, List.filterMap_eq_flatMap_toList]
    rw [rounds, hround]
    refine ((ih (shift q)).append_left _).trans ((List.flatMap_append_perm _ _ _).trans ?_)
    have htake : ∀ k, (q k).head?.toList ++ (shift q k).take n = (q k).take (n + 1) := by
      intro k
      rw [shift]
      cases q k with
      | nil => simp
      | cons a rest => rfl
    simp only [htake]
    exact List.Perm.refl _

omit [DecidableEq κ] in
theorem rounds_subperm (ks : List κ) (n : ℕ) (q : κ → List α) :
    (rounds ks n q).Subperm (ks.flatMap q) := by
  refine (perm_rounds ks n q).subperm.trans (List.Sublist.subperm ?_)
  exact List.Sublist.flatMap_right ks fun k _ => List.take_sublist n (q k)

omit [DecidableEq κ] in
/-- As many rounds as there are elements take all of them. -/
theorem length_rounds {n : ℕ} (hn : (ks.flatMap q).length ≤ n) :
    (rounds ks n q).length = (ks.flatMap q).length := by
  have hwhole : ∀ k ∈ ks, (q k).take n = q k := by
    intro k hk
    apply List.take_of_length_le
    refine le_trans ?_ hn
    rw [List.length_flatMap]
    exact List.single_le_sum (fun _ _ => Nat.zero_le _) _ (List.mem_map_of_mem hk)
  rw [(perm_rounds ks n q).length_eq, List.flatMap_congr hwhole]

omit [DecidableEq κ] in
theorem alternate_eq {count fuel : ℕ} {sorted : List α}
    (h : count ≤ (sorted ++ rounds ks fuel q).length) :
    ∃ n, alternate ks count fuel q sorted = some (sorted ++ rounds ks n q) ∧
      count ≤ (sorted ++ rounds ks n q).length := by
  induction fuel generalizing q sorted with
  | zero =>
    rw [rounds, List.append_nil] at h
    exact ⟨0, by rw [alternate, if_neg (not_lt.mpr h), rounds, List.append_nil],
      by rwa [rounds, List.append_nil]⟩
  | succ fuel ih =>
    rw [alternate]
    split_ifs with hshort
    · rw [rounds, ← List.append_assoc] at h
      obtain ⟨n, heq, hlength⟩ := ih h
      refine ⟨n + 1, ?_, ?_⟩
      · rw [heq, rounds, List.append_assoc]
      · rwa [rounds, ← List.append_assoc]
    · exact ⟨0, by rw [rounds, List.append_nil], by rwa [rounds, List.append_nil, ← not_lt]⟩

omit [DecidableEq κ] in
/-- The rounds come to an end, and leave nothing. -/
theorem alternate_ends {l : List α} {fuel : ℕ} (hl : (ks.flatMap q).Perm l)
    (hfuel : l.length ≤ fuel) :
    ∃ n, alternate ks l.length fuel q [] = some (rounds ks n q) ∧ (rounds ks n q).Perm l := by
  rw [← hl.length_eq] at hfuel ⊢
  obtain ⟨n, heq, hlength⟩ := @alternate_eq _ _ ks q (ks.flatMap q).length fuel []
    (length_rounds hfuel).ge
  exact ⟨n, heq, ((rounds_subperm ks n q).perm_of_length_le hlength).trans hl⟩

end RoundRobin
