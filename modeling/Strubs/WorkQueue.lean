import Mathlib.Data.List.Perm.Basic
import Strubs.StateMachine

/-! # Workers on a shared queue

Several workers take pieces of work off one queue. A piece is a tree that is walked from its root,
and a node is known to have nodes below it only once it has been looked at. Between any two nodes
another worker may have its turn. Whatever the turns are, every node is looked at once. -/
namespace WorkQueue

open StateMachine

variable {τ σ : Type*}

/-- The nodes below a node, and what is done when it is looked at. -/
structure Walk (τ σ : Type*) where
  below : τ → List τ
  visit : σ → τ → σ
  rank : τ → ℕ
  rank_lt : ∀ t, ∀ c ∈ below t, rank c < rank t

/-- What every worker still has to look at, the next one first. -/
structure State (τ σ : Type*) where
  queue : List τ
  trails : List (List τ)
  result : σ

def nodesTo (w : Walk τ σ) : ℕ → τ → List τ
  | 0, t => [t]
  | n + 1, t => t :: (w.below t).flatMap (nodesTo w n)

/-- A tree in the order in which one worker walks it. -/
def nodes (w : Walk τ σ) (t : τ) : List τ := nodesTo w (w.rank t) t

/-- A worker without work takes the next piece, if there is one. -/
def refill (trail queue : List τ) : List τ × List τ :=
  match trail, queue with
  | [], t :: queue => ([t], queue)
  | trail, queue => (trail, queue)

def State.pending (s : State τ σ) : List τ := s.trails.flatten ++ s.queue

variable (w : Walk τ σ) (workers : ℕ) (roots : List τ) (init : σ)

def start : State τ σ := ⟨roots.drop workers, (roots.take workers).map ([·]), init⟩

/-- The turn of one worker. -/
def next (s : State τ σ) (i : ℕ) : State τ σ :=
  match s.trails[i]? with
  | some (t :: rest) =>
    let (trail, queue) := refill (w.below t ++ rest) s.queue
    ⟨queue, s.trails.set i trail, w.visit s.result t⟩
  | _ => s

def Enabled (s : State τ σ) (i : ℕ) : Prop := ∃ t rest, s.trails[i]? = some (t :: rest)

def machine : Machine (State τ σ) ℕ where
  Initial s := s = start workers roots init
  Enabled := Enabled
  next := next w

instance (s : State τ σ) (i : ℕ) : Decidable (Enabled s i) :=
  match h : s.trails[i]? with
  | some (t :: rest) => isTrue ⟨t, rest, h⟩
  | some [] => isFalse fun ⟨_, _, h'⟩ => by simp [h] at h'
  | none => isFalse fun ⟨_, _, h'⟩ => by simp [h] at h'

/-- No worker has anything left. -/
def Done (s : State τ σ) : Prop := ∀ trail ∈ s.trails, trail = []

instance [DecidableEq τ] (s : State τ σ) : Decidable (Done s) :=
  inferInstanceAs (Decidable (∀ trail ∈ s.trails, trail = []))

variable {w workers roots init} {s : State τ σ} {i : ℕ}

/-! ## The nodes of a tree -/

theorem nodesTo_of_le {n : ℕ} {t : τ} (h : w.rank t ≤ n) : nodesTo w n t = nodes w t := by
  unfold nodes
  generalize hm : w.rank t = m at h
  induction m using Nat.strongRecOn generalizing n t with
  | ind m ih =>
    cases m with
    | zero =>
      have hleaf : w.below t = [] := by
        rw [List.eq_nil_iff_forall_not_mem]
        intro c hc
        have := w.rank_lt t c hc
        omega
      cases n with
      | zero => rfl
      | succ n => simp [nodesTo, hleaf]
    | succ m =>
      obtain ⟨n, rfl⟩ : ∃ k, n = k + 1 := ⟨n - 1, by omega⟩
      rw [nodesTo, nodesTo]
      congr 1
      refine List.flatMap_congr fun c hc => ?_
      have hlt := w.rank_lt t c hc
      rw [ih (w.rank c) (by omega) rfl (by omega : w.rank c ≤ n),
        ih (w.rank c) (by omega) rfl (by omega : w.rank c ≤ m)]

theorem nodes_eq (w : Walk τ σ) (t : τ) : nodes w t = t :: (w.below t).flatMap (nodes w) := by
  rw [← nodesTo_of_le (Nat.le_succ (w.rank t)), nodesTo]
  congr 1
  exact List.flatMap_congr fun c hc => nodesTo_of_le (Nat.le_of_lt (w.rank_lt t c hc))

/-- Whatever is in a tree is its root or in a tree below it. -/
theorem mem_nodes {t t' : τ} : t' ∈ nodes w t ↔ t' = t ∨ ∃ c ∈ w.below t, t' ∈ nodes w c := by
  rw [nodes_eq]
  simp

theorem mem_nodes_trans {t t' c : τ} (h : t' ∈ nodes w t) (hc : c ∈ w.below t') :
    c ∈ nodes w t := by
  generalize hrank : w.rank t = n
  induction n using Nat.strongRecOn generalizing t with
  | ind n ih =>
    refine mem_nodes.mpr (.inr ?_)
    rcases mem_nodes.mp h with rfl | ⟨d, hd, hmem⟩
    · exact ⟨c, hc, mem_nodes.mpr (.inl rfl)⟩
    · exact ⟨d, hd, ih _ (hrank ▸ w.rank_lt t d hd) hmem rfl⟩

/-! ## Turns -/

theorem refill_perm (trail queue : List τ) :
    ((refill trail queue).1 ++ (refill trail queue).2).Perm (trail ++ queue) := by
  cases trail <;> cases queue <;> simp [refill]

theorem flatten_set {l : List (List τ)} {a b : List τ} (h : l[i]? = some a) :
    (a ++ (l.set i b).flatten).Perm (b ++ l.flatten) := by
  classical
  induction l generalizing i with
  | nil => simp at h
  | cons x l ih =>
    rw [List.perm_iff_count]
    intro t
    cases i with
    | zero =>
      obtain rfl : x = a := by simpa using h
      simp only [List.set_cons_zero, List.flatten_cons, List.count_append]
      omega
    | succ i =>
      have hcount := (ih (by simpa using h)).count_eq t
      simp only [List.set_cons_succ, List.flatten_cons, List.count_append] at hcount ⊢
      omega

theorem next_eq {t : τ} {rest : List τ} (h : s.trails[i]? = some (t :: rest)) :
    next w s i = ⟨(refill (w.below t ++ rest) s.queue).2,
      s.trails.set i (refill (w.below t ++ rest) s.queue).1, w.visit s.result t⟩ := by
  simp only [next, h]

/-- A turn takes the node that is looked at off what is pending, and adds what is below it. -/
theorem pending_next {t : τ} {rest : List τ} (h : s.trails[i]? = some (t :: rest)) :
    (t :: (next w s i).pending).Perm (w.below t ++ s.pending) := by
  classical
  rw [next_eq h, List.perm_iff_count]
  intro t'
  have hset := (@flatten_set _ _ _ _ (refill (w.below t ++ rest) s.queue).1 h).count_eq t'
  have hrefill := (refill_perm (w.below t ++ rest) s.queue).count_eq t'
  simp only [State.pending, List.count_append, List.count_cons] at hset hrefill ⊢
  omega

/-! ## Every node is looked at once -/

/-- What has been looked at, and the trees of what is pending, are the trees of the roots. -/
structure Invariant (w : Walk τ σ) (workers : ℕ) (roots : List τ) (init : σ) (s : State τ σ) :
    Prop where
  visited : ∃ visited : List τ, s.result = visited.foldl w.visit init ∧
    (visited ++ s.pending.flatMap (nodes w)).Perm (roots.flatMap (nodes w))
  busy : s.queue ≠ [] → ∀ trail ∈ s.trails, trail ≠ []
  workers : s.trails.length = min workers roots.length

theorem start_invariant : Invariant w workers roots init (start workers roots init) where
  visited := by
    refine ⟨[], rfl, ?_⟩
    have hpending : (start workers roots init).pending = roots := by
      rw [State.pending, start, ← List.flatMap_def, List.flatMap_singleton',
        List.take_append_drop]
    rw [hpending, List.nil_append]
  busy _ trail htrail := by
    obtain ⟨t, _, rfl⟩ := List.mem_map.mp htrail
    exact List.cons_ne_nil _ _
  workers := by simp [start]

theorem next_invariant (h : Invariant w workers roots init s) (he : Enabled s i) :
    Invariant w workers roots init (next w s i) := by
  obtain ⟨t, rest, htrail⟩ := he
  refine ⟨?_, ?_, ?_⟩
  · obtain ⟨visited, hresult, hperm⟩ := h.visited
    refine ⟨visited ++ [t], by rw [next_eq htrail, List.foldl_append, hresult]; rfl, ?_⟩
    have hpending := (@pending_next _ _ w s i t rest htrail).flatMap_right (nodes w)
    rw [List.flatMap_cons, List.flatMap_append] at hpending
    refine .trans ?_ hperm
    rw [List.append_assoc]
    refine List.Perm.append_left _ ?_
    -- the nodes below the one that is looked at are on both sides
    rw [nodes_eq] at hpending
    classical
    rw [List.perm_iff_count] at hpending ⊢
    intro t'
    have hcount := hpending t'
    simp only [List.cons_append, List.nil_append, List.count_append, List.count_cons] at hcount ⊢
    omega
  · rw [next_eq htrail]
    intro hqueue trail hmem
    rcases List.mem_or_eq_of_mem_set hmem with hmem | rfl
    · refine h.busy (fun hnil => hqueue ?_) trail hmem
      rw [hnil]
      cases w.below t ++ rest <;> rfl
    · intro hnil
      revert hqueue hnil
      cases w.below t ++ rest <;> cases s.queue <;> simp [refill]
  · rw [next_eq htrail, List.length_set, h.workers]

theorem reachable_invariant (h : Reachable (machine w workers roots init) s) :
    Invariant w workers roots init s := by
  refine h.invariant (P := Invariant w workers roots init) (fun s hs => ?_) fun s i hs he =>
    next_invariant hs he
  rw [show s = start workers roots init from hs]
  exact start_invariant

/-- When nobody has anything left, every node has been looked at once, in some order. -/
theorem visited_perm (hworkers : 0 < workers) (h : Reachable (machine w workers roots init) s)
    (hdone : Done s) :
    ∃ visited : List τ, s.result = visited.foldl w.visit init ∧
      visited.Perm (roots.flatMap (nodes w)) := by
  have hinv := reachable_invariant h
  obtain ⟨visited, hresult, hperm⟩ := hinv.visited
  have htrails : s.trails.flatten = [] := List.flatten_eq_nil_iff.mpr hdone
  have hqueue : s.queue = [] ∨ s.trails = [] := by
    by_contra hne
    rw [not_or] at hne
    obtain ⟨trail, htrail⟩ := List.exists_mem_of_ne_nil _ hne.2
    exact hinv.busy hne.1 trail htrail (hdone trail htrail)
  refine ⟨visited, hresult, ?_⟩
  rcases hqueue with hqueue | hnone
  · simpa [State.pending, htrails, hqueue] using hperm
  · -- without workers there were no roots
    have hroots : roots = [] := by
      have hlength := hinv.workers
      rw [hnone, List.length_nil] at hlength
      exact List.eq_nil_of_length_eq_zero (by omega)
    subst hroots
    have hnil := (List.append_eq_nil_iff.mp (List.Perm.eq_nil hperm)).1
    rw [hnil]
    exact List.Perm.refl _

/-! ## The walk ends -/

/-- The nodes that have not been looked at. -/
def remaining (w : Walk τ σ) (s : State τ σ) : ℕ := (s.pending.flatMap (nodes w)).length

theorem remaining_next (he : Enabled s i) : remaining w (next w s i) + 1 = remaining w s := by
  obtain ⟨t, rest, htrail⟩ := he
  have hlength :=
    ((@pending_next _ _ w s i t rest htrail).flatMap_right (nodes w)).length_eq
  rw [List.flatMap_cons, List.flatMap_append, nodes_eq] at hlength
  simp only [List.length_append, List.length_cons] at hlength
  unfold remaining
  omega

theorem exists_enabled (h : ¬Done s) : ∃ i, Enabled s i := by
  simp only [Done, not_forall] at h
  obtain ⟨trail, hmem, hne⟩ := h
  obtain ⟨i, hi⟩ := List.mem_iff_getElem?.mp hmem
  obtain ⟨t, rest, rfl⟩ := List.exists_cons_of_ne_nil hne
  exact ⟨i, t, rest, hi⟩

end WorkQueue
