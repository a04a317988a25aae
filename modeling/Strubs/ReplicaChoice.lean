import Strubs.FirstOfClass
import Strubs.JournalElection

/-! # Which volumes carry the journal

Three passes fill one list: replicas that may stay, volumes on other buses, and then any volume.
Each pass takes what it can use until enough are chosen. -/
namespace ReplicaChoice

open FirstOfClass JournalElection

/-- A volume without a bus group is a group of its own. -/
def busOf (c : Candidate) : ℤ ⊕ ℕ :=
  match c.busGroup with
  | some g => .inl g
  | none => .inr c.id

variable (candidates : List Candidate) in
/-- The current replicas that are still candidates. -/
def stillCandidates (replicas : List ℕ) : List Candidate :=
  replicas.filterMap fun volumeId => candidates.find? (·.id = volumeId)

/-- Ids are positive and group numbers are not negative. -/
structure Numbered (candidates : List Candidate) : Prop where
  ids : (candidates.map (·.id)).Nodup
  positive : ∀ c ∈ candidates, 0 < c.id
  groups : ∀ c ∈ candidates, ∀ g ∈ c.busGroup, 0 ≤ g

variable {wanted : ℕ} {candidates : List Candidate}

/-- No group number is the negated id of a volume. -/
theorem Numbered.group_eq_iff (h : Numbered candidates) {c d : Candidate} (hc : c ∈ candidates)
    (hd : d ∈ candidates) : c.group = d.group ↔ busOf c = busOf d := by
  have hcpos := h.positive c hc
  have hdpos := h.positive d hd
  have hcgroup := h.groups c hc
  have hdgroup := h.groups d hd
  unfold Candidate.group busOf
  cases hcg : c.busGroup with
  | none =>
    cases hdg : d.busGroup with
    | none => simp
    | some g' =>
      have := hdgroup g' hdg
      simp
      omega
  | some g =>
    have := hcgroup g hcg
    cases hdg : d.busGroup with
    | none =>
      simp
      omega
    | some g' => simp

theorem Numbered.eq_of_id (h : Numbered candidates) {c d : Candidate} (hc : c ∈ candidates)
    (hd : d ∈ candidates) (hid : c.id = d.id) : c = d :=
  List.inj_on_of_nodup_map h.ids hc hd hid

theorem stillCandidates_subset (replicas : List ℕ) :
    stillCandidates candidates replicas ⊆ candidates := by
  intro c hc
  obtain ⟨v, _, hfind⟩ := List.mem_filterMap.mp hc
  exact List.mem_of_find?_eq_some hfind

/-! One pass after the other. -/

/-- The first pass keeps the first of each group, as many as are wanted. -/
theorem keepElected_eq (replicas : List ℕ) {chosen : List Candidate}
    (h : chosen.length < wanted) :
    keepElected wanted candidates replicas chosen =
      (chosen ++ newcomers Candidate.group chosen (stillCandidates candidates replicas)).take
        wanted := by
  induction replicas generalizing chosen with
  | nil =>
    simp only [keepElected, stillCandidates, List.filterMap_nil, newcomers_nil_right,
      List.append_nil]
    rw [List.take_of_length_le h.le]
  | cons volumeId replicas ih =>
    simp only [keepElected, stillCandidates, List.filterMap_cons]
    cases hfind : candidates.find? (·.id = volumeId) with
    | none => exact ih h
    | some still =>
      simp only
      by_cases hgroup : still.group ∈ chosen.map (·.group)
      · rw [if_pos hgroup, newcomers_cons_of_mem hgroup]
        exact ih h
      · rw [if_neg hgroup, newcomers_cons_of_not_mem hgroup,
          List.append_cons chosen still (newcomers _ _ _)]
        have hlen : (chosen ++ [still]).length = chosen.length + 1 := by simp
        split_ifs with hfull
        · rw [List.take_append_of_le_length hfull.ge, List.take_of_length_le hfull.le]
        · exact ih (by omega)

/-- A pass that takes one of each group which is not in use yet. -/
theorem chooseMore_spread (hnum : Numbered candidates) {rest chosen : List Candidate}
    (hrest : rest ⊆ candidates) (hchosen : chosen ⊆ candidates) (h : chosen.length ≤ wanted) :
    chooseMore wanted (fun chosen c => c.group ∉ chosen.map (·.group)) rest chosen =
      (chosen ++ newcomers Candidate.group chosen rest).take wanted := by
  induction rest generalizing chosen with
  | nil => simp [chooseMore, newcomers_nil_right, List.take_of_length_le h]
  | cons c rest ih =>
    have hc := hrest List.mem_cons_self
    have hrest' : rest ⊆ candidates := fun d hd => hrest (List.mem_cons_of_mem _ hd)
    rw [chooseMore]
    split_ifs with hfull hany hgroup
    · rw [List.take_append_of_le_length hfull.ge, List.take_of_length_le hfull.le]
    · -- the volume itself has put its group in use
      obtain ⟨d, hd, hid⟩ := List.any_eq_true.mp hany
      obtain rfl := hnum.eq_of_id (hchosen hd) hc (of_decide_eq_true hid)
      rw [newcomers_cons_of_mem (List.mem_map_of_mem hd)]
      exact ih hrest' hchosen h
    · rw [newcomers_cons_of_not_mem (of_decide_eq_true hgroup),
        List.append_cons chosen c (newcomers _ _ _)]
      refine ih hrest' (fun d hd => ?_) (by simp; omega)
      rcases List.mem_append.mp hd with hd | hd
      · exact hchosen hd
      · rw [List.mem_singleton.mp hd]
        exact hc
    · rw [newcomers_cons_of_mem (not_not.mp fun hnew => hgroup (decide_eq_true hnew))]
      exact ih hrest' hchosen h

/-- A pass that takes whatever has not been chosen. -/
theorem chooseMore_fill {rest chosen : List Candidate} (hrest : (rest.map (·.id)).Nodup)
    (h : chosen.length ≤ wanted) :
    chooseMore wanted (fun _ _ => true) rest chosen =
      (chosen ++ rest.filter fun c => c.id ∉ chosen.map (·.id)).take wanted := by
  induction rest generalizing chosen with
  | nil => simp [chooseMore, List.take_of_length_le h]
  | cons c rest ih =>
    obtain ⟨hfresh, hrest'⟩ := List.nodup_cons.mp hrest
    rw [chooseMore]
    have hany : chosen.any (·.id = c.id) ↔ c.id ∈ chosen.map (·.id) := by
      simp
    split_ifs with hfull hold htrue
    · rw [List.take_append_of_le_length hfull.ge, List.take_of_length_le hfull.le]
    · rw [List.filter_cons_of_neg (by simpa using hany.mp hold)]
      exact ih hrest' h
    · have hnew : c.id ∉ chosen.map (·.id) := fun hmem => hold (hany.mpr hmem)
      rw [ih hrest' (by simp; omega), List.filter_cons_of_pos (by simpa using hnew),
        List.append_cons chosen c (List.filter _ _)]
      congr 2
      refine List.filter_congr fun d hd => decide_eq_decide.mpr (not_congr ?_)
      have hne : d.id ≠ c.id := fun heq => hfresh (List.mem_map.mpr ⟨d, hd, heq⟩)
      simp [hne]
    · exact absurd rfl htrue

/-! What the three passes choose together. -/

variable (wanted candidates) in
/-- The choice after the replicas that may stay, and after the volumes on other buses. -/
def kept (replicas : List ℕ) : List Candidate :=
  (firsts Candidate.group (stillCandidates candidates replicas)).take wanted

variable (wanted candidates) in
def spread (replicas : List ℕ) : List Candidate :=
  (kept wanted candidates replicas ++
    newcomers Candidate.group (kept wanted candidates replicas) candidates).take wanted

theorem kept_subset (replicas : List ℕ) : kept wanted candidates replicas ⊆ candidates :=
  fun _ hc => stillCandidates_subset replicas (firsts_subset _ (List.mem_of_mem_take hc))

theorem spread_subset (replicas : List ℕ) : spread wanted candidates replicas ⊆ candidates := by
  intro c hc
  rcases List.mem_append.mp (List.mem_of_mem_take hc) with hc | hc
  · exact kept_subset replicas hc
  · exact newcomers_subset _ _ hc

theorem chooseReplicas_eq (hnum : Numbered candidates) (hwanted : 1 ≤ wanted)
    (replicas : List ℕ) : chooseReplicas wanted candidates replicas =
      (spread wanted candidates replicas ++ candidates.filter fun c =>
        c.id ∉ (spread wanted candidates replicas).map (·.id)).take wanted := by
  have hkept : keepElected wanted candidates replicas [] = kept wanted candidates replicas := by
    rw [keepElected_eq replicas (show ([] : List Candidate).length < wanted from hwanted),
      newcomers_nil_left, List.nil_append, kept]
  have hspread : chooseMore wanted (fun chosen c => c.group ∉ chosen.map (·.group)) candidates
      (kept wanted candidates replicas) = spread wanted candidates replicas :=
    chooseMore_spread hnum (List.Subset.refl _) (kept_subset replicas) (by simp [kept])
  rw [chooseReplicas, hkept, hspread]
  exact chooseMore_fill hnum.ids (by simp [spread])

/-- A choice of distinct candidates and the candidates left out are all candidates. -/
theorem length_add_length_left {chosen : List Candidate} (hnum : Numbered candidates)
    (hchosen : chosen ⊆ candidates) (hnodup : (chosen.map (·.id)).Nodup) :
    chosen.length + (candidates.filter fun c => c.id ∉ chosen.map (·.id)).length =
      candidates.length := by
  have hperm : chosen.Perm (candidates.filter fun c => c.id ∈ chosen.map (·.id)) := by
    refine (List.perm_ext_iff_of_nodup (List.Nodup.of_map _ hnodup)
      ((List.Nodup.of_map _ hnum.ids).filter _)).mpr fun c => ?_
    rw [List.mem_filter, decide_eq_true_eq]
    constructor
    · intro hc
      exact ⟨hchosen hc, List.mem_map_of_mem hc⟩
    · rintro ⟨hc, hmem⟩
      obtain ⟨d, hd, hid⟩ := List.mem_map.mp hmem
      rwa [← hnum.eq_of_id (hchosen hd) hc hid]
  have hsplit := @List.length_eq_length_filter_add _ candidates
    (fun c => decide (c.id ∈ chosen.map (·.id)))
  rw [hperm.length_eq, hsplit]
  congr 2
  exact List.filter_congr fun c _ => decide_not

/-- As many distinct volumes as there are or are wanted, on as many buses as so many volumes can
be, and the current replicas stay where one of each bus suffices. -/
theorem chooseReplicas_spec (hnum : Numbered candidates) (hwanted : 1 ≤ wanted)
    (replicas : List ℕ) :
    ((chooseReplicas wanted candidates replicas).map (·.id)).Nodup ∧
    chooseReplicas wanted candidates replicas ⊆ candidates ∧
    (chooseReplicas wanted candidates replicas).length = min wanted candidates.length ∧
    (∀ s, s ⊆ candidates → s.length = (chooseReplicas wanted candidates replicas).length →
      classes busOf s ≤ classes busOf (chooseReplicas wanted candidates replicas)) ∧
    (firsts busOf (stillCandidates candidates replicas)).take wanted <+:
      chooseReplicas wanted candidates replicas := by
  have heq := chooseReplicas_eq hnum hwanted replicas
  have hnodup := @chooseReplicas_nodup wanted candidates replicas
  have hpre : spread wanted candidates replicas <+:
      chooseReplicas wanted candidates replicas := by
    rw [heq, List.take_append, List.take_of_length_le (by simp [spread])]
    exact List.prefix_append _ _
  have hsubset : chooseReplicas wanted candidates replicas ⊆ candidates := by
    intro c hc
    rw [heq] at hc
    rcases List.mem_append.mp (List.mem_of_mem_take hc) with hc | hc
    · exact spread_subset replicas hc
    · exact (List.mem_filter.mp hc).1
  have hlen : (chooseReplicas wanted candidates replicas).length =
      min wanted candidates.length := by
    rw [heq, List.length_take, List.length_append, length_add_length_left hnum
      (spread_subset replicas) (hnodup.sublist (hpre.sublist.map _))]
  have hkeys : ∀ {l : List Candidate}, l ⊆ candidates → ∀ c ∈ l, ∀ d ∈ l,
      c.group = d.group ↔ busOf c = busOf d :=
    fun hl c hc d hd => hnum.group_eq_iff (hl hc) (hl hd)
  refine ⟨hnodup, hsubset, hlen, fun s hs hslen => ?_, ?_⟩
  · rw [classes_eq_length_firsts, classes_eq_length_firsts, ← firsts_congr (hkeys hs),
      ← firsts_congr (hkeys hsubset), ← classes_eq_length_firsts, ← classes_eq_length_firsts]
    have hkept : ((kept wanted candidates replicas).map Candidate.group).Nodup :=
      (nodup_firsts _).sublist ((List.take_sublist _ _).map _)
    exact classes_le_of_newcomers hkept (by omega) hpre hs hslen.le
  · rw [← firsts_congr (hkeys (stillCandidates_subset replicas))]
    refine List.IsPrefix.trans ?_ hpre
    show kept wanted candidates replicas <+: spread wanted candidates replicas
    rw [spread, List.take_append, List.take_of_length_le (by simp [kept])]
    exact List.prefix_append _ _

theorem chooseReplicas_two_buses :
    (chooseReplicas 2 [⟨1, some 0⟩, ⟨2, some 0⟩, ⟨3, none⟩] [2, 1]).length = 2 ∧
      2 ≤ classes busOf (chooseReplicas 2 [⟨1, some 0⟩, ⟨2, some 0⟩, ⟨3, none⟩] [2, 1]) := by
  have hnum : Numbered [⟨1, some 0⟩, ⟨2, some 0⟩, ⟨3, none⟩] :=
    ⟨by decide, by decide, by decide⟩
  obtain ⟨-, -, hlen, hbest, -⟩ := chooseReplicas_spec hnum (show 1 ≤ 2 by decide) [2, 1]
  exact ⟨hlen, hbest [⟨1, some 0⟩, ⟨3, none⟩] (by decide) hlen.symm⟩

end ReplicaChoice
