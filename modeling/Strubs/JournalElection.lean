import Strubs.JournalSegments
import Strubs.PluralityClasses

/-! # Where the journal lives

The journal is kept on a few writable volumes, on different buses as far as possible. What
it is continued from when no replica is live is decided by the segments that the volumes of
the fleet carry: the largest group of volumes that look like one history, if there is one. -/
namespace JournalElection

open MessageDigest JournalSegments PluralityClasses

/-- A volume that may be written to. -/
structure Candidate where
  id : ℕ
  busGroup : Option ℤ
  deriving DecidableEq, Repr

/-- An ungrouped volume counts as its own group. -/
def Candidate.group (c : Candidate) : ℤ := c.busGroup.getD (-c.id)

/-- A volume of the fleet, and whether its segments can be listed. -/
structure FleetVolume where
  id : ℕ
  isDeleted : Bool
  isMounted : Bool
  hasMountPoint : Bool
  isReadable : Bool
  deriving DecidableEq, Repr

/-- What the journal is continued from. -/
structure Seed where
  sources : List ℕ
  ambiguous : Bool
  deriving DecidableEq, Repr

/-- The sources, and the volumes that carry another history. -/
structure Lineage where
  sources : List ℕ
  excluded : List ℕ
  ambiguous : Bool
  deriving DecidableEq, Repr

section Choosing

variable (wanted : ℕ) (candidates : List Candidate)

def keepElected : List ℕ → List Candidate → List Candidate
  | [], chosen => chosen
  | volumeId :: replicas, chosen =>
    match candidates.find? (·.id = volumeId) with
    | none => keepElected replicas chosen
    | some still =>
      if still.group ∈ chosen.map (·.group) then keepElected replicas chosen
      else if (chosen ++ [still]).length = wanted then chosen ++ [still]
      else keepElected replicas (chosen ++ [still])

/-- `usable` is a further condition on a candidate that has not been chosen. -/
def chooseMore (usable : List Candidate → Candidate → Bool) :
    List Candidate → List Candidate → List Candidate
  | [], chosen => chosen
  | c :: rest, chosen =>
    if chosen.length = wanted then chosen
    else if chosen.any (·.id = c.id) then chooseMore usable rest chosen
    else if usable chosen c then chooseMore usable rest (chosen ++ [c])
    else chooseMore usable rest chosen

/-- The elected replicas that may stay, then other buses, then any volume. -/
def chooseReplicas (replicas : List ℕ) : List Candidate :=
  let chosen := keepElected wanted candidates replicas []
  let chosen := chooseMore wanted (fun chosen c => c.group ∉ chosen.map (·.group))
    candidates chosen
  chooseMore wanted (fun _ _ => true) candidates chosen

end Choosing

variable (disks : ℕ → Directory)

/-- Not every segment is empty, and the first one is there. -/
def carriesHistory (d : Directory) : Bool :=
  d.names.any (fun n => 0 < (d.content n).length) && 0 ∈ d.names

def isUnreadable (v : FleetVolume) : Bool :=
  !v.isDeleted && (!v.isMounted || !v.hasMountPoint || !v.isReadable)

def isFound (v : FleetVolume) : Bool :=
  !v.isDeleted && !isUnreadable v && carriesHistory (disks v.id)

def found (fleet : List FleetVolume) : List ℕ := (fleet.filter (isFound disks)).map (·.id)

def unreadable (fleet : List FleetVolume) : List ℕ := (fleet.filter isUnreadable).map (·.id)

def alike (a b : ℕ) : Bool := sameLineage (disks a) (disks b)

def majorityLineage (candidates : List ℕ) : Lineage :=
  if candidates.length < 2 then ⟨candidates, [], false⟩
  else
    let classes := classify (alike disks) candidates
    match classes with
    | [c] => ⟨c, [], false⟩
    | _ =>
      match classes.mergeSort (fun c d => decide (d.length ≤ c.length)) with
      | c :: d :: rest =>
        if c.length = d.length then ⟨[], candidates, true⟩
        else ⟨c, (d :: rest).flatten, false⟩
      | _ => ⟨[], [], false⟩

/-- A volume that could not be read is not a volume without history. -/
def coldSeed (fleet : List FleetVolume) : Seed :=
  let lineage := majorityLineage disks (found disks fleet)
  if lineage.ambiguous then ⟨[], true⟩
  else if lineage.sources = [] ∧ unreadable fleet ≠ [] then ⟨[], true⟩
  else ⟨lineage.sources, false⟩


/-! The election chooses distinct volumes. -/

section Choosing

variable {wanted : ℕ} {candidates : List Candidate}

theorem keepElected_spec (replicas : List ℕ) (chosen : List Candidate)
    (h : ∀ c ∈ chosen, candidates.find? (·.id = c.id) = some c)
    (hnodup : (chosen.map (·.id)).Nodup) :
    (∀ c ∈ keepElected wanted candidates replicas chosen,
      candidates.find? (·.id = c.id) = some c) ∧
    ((keepElected wanted candidates replicas chosen).map (·.id)).Nodup := by
  induction replicas generalizing chosen with
  | nil => exact ⟨h, hnodup⟩
  | cons volumeId replicas ih =>
    simp only [keepElected]
    cases hfind : candidates.find? (·.id = volumeId) with
    | none => exact ih chosen h hnodup
    | some still =>
      have hid : still.id = volumeId := by simpa using List.find?_some hfind
      simp only
      by_cases hgroup : still.group ∈ chosen.map (·.group)
      · rw [if_pos hgroup]
        exact ih chosen h hnodup
      · have h' : ∀ c ∈ chosen ++ [still], candidates.find? (·.id = c.id) = some c := by
          intro c hc
          rcases List.mem_append.mp hc with hc | hc
          · exact h c hc
          · obtain rfl := List.mem_singleton.mp hc
            simpa [hid] using hfind
        -- a candidate that was chosen before has put its group in use
        have hfresh : still.id ∉ chosen.map (·.id) := by
          intro hmem
          obtain ⟨c, hc, hcid⟩ := List.mem_map.mp hmem
          have hsame : c = still := by
            have := h c hc
            rw [hcid, hid, hfind] at this
            exact (Option.some.inj this).symm
          exact hgroup (List.mem_map.mpr ⟨c, hc, by rw [hsame]⟩)
        have hnodup' : ((chosen ++ [still]).map (·.id)).Nodup := by
          rw [List.map_append, List.map_singleton, ← List.concat_eq_append]
          exact hnodup.concat hfresh
        rw [if_neg hgroup]
        split
        · exact ⟨h', hnodup'⟩
        · exact ih _ h' hnodup'

theorem chooseMore_nodup (usable : List Candidate → Candidate → Bool)
    (rest chosen : List Candidate) (hnodup : (chosen.map (·.id)).Nodup) :
    ((chooseMore wanted usable rest chosen).map (·.id)).Nodup := by
  induction rest generalizing chosen with
  | nil => exact hnodup
  | cons c rest ih =>
    simp only [chooseMore]
    split
    · exact hnodup
    · split
      · exact ih chosen hnodup
      · next hfresh =>
        split
        · apply ih
          rw [List.map_append, List.map_singleton, ← List.concat_eq_append]
          exact hnodup.concat (by simpa using hfresh)
        · exact ih chosen hnodup

theorem chooseReplicas_nodup (replicas : List ℕ) :
    ((chooseReplicas wanted candidates replicas).map (·.id)).Nodup := by
  apply chooseMore_nodup
  apply chooseMore_nodup
  exact (keepElected_spec replicas [] (by simp) (by simp)).2

end Choosing

variable {disks}

theorem alike_symm {a b : ℕ} (h : alike disks a b) : alike disks b a := sameLineage_symm h

theorem alike_self {a : ℕ} (h : carriesHistory (disks a)) : alike disks a a := by
  apply sameLineage_self
  simp only [carriesHistory, Bool.and_eq_true, decide_eq_true_eq] at h
  exact List.ne_nil_of_mem h.2

theorem carriesHistory_of_mem_found {fleet : List FleetVolume} {a : ℕ}
    (h : a ∈ found disks fleet) : carriesHistory (disks a) := by
  obtain ⟨v, hv, rfl⟩ := List.mem_map.mp h
  have := (List.mem_filter.mp hv).2
  simp only [isFound, Bool.and_eq_true] at this
  exact this.2

/-- The volumes that carry history fall into histories: looking alike is transitive. -/
def SeparateHistories (disks : ℕ → Directory) (volumes : List ℕ) : Prop :=
  ∀ a ∈ volumes, ∀ b ∈ volumes, ∀ c ∈ volumes, alike disks a b → alike disks b c →
    alike disks a c

theorem SeparateHistories.equivalence {fleet : List FleetVolume}
    (h : SeparateHistories disks (found disks fleet)) :
    EquivalenceOn (alike disks) (found disks fleet) :=
  ⟨fun _ hx => alike_self (carriesHistory_of_mem_found hx), fun _ _ _ _ => alike_symm, h⟩

theorem majorityLineage_eq {candidates : List ℕ} (hne : candidates ≠ []) :
    match plurality (classify (alike disks) candidates) with
    | some c => (majorityLineage disks candidates).sources = c ∧
        (majorityLineage disks candidates).ambiguous = false
    | none => (majorityLineage disks candidates).sources = [] ∧
        (majorityLineage disks candidates).ambiguous = true := by
  rcases candidates with _ | ⟨a, _ | ⟨b, rest⟩⟩
  · exact absurd rfl hne
  · simp [majorityLineage, classify, place, plurality]
  · simp only [majorityLineage, List.length_cons, show ¬ rest.length + 1 + 1 < 2 by omega,
      ↓reduceIte]
    generalize hclasses : classify (alike disks) (a :: b :: rest) = classes
    rcases classes with _ | ⟨c, _ | ⟨d, others⟩⟩
    · exact absurd hclasses (classify_ne_nil (by simp))
    · simp [plurality]
    · have hlen := (@List.length_mergeSort _ (fun c d : List ℕ => decide (d.length ≤ c.length)))
        (c :: d :: others)
      simp only [plurality]
      generalize (c :: d :: others).mergeSort (fun c d => decide (d.length ≤ c.length)) = sorted
        at hlen ⊢
      rcases sorted with _ | ⟨e, _ | ⟨f, more⟩⟩
      · simp at hlen
      · simp at hlen
      · by_cases hef : e.length = f.length <;> simp [hef]

/-- The chosen sources are the largest history, and there is a choice only if no other is
as large. -/
theorem majorityLineage_spec {candidates : List ℕ}
    (heq : EquivalenceOn (alike disks) candidates) (hne : candidates ≠ []) :
    ((majorityLineage disks candidates).ambiguous = false ∧
      Winner (alike disks) candidates (majorityLineage disks candidates).sources) ∨
    ((majorityLineage disks candidates).ambiguous = true ∧
      (majorityLineage disks candidates).sources = [] ∧
      ∀ c, ¬ Winner (alike disks) candidates c) := by
  have hchoice := plurality_classify heq hne
  have hlineage := (@majorityLineage_eq disks) hne
  generalize plurality (classify (alike disks) candidates) = choice at hchoice hlineage
  cases choice with
  | some c =>
    left
    rw [hlineage.1, hlineage.2]
    exact ⟨rfl, (hchoice c).mp rfl⟩
  | none =>
    right
    exact ⟨hlineage.2, hlineage.1, fun c hc => nomatch (hchoice c).mpr hc⟩

/-- Any two sources look like one history. -/
theorem coldSeed_sources {fleet : List FleetVolume}
    (h : SeparateHistories disks (found disks fleet)) {a b : ℕ}
    (ha : a ∈ (coldSeed disks fleet).sources) (hb : b ∈ (coldSeed disks fleet).sources) :
    a ∈ found disks fleet ∧ alike disks a b := by
  have hsources : ∀ x ∈ (coldSeed disks fleet).sources,
      x ∈ (majorityLineage disks (found disks fleet)).sources := by
    intro x hx
    simp only [coldSeed] at hx
    split at hx
    · cases hx
    · split at hx
      · cases hx
      · exact hx
  have ha := hsources a ha
  have hb := hsources b hb
  by_cases hne : found disks fleet = []
  · simp [hne, majorityLineage] at ha
  · rcases majorityLineage_spec h.equivalence hne with ⟨_, r, hr, hfilter, _⟩ | ⟨_, hnil, _⟩
    · rw [hfilter, List.mem_filter] at ha hb
      exact ⟨ha.1, h a ha.1 r hr b hb.1 (alike_symm ha.2) hb.2⟩
    · simp [hnil] at ha

theorem majorityLineage_perm {l l' : List ℕ} (heq : EquivalenceOn (alike disks) l)
    (hl : l.Perm l') :
    (majorityLineage disks l).sources.Perm (majorityLineage disks l').sources ∧
      (majorityLineage disks l).ambiguous = (majorityLineage disks l').ambiguous := by
  by_cases hne : l = []
  · subst hne
    rw [hl.nil_eq]
    exact ⟨.rfl, rfl⟩
  · have hne' : l' ≠ [] := fun h => hne (h ▸ hl).eq_nil
    have heq' := heq.of_subset hl.symm.subset
    rcases majorityLineage_spec heq hne with ⟨hamb, hwin⟩ | ⟨hamb, hnil, hnone⟩ <;>
      rcases majorityLineage_spec heq' hne' with ⟨hamb', hwin'⟩ | ⟨hamb', hnil', hnone'⟩
    · obtain ⟨d, hd, hperm⟩ := hwin.perm hl
      rw [hd.unique heq' hwin'] at hperm
      exact ⟨hperm, hamb.trans hamb'.symm⟩
    · obtain ⟨d, hd, _⟩ := hwin.perm hl
      exact absurd hd (hnone' d)
    · obtain ⟨d, hd, _⟩ := hwin'.perm hl.symm
      exact absurd hd (hnone d)
    · rw [hnil, hnil', hamb, hamb']
      exact ⟨.rfl, rfl⟩

/-- The choice does not depend on the order in which the volumes are listed. -/
theorem coldSeed_perm {fleet fleet' : List FleetVolume}
    (h : SeparateHistories disks (found disks fleet)) (hfleet : fleet.Perm fleet') :
    (coldSeed disks fleet).sources.Perm (coldSeed disks fleet').sources ∧
      (coldSeed disks fleet).ambiguous = (coldSeed disks fleet').ambiguous := by
  have hfound : (found disks fleet).Perm (found disks fleet') := (hfleet.filter _).map _
  have hunreadable : unreadable fleet = [] ↔ unreadable fleet' = [] := by
    have : (unreadable fleet).Perm (unreadable fleet') := (hfleet.filter _).map _
    exact ⟨fun h => (h ▸ this).nil_eq.symm, fun h => (h ▸ this).eq_nil⟩
  obtain ⟨hsources, hambiguous⟩ := majorityLineage_perm h.equivalence hfound
  have hnil : (majorityLineage disks (found disks fleet)).sources = [] ↔
      (majorityLineage disks (found disks fleet')).sources = [] :=
    ⟨fun h => (h ▸ hsources).nil_eq.symm, fun h => (h ▸ hsources).eq_nil⟩
  simp only [coldSeed, hambiguous, hnil, ne_eq, hunreadable]
  split
  · exact ⟨.rfl, rfl⟩
  · split
    · exact ⟨.rfl, rfl⟩
    · exact ⟨hsources, rfl⟩

/-- Every history that the volumes carry is matched by another one of at least its size. -/
def NoLargestHistory (disks : ℕ → Directory) (volumes : List ℕ) : Prop :=
  ∀ a ∈ volumes, ∃ b ∈ volumes, ¬ alike disks a b ∧
    (volumes.filter (alike disks a)).length ≤ (volumes.filter (alike disks b)).length

/-- Without a strictly largest history there is no choice. -/
theorem coldSeed_ambiguous {fleet : List FleetVolume}
    (h : SeparateHistories disks (found disks fleet)) (hne : found disks fleet ≠ [])
    (hlargest : NoLargestHistory disks (found disks fleet)) :
    coldSeed disks fleet = ⟨[], true⟩ := by
  rcases majorityLineage_spec h.equivalence hne with ⟨_, r, hr, hfilter, hmax⟩ | ⟨hamb, _⟩
  · obtain ⟨b, hb, hab, hle⟩ := hlargest r hr
    have hlt := hmax b hb hab
    rw [hfilter] at hlt
    omega
  · simp [coldSeed, hamb]

end JournalElection
