import Strubs.Journal

/-! # Starting cold

Without a live replica the journal is continued from the volumes that look like the largest
history. They agree on what has been compared of them, whatever the order in which the fleet
lists its volumes, and a tie between histories leaves every disk alone. -/
namespace JournalColdStart

open MessageDigest JournalSegments JournalElection PluralityClasses Journal

/-- Nobody is live. -/
def Cold (s : State) : Prop := ∀ r ∈ s.replicas, r.isOpen = false

theorem seedSources_of_cold {s : State} (h : Cold s) (env : Environment) :
    seedSources env s = coldSeed s.disks env.fleet := by
  have hfind : s.replicas.find? (·.isOpen) = none := by
    rw [List.find?_eq_none]
    intro r hr
    simp [h r hr]
  simp [seedSources, hfind]

/-- A tie stops the start before anything is read from, written to or opened. -/
theorem rebuild_of_ambiguous {s : State} (h : Cold s) {env : Environment}
    (hambiguous : (coldSeed s.disks env.fleet).ambiguous) :
    (rebuild env s).disks = s.disks ∧ Cold (rebuild env s) := by
  have hseed := seedSources_of_cold (s := { s with phase := .idle }) h env
  simp only [rebuild, hseed, hambiguous, ↓reduceIte]
  split
  · exact ⟨rfl, h⟩
  · exact ⟨rfl, by simp [Cold]⟩

/-- Without any assumption, the sources look like the first one of them. -/
theorem coldSeed_like_first (disks : ℕ → Directory) (fleet : List FleetVolume) :
    ∀ r rest, (coldSeed disks fleet).sources = r :: rest → ∀ a ∈ rest, alike disks r a := by
  intro r rest hsources
  have hlineage : (majorityLineage disks (found disks fleet)).sources = r :: rest := by
    simp only [coldSeed] at hsources
    split at hsources
    · cases hsources
    · split at hsources
      · cases hsources
      · exact hsources
  have hne : found disks fleet ≠ [] := by
    rintro hnil
    simp [hnil, majorityLineage] at hlineage
  have hchoice := (@majorityLineage_eq disks) hne
  cases hplurality : plurality (classify (alike disks) (found disks fleet)) with
  | none =>
    rw [hplurality] at hchoice
    simp [hchoice.1] at hlineage
  | some c =>
    rw [hplurality] at hchoice
    have hmem : c ∈ classify (alike disks) (found disks fleet) := by
      rcases plurality_cases (classify_ne_nil hne) with ⟨d, _, hd, hperm, _⟩ | ⟨_, _, _, hnone, _⟩
      · obtain rfl := Option.some.inj (hd.symm.trans hplurality)
        exact hperm.mem_iff.mpr List.mem_cons_self
      · simp [hnone] at hplurality
    obtain ⟨r', rest', hc, _, hlike⟩ := classify_like_head _ c hmem
    rw [hchoice.1, hc] at hlineage
    obtain ⟨rfl, rfl⟩ := List.cons.inj hlineage
    exact hlike

/-- An election from these disks. The third part is about histories without a largest one. -/
structure Sound (disks : ℕ → Directory) (fleet : List FleetVolume) : Prop where
  sources : ∀ a ∈ (coldSeed disks fleet).sources, ∀ b ∈ (coldSeed disks fleet).sources,
    ∃ n, lowestShared (disks a) (disks b) = some n ∧
      AgreeOnProbe ((disks a).content n) ((disks b).content n) ∧
      (min ((disks a).content n).length ((disks b).content n).length ≤ lineageProbeBytes →
        (disks a).content n <+: (disks b).content n ∨
          (disks b).content n <+: (disks a).content n)
  order : ∀ fleet', fleet.Perm fleet' →
    (coldSeed disks fleet).sources.Perm (coldSeed disks fleet').sources ∧
      (coldSeed disks fleet).ambiguous = (coldSeed disks fleet').ambiguous
  conflict : found disks fleet ≠ [] → NoLargestHistory disks (found disks fleet) →
    ∀ env s, env.fleet = fleet → s.disks = disks → Cold s →
      (seedSources env s).ambiguous ∧ (rebuild env s).disks = disks ∧ Cold (rebuild env s)

theorem coldSeed_sound {disks : ℕ → Directory} {fleet : List FleetVolume}
    (h : SeparateHistories disks (found disks fleet)) : Sound disks fleet := by
  refine ⟨?_, fun fleet' hfleet => coldSeed_perm h hfleet, ?_⟩
  · intro a ha b hb
    obtain ⟨n, hn, hagree⟩ := (sameLineage_iff _ _).mp (coldSeed_sources h ha hb).2
    exact ⟨n, hn, hagree, hagree.comparable⟩
  · rintro hne hlargest env s rfl rfl hcold
    have hseed := coldSeed_ambiguous h hne hlargest
    rw [seedSources_of_cold hcold]
    have hambiguous : (coldSeed s.disks env.fleet).ambiguous := by rw [hseed]
    exact ⟨hambiguous, rebuild_of_ambiguous hcold hambiguous⟩

/-- One segment on every volume. -/
def oneSegment (content : ℕ → Bytes) (v : ℕ) : Directory where
  names := [0]
  nodup := nodup_firstSegment
  content := fun _ => content v

def mounted (v : ℕ) : FleetVolume := ⟨v, false, true, true, true⟩

theorem alike_oneSegment (content : ℕ → Bytes) (a b : ℕ) :
    alike (oneSegment content) a b ↔ AgreeOnProbe (content a) (content b) := by
  have hshared : lowestShared (oneSegment content a) (oneSegment content b) = some 0 := by
    rw [lowestShared_eq_some_iff]
    simp [oneSegment]
  simp only [alike, sameLineage_iff, hshared]
  simp [oneSegment]

/-- Two records on volume 1, of which volume 2 has half, and another history on volume 3. -/
def shortHistories : ℕ → Bytes
  | 1 => [65, 10, 66, 10]
  | 2 => [65, 10]
  | _ => [66, 10]

theorem coldSeed_sound_short :
    Sound (oneSegment shortHistories) [mounted 1, mounted 2, mounted 3] ∧
    Sound (oneSegment shortHistories) [mounted 1, mounted 3] ∧
    found (oneSegment shortHistories) [mounted 1, mounted 3] = [1, 3] ∧
    NoLargestHistory (oneSegment shortHistories) [1, 3] := by
  have hfound : found (oneSegment shortHistories) [mounted 1, mounted 3] = [1, 3] := by
    decide +kernel
  have hthree : found (oneSegment shortHistories) [mounted 1, mounted 2, mounted 3] =
      [1, 2, 3] := by decide +kernel
  refine ⟨coldSeed_sound ?_, coldSeed_sound ?_, hfound, ?_⟩
  · rw [hthree, SeparateHistories]
    decide +kernel
  · rw [hfound, SeparateHistories]
    decide +kernel
  · rw [NoLargestHistory]
    decide +kernel

/-- Histories that part after `n` bytes. -/
def longHistories (n v : ℕ) : Bytes := List.replicate n 0 ++ [.ofNat v]

theorem longHistories_alike :
    AgreeOnProbe (longHistories lineageProbeBytes 1) (longHistories lineageProbeBytes 2) := by
  rw [AgreeOnProbe]
  generalize lineageProbeBytes = n
  simp [longHistories]

theorem longHistories_diverge (n : ℕ) : ¬ longHistories n 1 <+: longHistories n 2 ∧
    ¬ longHistories n 2 <+: longHistories n 1 := by
  simp [longHistories, List.prefix_append_right_inj]

theorem longHistories_found (n : ℕ) :
    found (oneSegment (longHistories n)) [mounted 1, mounted 2] = [1, 2] := by
  simp [found, isFound, isUnreadable, carriesHistory, mounted, oneSegment, longHistories]

/-- A history that has been cut off before two others part. -/
def bridgedHistories : ℕ → Bytes
  | 1 => [65, 10, 66, 10]
  | 2 => [65, 10]
  | _ => [65, 10, 67, 10]

theorem coldSeed_pair {disks : ℕ → Directory} {fleet : List FleetVolume} {a b : ℕ}
    (hfound : found disks fleet = [a, b]) (halike : alike disks a b) :
    (coldSeed disks fleet).sources = [a, b] := by
  simp [coldSeed, hfound, majorityLineage, classify, place, halike]

theorem bridged_listed : (coldSeed (oneSegment bridgedHistories)
    [mounted 1, mounted 2, mounted 3]).sources = [1, 2] := by
  have hfound : found (oneSegment bridgedHistories) [mounted 1, mounted 2, mounted 3] =
      [1, 2, 3] := by decide +kernel
  have hclasses : classify (alike (oneSegment bridgedHistories)) [1, 2, 3] = [[1, 2], [3]] := by
    decide +kernel
  have hsorted : [[1, 2], [3]].mergeSort (fun c d => decide (d.length ≤ c.length)) =
      [[1, 2], [3]] := List.mergeSort_of_pairwise (by decide)
  simp [coldSeed, hfound, majorityLineage, hclasses, hsorted]

/-- The sources may carry two histories, and may depend on the order of the fleet. -/
theorem coldSeed_unsound :
    ((coldSeed (oneSegment (longHistories lineageProbeBytes)) [mounted 1, mounted 2]).sources =
        [1, 2] ∧
      ¬ longHistories lineageProbeBytes 1 <+: longHistories lineageProbeBytes 2 ∧
      ¬ longHistories lineageProbeBytes 2 <+: longHistories lineageProbeBytes 1) ∧
    (coldSeed (oneSegment bridgedHistories) [mounted 2, mounted 1, mounted 3]).sources =
      [2, 1, 3] ∧
    (coldSeed (oneSegment bridgedHistories) [mounted 1, mounted 2, mounted 3]).sources =
      [1, 2] := by
  have halike := (alike_oneSegment _ _ _).mpr longHistories_alike
  exact ⟨⟨coldSeed_pair (longHistories_found _) halike, longHistories_diverge _⟩,
    by decide +kernel, bridged_listed⟩

end JournalColdStart
