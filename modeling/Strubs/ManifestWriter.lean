import Strubs.BootstrapManifest
import Strubs.StateMachine

/-! # Writing the manifests

One write pass follows another, and requests that arrive during a pass are answered by one more.
A pass carries what the writer knew when it was built and looks at each volume before it writes
there. Any read or write may fail, the writer may learn or forget something in between, and the
process may die at any point. -/
namespace ManifestWriter

open StateMachine BootstrapManifest
open NamespaceRecord (Text)

/-- What a pass writes, and the number of the announcement that its journal list is of. A list
that was read from a manifest is of none. -/
structure Body where
  manifest : Manifest
  announcement : Option ℕ
  deriving DecidableEq

inductive Pass where
  | building
  | reading (body : Body) (targets : List ℕ)
  | writing (body : Body) (target : ℕ) (existing : Option Manifest) (laid : Manifest)
      (targets : List ℕ)
  deriving DecidableEq

/-- The manifests read so far, for the newest snapshot and then for the newest manifest. -/
structure Hydration where
  first : List ReadResult
  second : Option (List ReadResult)
  deriving DecidableEq

/-- `announced` are the lists that the running journal has announced, and `reached` the numbers
of those that have been written to a volume. -/
structure State where
  memory : Memory
  pass : Option Pass
  queued : Bool
  hydration : Option Hydration
  disks : ℕ → Contents
  announced : List (List ℕ)
  reached : List ℕ

inductive Event where
  | announce (ids : List ℕ)
  | setSnapshots (snapshot previousSnapshot : Option ManifestSnapshotRef)
  | write
  | build (now : ℤ) (configs : List PersistedVolumeConfig) (targets : List ℕ)
  | buildFailed
  | read (fails : Bool)
  | land
  | writeFailed
  | finish
  | hydrate
  | hydrateRead (volume : ℕ) (fails : Bool)
  | hydrateAgain
  | hydrated
  | restart
  deriving DecidableEq

def enabled (s : State) : Event → Bool
  | .announce _ | .setSnapshots _ _ | .write | .restart => true
  | .build _ _ targets => s.pass = some .building ∧ targets.Nodup
  | .buildFailed => s.pass = some .building
  | .read _ => match s.pass with
    | some (.reading _ (_ :: _)) => true
    | _ => false
  | .land | .writeFailed => match s.pass with
    | some (.writing _ _ _ _ _) => true
    | _ => false
  | .finish => match s.pass with
    | some (.reading _ []) => true
    | _ => false
  | .hydrate => s.hydration.isNone
  | .hydrateRead _ _ => s.hydration.isSome
  | .hydrateAgain => s.hydration.any (·.second.isNone)
  | .hydrated => s.hydration.any (·.second.isSome)

/-- The process dies, and only the disks remember. -/
def restart (s : State) : State :=
  { s with memory := .initial, pass := none, queued := false, hydration := none }

def announce (ids : List ℕ) (s : State) : State :=
  { s with
    memory := setJournalVolumeIds ids s.memory
    announced := if ids = [] then s.announced else s.announced ++ [ids] }

def request (s : State) : State :=
  match s.pass with
  | none => { s with pass := some .building }
  | some _ => { s with queued := true }

/-- A request that came during the pass starts another one. -/
def passDone (s : State) : State :=
  if s.queued then { s with pass := some .building, queued := false } else { s with pass := none }

variable (dates : Dates) (config : Config)

def startPass (now : ℤ) (configs : List PersistedVolumeConfig) (targets : List ℕ) (s : State) :
    State :=
  match build dates config s.memory now configs with
  | none => passDone s
  | some manifest =>
    let announcement :=
      if s.memory.journalVolumeIdsAreLive then some (s.announced.length - 1) else none
    { s with pass := some (.reading ⟨manifest, announcement⟩ targets) }

/-- A volume whose manifest cannot be read is skipped. -/
def readTarget (fails : Bool) (s : State) : State :=
  match s.pass with
  | some (.reading body (target :: targets)) =>
    match readExistingManifest (readFile fails (s.disks target)) with
    | none => { s with pass := some (.reading body targets) }
    | some existing =>
      { s with pass := some (.writing body target existing
          (out dates s.memory body.manifest existing) targets) }
  | _ => s

/-- The rename replaces the whole file at once. -/
def land (s : State) : State :=
  match s.pass with
  | some (.writing body target _ laid targets) =>
    { s with
      pass := some (.reading body targets)
      disks := Function.update s.disks target (.manifest laid)
      reached := s.reached ++ body.announcement.toList }
  | _ => s

def writeFailed (s : State) : State :=
  match s.pass with
  | some (.writing body _ _ _ targets) => { s with pass := some (.reading body targets) }
  | _ => s

def hydrateRead (volume : ℕ) (fails : Bool) (s : State) : State :=
  match s.hydration with
  | none => s
  | some h =>
    let read := readFile fails (s.disks volume)
    { s with hydration := some (match h.second with
      | none => { h with first := h.first ++ [read] }
      | some second => { h with second := some (second ++ [read]) }) }

def hydrated (s : State) : State :=
  match s.hydration with
  | some ⟨first, some second⟩ =>
    { s with
      memory := hydrateFromDisk dates config.identity first second s.memory
      hydration := none }
  | _ => s

def next (s : State) : Event → State
  | .announce ids => announce ids s
  | .setSnapshots snapshot previousSnapshot =>
    { s with memory := setSnapshots snapshot previousSnapshot s.memory }
  | .write => request s
  | .build now configs targets => startPass dates config now configs targets s
  | .buildFailed => passDone s
  | .read fails => readTarget dates fails s
  | .land => land s
  | .writeFailed => writeFailed s
  | .finish => passDone s
  | .hydrate => { s with hydration := some ⟨[], none⟩ }
  | .hydrateRead volume fails => hydrateRead volume fails s
  | .hydrateAgain => { s with hydration := s.hydration.map ({ · with second := some [] }) }
  | .hydrated => hydrated dates config s
  | .restart => restart s

def initial (disks : ℕ → Contents) : State where
  memory := .initial
  pass := none
  queued := false
  hydration := none
  disks := disks
  announced := []
  reached := []

def machine : Machine State Event where
  Initial s := ∃ disks, s = initial disks
  Enabled s e := enabled s e
  next := next dates config

/-! ## What a pass does to the volumes -/

section Pointer

variable {dates : Dates} {config : Config} {s s' : State}

/-- The volumes that a pass has still to write. -/
def Pass.ahead : Pass → List ℕ
  | .building => []
  | .reading _ targets => targets
  | .writing _ target _ _ targets => target :: targets

/-- A pass writes where it has just looked, and it looks at every volume once. -/
structure Invariant (dates : Dates) (s : State) : Prop where
  looked : ∀ body v existing laid targets, s.pass = some (.writing body v existing laid targets) →
    readExistingManifest (readFile false (s.disks v)) = some existing ∧
      ∃ m, laid = out dates m body.manifest existing
  once : ∀ p, s.pass = some p → p.ahead.Nodup

theorem readExistingManifest_of_some {fails : Bool} {c : Contents} {existing : Option Manifest}
    (h : readExistingManifest (readFile fails c) = some existing) :
    readExistingManifest (readFile false c) = some existing := by
  cases fails with
  | true => cases h
  | false => exact h

/-- Only a landing changes a volume. -/
theorem next_disks (s : State) (e : Event) :
    (next dates config s e).disks = s.disks ∨
      ∃ body v existing laid targets, e = .land ∧
        s.pass = some (.writing body v existing laid targets) ∧
        (next dates config s e).disks = Function.update s.disks v (.manifest laid) := by
  cases e with
  | land =>
    rcases hp : s.pass with _ | _ | _ | ⟨body, v, existing, laid, targets⟩
    all_goals simp [next, land, hp]
  | write => left; simp only [next, request]; split <;> rfl
  | build now configs targets =>
    left
    simp only [next, startPass, passDone]
    split
    · split <;> rfl
    · rfl
  | buildFailed => left; simp only [next, passDone]; split <;> rfl
  | finish => left; simp only [next, passDone]; split <;> rfl
  | read fails =>
    left
    simp only [next, readTarget]
    split
    · split <;> rfl
    · rfl
  | writeFailed => left; simp only [next, writeFailed]; split <;> rfl
  | hydrateRead v fails => left; simp only [next, hydrateRead]; split <;> rfl
  | hydrated => left; simp only [next, hydrated]; split <;> rfl
  | _ => exact .inl rfl

theorem Invariant.congr (h : Invariant dates s) (hpass : s'.pass = s.pass)
    (hdisks : s'.disks = s.disks) : Invariant dates s' := by
  constructor
  · intro body v existing laid targets hp
    rw [hdisks]
    exact h.looked body v existing laid targets (hpass ▸ hp)
  · exact fun p hp => h.once p (hpass ▸ hp)

theorem Invariant.of_reading {body : Body} {targets : List ℕ}
    (hp : s.pass = some (.reading body targets)) (honce : targets.Nodup) : Invariant dates s := by
  constructor
  · intro _ _ _ _ _ hw
    rw [hp] at hw
    cases hw
  · intro p hs
    obtain rfl := Option.some.inj (hp.symm.trans hs)
    exact honce

theorem invariant_passDone (s : State) : Invariant dates (passDone s) := by
  unfold passDone
  by_cases hq : s.queued
  · rw [if_pos hq]
    exact ⟨by simp, by simp [Pass.ahead]⟩
  · rw [if_neg hq]
    exact ⟨by simp, by simp⟩

theorem invariant_next (h : Invariant dates s) {e : Event} (he : enabled s e) :
    Invariant dates (next dates config s e) := by
  cases e with
  | write =>
    simp only [next, request]
    cases hp : s.pass with
    | none => exact ⟨by simp, by simp [Pass.ahead]⟩
    | some p => exact h.congr hp.symm rfl
  | build now configs targets =>
    simp only [enabled, decide_eq_true_eq] at he
    simp only [next, startPass]
    cases build dates config s.memory now configs with
    | none => exact invariant_passDone s
    | some manifest => exact .of_reading rfl he.2
  | buildFailed => exact invariant_passDone s
  | finish => exact invariant_passDone s
  | read fails =>
    simp only [next, readTarget]
    split
    · next body v targets hp =>
      have honce := List.nodup_cons.mp (h.once _ hp)
      cases hread : readExistingManifest (readFile fails (s.disks v)) with
      | none => exact .of_reading rfl honce.2
      | some existing =>
        refine ⟨?_, ?_⟩
        · rintro _ _ _ _ _ ⟨⟩
          exact ⟨readExistingManifest_of_some hread, _, rfl⟩
        · rintro _ ⟨⟩
          exact h.once (.reading body (v :: targets)) hp
    · exact h
  | land =>
    simp only [next, land]
    split
    · next hp => exact .of_reading rfl (List.nodup_cons.mp (h.once _ hp)).2
    · exact h
  | writeFailed =>
    simp only [next, writeFailed]
    split
    · next hp => exact .of_reading rfl (List.nodup_cons.mp (h.once _ hp)).2
    · exact h
  | hydrateRead v fails =>
    simp only [next, hydrateRead]
    split
    · exact h
    · exact h.congr rfl rfl
  | hydrated =>
    simp only [next, hydrated]
    split
    · exact h.congr rfl rfl
    · exact h
  | restart => exact ⟨by simp [next, restart], by simp [next, restart]⟩
  | _ => exact h.congr rfl rfl

theorem reachable_invariant (h : Reachable (machine dates config) s) : Invariant dates s := by
  apply h.invariant (P := Invariant dates)
  · rintro _ ⟨disks, rfl⟩
    exact ⟨by simp [initial], by simp [initial]⟩
  · exact fun _ _ hs he => invariant_next hs he

variable (dates) in
/-- The volume points at a snapshot that was completed at some time or later. -/
def Points (t : ℤ) (c : Contents) : Prop :=
  ∃ m, c = .manifest m ∧ CompletedSince dates t m.snapshot

theorem points_next (h : Invariant dates s) {v : ℕ} {t : ℤ} (hv : Points dates t (s.disks v))
    (e : Event) : Points dates t ((next dates config s e).disks v) := by
  rcases @next_disks dates config s e with
    hsame | ⟨body, w, existing, laid, targets, rfl, hp, hland⟩
  · rwa [hsame]
  · rw [hland]
    by_cases hw : v = w
    · subst hw
      obtain ⟨m, hm, hsnapshot⟩ := hv
      obtain ⟨hread, memory, hlaid⟩ := h.looked body v existing laid targets hp
      rw [hm] at hread
      obtain rfl := Option.some.inj hread
      rw [Function.update_self]
      exact ⟨laid, rfl, hlaid ▸ out_completedSince hsnapshot⟩
    · rwa [Function.update_of_ne hw]

/-- A file that does not parse is never replaced. -/
theorem mangled_next (h : Invariant dates s) {v : ℕ} (hv : s.disks v = .mangled) (e : Event) :
    (next dates config s e).disks v = .mangled := by
  rcases @next_disks dates config s e with
    hsame | ⟨body, w, existing, laid, targets, rfl, hp, hland⟩
  · rw [hsame, hv]
  · rw [hland]
    by_cases hw : v = w
    · subst hw
      have hread := (h.looked body v existing laid targets hp).1
      rw [hv] at hread
      cases hread
    · rw [Function.update_of_ne hw, hv]

/-- Once a volume points at a snapshot, whatever is written there points at one that is no
older. A manifest that does not parse stays, a pass that cannot read a volume's manifest does
not come back to that volume, and nothing else is written than what a pass lays over the
manifest that it has read and that is still there. -/
theorem pointer_never_regresses (hs : Reachable (machine dates config) s)
    (hrun : Steps (machine dates config) s s') (v : ℕ) :
    (∀ t, Points dates t (s.disks v) → Points dates t (s'.disks v)) ∧
    (s.disks v = .mangled → s'.disks v = .mangled) ∧
    (∀ fails body targets, s'.pass = some (.reading body (v :: targets)) →
      readExistingManifest (readFile fails (s'.disks v)) = none →
      (next dates config s' (.read fails)).pass = some (.reading body targets) ∧ v ∉ targets) ∧
    (∀ e, enabled s' e → (next dates config s' e).disks v ≠ s'.disks v →
      ∃ body existing laid targets, e = .land ∧
        s'.pass = some (.writing body v existing laid targets) ∧
        readExistingManifest (readFile false (s'.disks v)) = some existing) := by
  have hinv := reachable_invariant (hrun.reachable hs)
  refine ⟨fun t => ?_, ?_, fun fails body targets hp hread => ⟨?_, ?_⟩, fun e _ hchanged => ?_⟩
  · exact Steps.stable (P := fun s => Points dates t (s.disks v))
      (fun _ e hr hv _ => points_next (reachable_invariant hr) hv e) hs hrun
  · exact Steps.stable (P := fun s => s.disks v = .mangled)
      (fun _ e hr hv _ => mangled_next (reachable_invariant hr) hv e) hs hrun
  · simp only [next, readTarget, hp, hread]
  · exact (List.nodup_cons.mp (hinv.once _ hp)).1
  · rcases @next_disks dates config s' e with hsame |
      ⟨body, w, existing, laid, targets, rfl, hp, hland⟩
    · exact absurd (congrFun hsame v) hchanged
    · by_cases hw : v = w
      · subst hw
        exact ⟨body, existing, laid, targets, rfl, hp, (hinv.looked _ _ _ _ _ hp).1⟩
      · rw [hland, Function.update_of_ne hw] at hchanged
        exact absurd rfl hchanged

end Pointer

/-! ### A stale writer -/

def onJuly1 : ℤ := 1782864000000

def onJuly13 : ℤ := 1783900800000

def onJuly14 : ℤ := 1783987200000

def july1 : Text := "2026-07-01T00:00:00.000Z".toList

def july13 : Text := "2026-07-13T00:00:00.000Z".toList

def july14 : Text := "2026-07-14T00:00:00.000Z".toList

def july : List (ℤ × Text) := [(onJuly1, july1), (onJuly13, july13), (onJuly14, july14)]

def parseMarks : Text → Option ℤ
  | '+' :: marks => some marks.length
  | '-' :: marks => some (-marks.length)
  | _ => none

def parseJuly (t : Text) : Option ℤ :=
  match july.find? (·.2 = t) with
  | some day => some day.1
  | none => parseMarks t

def printJuly (t : ℤ) : Text :=
  match july.find? (·.1 = t) with
  | some day => day.2
  | none =>
    if 0 ≤ t then '+' :: List.replicate t.toNat '|' else '-' :: List.replicate (-t).toNat '|'

theorem parseJuly_mark {c : Char} (hc : c ≠ '2') (marks : Text) :
    parseJuly (c :: marks) = parseMarks (c :: marks) := by
  have hnone : july.find? (·.2 = c :: marks) = none := by
    rw [List.find?_eq_none]
    intro day hday hmark
    have hhead : ∀ d ∈ july, d.2.head? = some '2' := by decide
    rw [decide_eq_true_eq] at hmark
    have := hhead day hday
    rw [hmark] at this
    exact hc (Option.some.inj this)
  rw [parseJuly, hnone]

theorem parseJuly_printJuly (t : ℤ) : parseJuly (printJuly t) = some t := by
  have hread : ∀ d ∈ july, parseJuly d.2 = some d.1 := by decide
  unfold printJuly
  cases hfind : july.find? (·.1 = t) with
  | some day =>
    have htime : day.1 = t := by simpa using List.find?_some hfind
    exact (hread day (List.mem_of_find?_eq_some hfind)).trans (congrArg some htime)
  | none =>
    by_cases hpos : 0 ≤ t
    · simp [hpos, parseJuly_mark, parseMarks]
    · simp only [hpos, if_false]
      rw [parseJuly_mark (by decide)]
      simp only [parseMarks, List.length_replicate, Option.some.injEq]
      omega

/-- Three days as they are printed, and other times by a mark for each millisecond. -/
def julyDates : Dates where
  parse := parseJuly
  toISOString := printJuly
  parse_nil := by decide
  parse_toISOString := parseJuly_printJuly

def pointer (completedAt : Text) : ManifestSnapshotRef :=
  ⟨some "60c72b2f9b1d8e001c8e4d5a".toList, completedAt, some 3⟩

def array : Config := ⟨"5f0c1d2e3b4a59687766554433221100".toList, 4, 2⟩

def written (updatedAt : Text) (snapshot : Option ManifestSnapshotRef) (ids : List ℕ) : Manifest :=
  ⟨manifestVersion, array.identity, ⟨4, 2⟩, [], some ids, snapshot, none, updatedAt⟩

/-- A disk that points at a snapshot of 13 July. -/
def rejoined : ℕ → Contents := fun _ => .manifest (written july1 (some (pointer july13)) [1])

/-- A writer that knows of 1 July and writes to the disk. -/
def staleWrite : List Event :=
  [.setSnapshots (some (pointer july1)) none, .write, .build onJuly13 [] [1], .read false,
    .land]

theorem pointer_never_regresses_stale :
    Points julyDates onJuly13
        ((staleWrite.foldl (next julyDates array) (initial rejoined)).disks 1) ∧
      (staleWrite.foldl (next julyDates array) (initial rejoined)).disks 1 =
        .manifest (written july13 (some (pointer july13)) [1]) := by
  have hrun : ∀ n (hn : n < staleWrite.length),
      enabled ((staleWrite.take n).foldl (next julyDates array) (initial rejoined))
        staleWrite[n] := by
    decide +kernel
  have hkept := pointer_never_regresses (.initial ⟨rejoined, rfl⟩)
    (Steps.run (m := machine julyDates array) staleWrite hrun) 1
  exact ⟨hkept.1 _ ⟨_, rfl, pointer july13, _, rfl, by decide, by decide, le_rfl⟩,
    by decide +kernel⟩

end ManifestWriter
