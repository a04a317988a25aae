import Strubs.ManifestWriter
import Strubs.SnapshotCopy

/-! # Taking snapshots

A snapshot is written, stored as an object, read back out of the array and verified, and only then
do the manifests name it. Fleet changes refresh the manifests meanwhile, any step may fail, and the
process may die and come back. What a volume points at is always a snapshot that was found whole. -/
namespace SnapshotJob

open StateMachine BootstrapManifest SnapshotFile SnapshotWriter
open ContentRepository (ObjectIds ContainerRow ObjectRow)
open NamespaceRecord (Text RawRecord)

/-- What the cursors gave, and the file that was made of it. -/
structure Written (α : Type*) where
  containers : List (ContainerRow α)
  objects : List (ObjectRow α)
  file : Text
  stats : SnapshotStats

/-- A snapshot that was stored, with the copy that came back and was verified. -/
structure Proven (α : Type*) where
  written : Written α
  ref : ManifestSnapshotRef
  copy : Text

structure Rollback where
  snapshot : Option ManifestSnapshotRef
  previousSnapshot : Option ManifestSnapshotRef
  deriving DecidableEq

/-- How far `run` has come. Without its staging directory it ends with the flag still raised. -/
inductive Stage (α : Type*) where
  | staging
  | stranded
  | taking
  | storing (written : Written α)
  | readingBack (written : Written α) (id : Text)
  | scanning (ref : ManifestSnapshotRef) (previous : Option ManifestSnapshotRef)
      (reads : List ReadResult)
  | publishing (ref : ManifestSnapshotRef) (rollback : Rollback) (passes : ℕ)
  | counting (ref : ManifestSnapshotRef) (rollback : Rollback) (found : ℕ)

/-- `ids` are the objects that the array has had. `proven` and `returned` remember what has been
verified, and for which snapshots `run` has returned. -/
structure State (α : Type*) where
  manifests : ManifestWriter.State
  ids : List Text
  job : Option (Stage α)
  proven : List (Proven α)
  returned : List ManifestSnapshotRef

inductive Event (α : Type*) where
  | manifest (e : ManifestWriter.Event)
  | run
  | stage (ok : Bool)
  | writeTo (containers : List (ContainerRow α)) (objects : List (ObjectRow α))
  | storeObject (id : Text)
  | readBack (copy : Text) (now : ℤ)
  | scan (volume : ℕ) (fails : Bool)
  | publish
  | written
  | count (volume : ℕ) (fails : Bool)
  | settle
  | fail

variable {α : Type*}

def enabled (s : State α) : Event α → Bool
  | .manifest (.setSnapshots _ _) => false
  | .manifest e => ManifestWriter.enabled s.manifests e
  | .run => s.job.isNone
  | .stage _ => match s.job with
    | some .staging => true
    | _ => false
  | .writeTo _ _ => match s.job with
    | some .taking => true
    | _ => false
  | .storeObject id => match s.job with
    | some (.storing _) => isObjectId id && id ∉ s.ids
    | _ => false
  | .readBack _ _ => match s.job with
    | some (.readingBack _ _) => true
    | _ => false
  | .scan _ _ | .publish => match s.job with
    | some (.scanning _ _ _) => true
    | _ => false
  | .written => match s.job with
    | some (.publishing _ _ 0) => true
    | _ => false
  | .count _ _ | .settle => match s.job with
    | some (.counting _ _ _) => true
    | _ => false
  | .fail => match s.job with
    | none | some .stranded => false
    | _ => true

/-- Whatever `run` throws, it is not running any more. -/
def fail (s : State α) : State α := { s with job := none }

variable (dates : Dates) (config : Config)

/-! ## The steps of the job -/

section Steps

variable (ids : ObjectIds α) (parse : Text → Parsed) (sha256 : Text → Text)
  (stringify : RawRecord → Text)

/-- A snapshot of nothing is not published. -/
def take [DecidableEq α] (containers : List (ContainerRow α)) (objects : List (ObjectRow α))
    (s : State α) : State α :=
  match s.job with
  | some .taking =>
    match writeTo ids sha256 stringify containers objects with
    | .error _ => fail s
    | .ok (file, stats) =>
      if stats.objects = 0 ∧ stats.containers = 0 then fail s
      else { s with job := some (.storing ⟨containers, objects, file, stats⟩) }
  | _ => s

def storeObject (id : Text) (s : State α) : State α :=
  match s.job with
  | some (.storing written) =>
    { s with ids := s.ids ++ [id], job := some (.readingBack written id) }
  | _ => s

/-- What came off the platters is verified, and not what was written to them. -/
def readBack (copy : Text) (now : ℤ) (s : State α) : State α :=
  match s.job with
  | some (.readingBack written id) =>
    match verify parse sha256 (readLines copy) written.stats with
    | .error _ => fail s
    | .ok () =>
      let ref : ManifestSnapshotRef :=
        ⟨some id, dates.toISOString now, some written.stats.objects⟩
      { s with
        job := some (.scanning ref s.manifests.memory.snapshot [])
        proven := s.proven ++ [⟨written, ref, copy⟩] }
  | _ => s

def scan (volume : ℕ) (fails : Bool) (s : State α) : State α :=
  match s.job with
  | some (.scanning ref previous reads) =>
    { s with job := some (.scanning ref previous
        (reads ++ [readFile fails (s.manifests.disks volume)])) }
  | _ => s

/-- A date that cannot be read is not a later one. -/
def supersedes (onDisk ref : ManifestSnapshotRef) : Bool :=
  match dates.parse onDisk.completedAt, dates.parse ref.completedAt with
  | some theirs, some ours => ours < theirs
  | _, _ => false

/-- A call of `write` during a pass waits for that pass and for the next one. -/
def publish (s : State α) : State α :=
  match s.job with
  | some (.scanning ref previous reads) =>
    match newestManifestOnDisk dates config.identity true reads with
    | none => fail s
    | some onDisk =>
      if (onDisk.newest.bind (·.1.snapshot)).any (supersedes dates · ref) then fail s
      else
        { s with
          manifests := ManifestWriter.next dates config (ManifestWriter.next dates config
            s.manifests (.setSnapshots (some ref) previous)) .write
          job := some (.publishing ref
            ⟨s.manifests.memory.snapshot, s.manifests.memory.previousSnapshot⟩
            (if s.manifests.pass.isNone then 1 else 2)) }
  | _ => s

def names (ref : ManifestSnapshotRef) : ReadResult → Bool
  | .manifest m => m.snapshot.any (·.objectId = ref.objectId)
  | _ => false

def count (volume : ℕ) (fails : Bool) (s : State α) : State α :=
  match s.job with
  | some (.counting ref rollback found) =>
    { s with job := some (.counting ref rollback
        (if names ref (readFile fails (s.manifests.disks volume)) then found + 1 else found)) }
  | _ => s

/-- A pointer that no disk carries is taken back. -/
def settle (s : State α) : State α :=
  match s.job with
  | some (.counting ref rollback found) =>
    if found = 0 then
      { s with
        manifests := ManifestWriter.next dates config s.manifests
          (.setSnapshots rollback.snapshot rollback.previousSnapshot)
        job := none }
    else { s with job := none, returned := s.returned ++ [ref] }
  | _ => s

def endsPass : ManifestWriter.Event → Bool
  | .finish | .buildFailed => true
  | .build _ _ _ => config.identity = []
  | _ => false

def Stage.passEnded : Stage α → Stage α
  | .publishing ref rollback (passes + 1) => .publishing ref rollback passes
  | stage => stage

/-- The rest of the process refreshes the manifests, or dies. -/
def refresh (e : ManifestWriter.Event) (s : State α) : State α :=
  { s with
    manifests := ManifestWriter.next dates config s.manifests e
    job :=
      if e = .restart then none
      else if endsPass config e then s.job.map Stage.passEnded else s.job }

def next [DecidableEq α] (s : State α) : Event α → State α
  | .manifest e => refresh dates config e s
  | .run => { s with job := some .staging }
  | .stage ok => { s with job := some (if ok then .taking else .stranded) }
  | .writeTo containers objects => take ids sha256 stringify containers objects s
  | .storeObject id => storeObject id s
  | .readBack copy now => readBack dates parse sha256 copy now s
  | .scan volume fails => scan volume fails s
  | .publish => publish dates config s
  | .written => match s.job with
    | some (.publishing ref rollback _) => { s with job := some (.counting ref rollback 0) }
    | _ => s
  | .count volume fails => count volume fails s
  | .settle => settle dates config s
  | .fail => fail s

def pointers (m : Manifest) : List ManifestSnapshotRef :=
  m.snapshot.toList ++ m.previousSnapshot.toList

/-- The pointers that a volume carries. -/
def carried : Contents → List ManifestSnapshotRef
  | .manifest m => pointers m
  | _ => []

/-- Any disks, whose snapshots are objects of this array. -/
structure Initial (s : State α) : Prop where
  manifests : ∃ disks, s.manifests = ManifestWriter.initial disks
  ids : ∀ v, ∀ r ∈ carried (s.manifests.disks v), ∀ id ∈ r.objectId, id ∈ s.ids
  job : s.job = none
  proven : s.proven = []
  returned : s.returned = []

def machine [DecidableEq α] : Machine (State α) (Event α) where
  Initial := Initial
  Enabled s e := enabled s e
  next := next dates config ids parse sha256 stringify

end Steps

/-! ## Where a pointer comes from -/

section Pointers

variable {dates : Dates} {config : Config} {P Q : ManifestSnapshotRef → Prop}

def Says (P : ManifestSnapshotRef → Prop) (m : Manifest) : Prop := ∀ r ∈ pointers m, P r

/-- Everything the writer knows, is about to write or has read is of one kind. -/
structure Carries (P : ManifestSnapshotRef → Prop) (s : ManifestWriter.State) : Prop where
  snapshot : ∀ r ∈ s.memory.snapshot, P r
  previous : ∀ r ∈ s.memory.previousSnapshot, P r
  reading : ∀ body targets, s.pass = some (.reading body targets) → Says P body.manifest
  writing : ∀ body v existing laid targets, s.pass = some (.writing body v existing laid targets) →
    Says P body.manifest ∧ Says P laid
  disks : ∀ v, ∀ r ∈ carried (s.disks v), P r
  hydration : ∀ h, s.hydration = some h → ∀ m, .manifest m ∈ h.first → Says P m

theorem says_iff {m : Manifest} :
    Says P m ↔ (∀ r ∈ m.snapshot, P r) ∧ ∀ r ∈ m.previousSnapshot, P r := by
  simp [Says, pointers, or_imp, forall_and]

theorem Carries.mono (h : ∀ r, P r → Q r) {s : ManifestWriter.State} (hs : Carries P s) :
    Carries Q s where
  snapshot r hr := h r (hs.snapshot r hr)
  previous r hr := h r (hs.previous r hr)
  reading body targets hp r hr := h r (hs.reading body targets hp r hr)
  writing body v existing laid targets hp :=
    ⟨fun r hr => h r ((hs.writing body v existing laid targets hp).1 r hr),
      fun r hr => h r ((hs.writing body v existing laid targets hp).2 r hr)⟩
  disks v r hr := h r (hs.disks v r hr)
  hydration hyd hh m hm r hr := h r (hs.hydration hyd hh m hm r hr)

theorem says_build {s : ManifestWriter.State} (h : Carries P s) {now : ℤ}
    {configs : List PersistedVolumeConfig} {m : Manifest}
    (hbuild : build dates config s.memory now configs = some m) : Says P m := by
  unfold build at hbuild
  split at hbuild
  · cases hbuild
  · obtain rfl := Option.some.inj hbuild
    exact says_iff.mpr ⟨h.snapshot, h.previous⟩

/-- What is laid over a manifest has its pointers from there or from the pass. -/
theorem says_out {memory : Memory} {m : Manifest} {existing : Option Manifest} (h : Says P m)
    (hexisting : ∀ e ∈ existing, Says P e) : Says P (out dates memory m existing) := by
  obtain ⟨hsnapshot, hprevious⟩ := says_iff.mp h
  rw [says_iff, out]
  by_cases hkeep : keepSnapshot dates m existing
  · cases existing with
    | none => simp [keepSnapshot] at hkeep
    | some e =>
      obtain ⟨htheirs, htheirsPrevious⟩ := says_iff.mp (hexisting e rfl)
      simp only [hkeep, if_true, Option.bind_some]
      refine ⟨htheirs, fun r hr => ?_⟩
      cases hp : e.previousSnapshot with
      | none => exact hprevious r (by simpa [hp] using hr)
      | some theirs =>
        obtain rfl : theirs = r := by simpa [hp] using hr
        exact htheirsPrevious theirs hp
  · simp only [hkeep, if_false, Bool.false_eq_true]
    exact ⟨hsnapshot, hprevious⟩

/-- A scan that throws nothing has met no `null`. -/
theorem null_notMem {identity : Text} {withSnapshot : Bool} {reads : List ReadResult} {scan : Scan}
    (h : newestManifestOnDisk dates identity withSnapshot reads = some scan) : .null ∉ reads := by
  induction reads using List.reverseRecOn generalizing scan with
  | nil => simp
  | append_singleton reads read ih =>
    unfold newestManifestOnDisk at h
    rw [List.foldlM_append] at h
    obtain ⟨before, hbefore, hlast⟩ := Option.bind_eq_some_iff.mp h
    rw [List.mem_append, not_or]
    refine ⟨ih hbefore, fun hnull => ?_⟩
    obtain rfl := List.mem_singleton.mp hnull
    simp [scanManifest] at hlast

/-- The newest manifest is one that was read. -/
theorem newest_mem {identity : Text} {withSnapshot : Bool} {reads : List ReadResult} {scan : Scan}
    (h : newestManifestOnDisk dates identity withSnapshot reads = some scan) {m : Manifest}
    {rank : ℤ} (hnewest : scan.newest = some (m, rank)) : .manifest m ∈ reads := by
  rw [newestManifestOnDisk_eq (null_notMem h)] at h
  obtain rfl := Option.some.inj h
  exact (mem_ballots.mp (newestBy_mem _ hnewest)).1

theorem hydrateFromDisk_snapshots {identity : Text} {first second : List ReadResult}
    {memory : Memory} (hsnapshot : ∀ r ∈ memory.snapshot, P r)
    (hprevious : ∀ r ∈ memory.previousSnapshot, P r)
    (hreads : ∀ m, .manifest m ∈ first → Says P m) :
    (∀ r ∈ (hydrateFromDisk dates identity first second memory).snapshot, P r) ∧
      ∀ r ∈ (hydrateFromDisk dates identity first second memory).previousSnapshot, P r := by
  unfold hydrateFromDisk
  cases hscan : newestManifestOnDisk dates identity true first with
  | none => exact ⟨hsnapshot, hprevious⟩
  | some scan =>
    cases hnewest : scan.newest with
    | none =>
      simp only [hnewest]
      split <;> exact ⟨hsnapshot, hprevious⟩
    | some newest =>
      obtain ⟨htheirs, htheirsPrevious⟩ :=
        says_iff.mp (hreads newest.1 (newest_mem hscan hnewest))
      simp only [hnewest]
      cases newestManifestOnDisk dates identity false second with
      | none => exact ⟨hsnapshot, hprevious⟩
      | some byUpdatedAt =>
        refine ⟨htheirs, fun r hr => ?_⟩
        dsimp only at hr
        split at hr
        · exact htheirsPrevious r hr
        · simp at hr

theorem Carries.passDone {s : ManifestWriter.State} (h : Carries P s) :
    Carries P (ManifestWriter.passDone s) := by
  unfold ManifestWriter.passDone
  split
  · exact { h with reading := by simp, writing := by simp }
  · exact { h with reading := by simp, writing := by simp }

theorem carried_readExisting {fails : Bool} {c : Contents} {existing : Option Manifest}
    (h : readExistingManifest (readFile fails c) = some existing) {e : Manifest}
    (he : e ∈ existing) : c = .manifest e := by
  cases fails with
  | true => cases h
  | false =>
    cases c with
    | manifest m =>
      obtain rfl := Option.some.inj h
      rw [Option.some.inj he]
    | mangled => cases h
    | absent | null =>
      obtain rfl := Option.some.inj h
      simp at he

/-- No event but `setSnapshots` brings in a pointer that was not there. -/
theorem Carries.next {s : ManifestWriter.State} (h : Carries P s) {e : ManifestWriter.Event}
    (he : ∀ snapshot previous, e = .setSnapshots snapshot previous →
      (∀ r ∈ snapshot, P r) ∧ ∀ r ∈ previous, P r) :
    Carries P (ManifestWriter.next dates config s e) := by
  cases e with
  | announce ids =>
    refine { h with snapshot := ?_, previous := ?_ }
    · simp only [ManifestWriter.next, ManifestWriter.announce, setJournalVolumeIds]
      split <;> exact h.snapshot
    · simp only [ManifestWriter.next, ManifestWriter.announce, setJournalVolumeIds]
      split <;> exact h.previous
  | setSnapshots snapshot previous =>
    obtain ⟨hsnapshot, hprevious⟩ := he snapshot previous rfl
    exact { h with snapshot := hsnapshot, previous := hprevious }
  | write =>
    simp only [ManifestWriter.next, ManifestWriter.request]
    cases hp : s.pass with
    | none => exact { h with reading := by simp, writing := by simp }
    | some p =>
      refine { h with reading := ?_, writing := ?_ }
      · exact fun body targets hs => h.reading body targets (hp.trans hs)
      · exact fun body v existing laid targets hs =>
          h.writing body v existing laid targets (hp.trans hs)
  | build now configs targets =>
    simp only [ManifestWriter.next, ManifestWriter.startPass]
    cases hbuild : build dates config s.memory now configs with
    | none => exact h.passDone
    | some m =>
      refine { h with reading := ?_, writing := by simp }
      rintro _ _ ⟨⟩
      exact says_build h hbuild
  | buildFailed => exact h.passDone
  | finish => exact h.passDone
  | read fails =>
    simp only [ManifestWriter.next, ManifestWriter.readTarget]
    split
    · next body target targets hp =>
      have hbody := h.reading body _ hp
      cases hread : readExistingManifest (readFile fails (s.disks target)) with
      | none =>
        refine { h with reading := ?_, writing := by simp }
        rintro _ _ ⟨⟩
        exact hbody
      | some existing =>
        refine { h with reading := by simp, writing := ?_ }
        rintro _ _ _ _ _ ⟨⟩
        refine ⟨hbody, says_out hbody fun e he r hr => h.disks target r ?_⟩
        rw [carried_readExisting hread he]
        exact hr
    · exact h
  | land =>
    simp only [ManifestWriter.next, ManifestWriter.land]
    split
    · next body target existing laid targets hp =>
      obtain ⟨hbody, hlaid⟩ := h.writing body target existing laid targets hp
      refine { h with reading := ?_, writing := by simp, disks := fun v => ?_ }
      · rintro _ _ ⟨⟩
        exact hbody
      · by_cases hv : v = target
        · subst hv
          simp only [Function.update_self]
          exact hlaid
        · simpa [Function.update_of_ne hv] using h.disks v
    · exact h
  | writeFailed =>
    simp only [ManifestWriter.next, ManifestWriter.writeFailed]
    split
    · next body target existing laid targets hp =>
      refine { h with reading := ?_, writing := by simp }
      rintro _ _ ⟨⟩
      exact (h.writing body target existing laid targets hp).1
    · exact h
  | hydrate =>
    refine { h with hydration := ?_ }
    rintro _ ⟨⟩
    simp
  | hydrateRead volume fails =>
    simp only [ManifestWriter.next, ManifestWriter.hydrateRead]
    cases hh : s.hydration with
    | none => exact h
    | some hydration =>
      refine { h with hydration := ?_ }
      rintro _ ⟨⟩ m hm
      cases hsecond : hydration.second with
      | some second =>
        rw [hsecond] at hm
        exact h.hydration hydration hh m hm
      | none =>
        rw [hsecond] at hm
        rcases List.mem_append.mp hm with hm | hm
        · exact h.hydration hydration hh m hm
        · have hread : readExistingManifest (readFile fails (s.disks volume)) = some (some m) := by
            rw [← List.mem_singleton.mp hm]
            rfl
          intro r hr
          refine h.disks volume r ?_
          rw [carried_readExisting hread rfl]
          exact hr
  | hydrateAgain =>
    refine { h with hydration := ?_ }
    intro hyd hh m hm
    obtain ⟨before, hbefore, rfl⟩ := Option.map_eq_some_iff.mp hh
    exact h.hydration before hbefore m hm
  | hydrated =>
    simp only [ManifestWriter.next, ManifestWriter.hydrated]
    split
    · next first second hh =>
      obtain ⟨hsnapshot, hprevious⟩ :=
        @hydrateFromDisk_snapshots dates P config.identity first second s.memory h.snapshot
          h.previous (h.hydration _ hh)
      exact { h with snapshot := hsnapshot, previous := hprevious, hydration := by simp }
    · exact h
  | restart =>
    exact { h with
      snapshot := by simp [ManifestWriter.next, ManifestWriter.restart, Memory.initial]
      previous := by simp [ManifestWriter.next, ManifestWriter.restart, Memory.initial]
      reading := by simp [ManifestWriter.next, ManifestWriter.restart]
      writing := by simp [ManifestWriter.next, ManifestWriter.restart]
      hydration := by simp [ManifestWriter.next, ManifestWriter.restart] }

end Pointers

/-! ## What the job knows -/

section Run

variable {dates : Dates} {config : Config} {s₀ s : State α}

/-- Pointers that were on the disks before, and pointers to what was proven since. -/
def Known (s₀ : State α) (proven : List (Proven α)) (r : ManifestSnapshotRef) : Prop :=
  (∃ v, r ∈ carried (s₀.manifests.disks v)) ∨ ∃ p ∈ proven, p.ref = r

theorem Known.mono {proven more : List (Proven α)} {r : ManifestSnapshotRef}
    (h : Known s₀ proven r) : Known s₀ (proven ++ more) r :=
  h.imp_right fun ⟨p, hp, hr⟩ => ⟨p, List.mem_append_left _ hp, hr⟩

variable (dates) in
/-- Some volume points at a snapshot that is no older. -/
def PointedAt (s : State α) (ref : ManifestSnapshotRef) : Prop :=
  ∃ v t, dates.parse ref.completedAt = some t ∧
    ManifestWriter.Points dates t (s.manifests.disks v)

theorem PointedAt.next (h : ManifestWriter.Invariant dates s.manifests) {ref : ManifestSnapshotRef}
    (href : PointedAt dates s ref) (e : ManifestWriter.Event) {s' : State α}
    (hs' : s'.manifests = ManifestWriter.next dates config s.manifests e) :
    PointedAt dates s' ref := by
  obtain ⟨v, t, ht, hv⟩ := href
  exact ⟨v, t, ht, hs' ▸ ManifestWriter.points_next h hv e⟩

variable [DecidableEq α] {ids : ObjectIds α} {parse : Text → Parsed} {sha256 : Text → Text}
  {stringify : RawRecord → Text}

variable (ids sha256 stringify) in
/-- A file with something in it, as it was made of what the cursors gave. -/
structure Made (w : Written α) : Prop where
  written : writeTo ids sha256 stringify w.containers w.objects = .ok (w.file, w.stats)
  nonempty : w.containers ≠ [] ∨ w.objects ≠ []

variable (dates ids parse sha256 stringify) in
/-- A pointer to a snapshot whose copy, as it came off the platters, was found whole. -/
structure Sound (p : Proven α) : Prop extends Made ids sha256 stringify p.written where
  verified : verify parse sha256 (readLines p.copy) p.written.stats = .ok ()
  usable : isUsableSnapshotRef dates (some p.ref)
  objects : p.ref.objects = some p.written.objects.length

variable (dates ids sha256 stringify) in
def StageSays (s₀ s : State α) : Stage α → Prop
  | .staging | .stranded | .taking => True
  | .storing written => Made ids sha256 stringify written
  | .readingBack written id => Made ids sha256 stringify written ∧ isObjectId id ∧ id ∈ s.ids ∧
      ∀ r, Known s₀ s.proven r → r.objectId ≠ some id
  | .scanning ref previous _ =>
      (∃ p ∈ s.proven, p.ref = ref) ∧ ∀ r ∈ previous, Known s₀ s.proven r
  | .publishing ref rollback _ => (∃ p ∈ s.proven, p.ref = ref) ∧
      (∀ r ∈ rollback.snapshot, Known s₀ s.proven r) ∧
        ∀ r ∈ rollback.previousSnapshot, Known s₀ s.proven r
  | .counting ref rollback found => (∃ p ∈ s.proven, p.ref = ref) ∧
      (∀ r ∈ rollback.snapshot, Known s₀ s.proven r) ∧
        (∀ r ∈ rollback.previousSnapshot, Known s₀ s.proven r) ∧ (0 < found → PointedAt dates s ref)

variable (dates ids parse sha256 stringify) in
structure Invariant (s₀ s : State α) : Prop where
  writer : ManifestWriter.Invariant dates s.manifests
  carries : Carries (Known s₀ s.proven) s.manifests
  proven : ∀ p ∈ s.proven, Sound dates ids parse sha256 stringify p
  named : ∀ r, Known s₀ s.proven r → ∀ id ∈ r.objectId, id ∈ s.ids
  unique : ∀ r, Known s₀ s.proven r → ∀ p ∈ s.proven, r.objectId = p.ref.objectId → r = p.ref
  job : ∀ stage, s.job = some stage → StageSays dates ids sha256 stringify s₀ s stage
  returned : ∀ r ∈ s.returned, (∃ p ∈ s.proven, p.ref = r) ∧ PointedAt dates s r

theorem initial_invariant (h : Initial s₀) :
    Invariant dates ids parse sha256 stringify s₀ s₀ := by
  obtain ⟨disks, hdisks⟩ := h.manifests
  refine ⟨?_, ?_, by simp [h.proven], ?_, by simp [h.proven], by simp [h.job], by simp [h.returned]⟩
  · rw [hdisks]
    exact ⟨by simp [ManifestWriter.initial], by simp [ManifestWriter.initial]⟩
  · constructor
    · simp [hdisks, ManifestWriter.initial, Memory.initial]
    · simp [hdisks, ManifestWriter.initial, Memory.initial]
    · simp [hdisks, ManifestWriter.initial]
    · simp [hdisks, ManifestWriter.initial]
    · exact fun v r hr => .inl ⟨v, hr⟩
    · simp [hdisks, ManifestWriter.initial]
  · rintro r (⟨v, hr⟩ | ⟨p, hp, -⟩) id hid
    · exact h.ids v r hr id hid
    · rw [h.proven] at hp
      cases hp

/-- The job ends, or goes on to a stage that is as it should be. -/
theorem Invariant.enter (h : Invariant dates ids parse sha256 stringify s₀ s)
    {job : Option (Stage α)}
    (hjob : ∀ stage, job = some stage → StageSays dates ids sha256 stringify s₀ s stage) :
    Invariant dates ids parse sha256 stringify s₀ { s with job := job } :=
  ⟨h.writer, h.carries, h.proven, h.named, h.unique,
    fun stage hs => by cases stage <;> exact hjob _ hs, h.returned⟩

theorem Invariant.fail (h : Invariant dates ids parse sha256 stringify s₀ s) :
    Invariant dates ids parse sha256 stringify s₀ (fail s) :=
  h.enter (by simp)

/-- What the writer does leaves the job where it is. -/
theorem StageSays.refresh (h : ManifestWriter.Invariant dates s.manifests) {stage : Stage α}
    (hstage : StageSays dates ids sha256 stringify s₀ s stage) (e : ManifestWriter.Event)
    {s' : State α} (hs' : s'.manifests = ManifestWriter.next dates config s.manifests e)
    (hproven : s'.proven = s.proven) (hids : s'.ids = s.ids) :
    StageSays dates ids sha256 stringify s₀ s' stage := by
  cases stage with
  | counting ref rollback found =>
    obtain ⟨hp, hsnapshot, hprevious, hfound⟩ := hstage
    refine ⟨hproven ▸ hp, hproven ▸ hsnapshot, hproven ▸ hprevious, fun hpos => ?_⟩
    exact (hfound hpos).next h e hs'
  | readingBack written id =>
    obtain ⟨hmade, hid, hmem, hfresh⟩ := hstage
    exact ⟨hmade, hid, hids ▸ hmem, hproven ▸ hfresh⟩
  | scanning ref previous reads => exact ⟨hproven ▸ hstage.1, hproven ▸ hstage.2⟩
  | publishing ref rollback passes =>
    exact ⟨hproven ▸ hstage.1, hproven ▸ hstage.2.1, hproven ▸ hstage.2.2⟩
  | staging | stranded | taking | storing written => exact hstage

/-- An event of the writer, after which the job may have gone on. -/
theorem Invariant.manifests (h : Invariant dates ids parse sha256 stringify s₀ s)
    {e : ManifestWriter.Event} (he : ManifestWriter.enabled s.manifests e)
    (hpointers : ∀ snapshot previous, e = .setSnapshots snapshot previous →
      (∀ r ∈ snapshot, Known s₀ s.proven r) ∧ ∀ r ∈ previous, Known s₀ s.proven r)
    {job : Option (Stage α)}
    (hjob : ∀ stage, job = some stage → StageSays dates ids sha256 stringify s₀ s stage) :
    Invariant dates ids parse sha256 stringify s₀
      { s with manifests := ManifestWriter.next dates config s.manifests e, job := job } where
  writer := ManifestWriter.invariant_next h.writer he
  carries := h.carries.next hpointers
  proven := h.proven
  named := h.named
  unique := h.unique
  job stage hs := (hjob stage hs).refresh h.writer e
    (rfl : _ = ManifestWriter.next dates config s.manifests e) rfl rfl
  returned r hr := ⟨(h.returned r hr).1, (h.returned r hr).2.next h.writer e
    (rfl : _ = ManifestWriter.next dates config s.manifests e)⟩

theorem take_keeps (h : Invariant dates ids parse sha256 stringify s₀ s)
    {containers : List (ContainerRow α)} {objects : List (ObjectRow α)} :
    Invariant dates ids parse sha256 stringify s₀
      (take ids sha256 stringify containers objects s) := by
  unfold take
  split
  · next hjob =>
    cases hwrite : writeTo ids sha256 stringify containers objects with
    | error e => exact h.fail
    | ok result =>
      obtain ⟨file, stats⟩ := result
      dsimp only
      by_cases hempty : stats.objects = 0 ∧ stats.containers = 0
      · rw [if_pos hempty]
        exact h.fail
      · rw [if_neg hempty]
        refine h.enter ?_
        rintro _ ⟨⟩
        refine ⟨hwrite, ?_⟩
        by_contra hnone
        simp only [ne_eq, not_or, not_not] at hnone
        obtain ⟨rfl, rfl⟩ := hnone
        obtain ⟨ordered, rfl, -, -, rfl⟩ := writeTo_ok hwrite
        exact hempty ⟨rfl, rfl⟩
  · exact h

theorem storeObject_keeps (h : Invariant dates ids parse sha256 stringify s₀ s) {id : Text}
    (hid : isObjectId id) (hfresh : id ∉ s.ids) :
    Invariant dates ids parse sha256 stringify s₀ (storeObject id s) := by
  unfold storeObject
  split
  · next written hjob =>
    refine ⟨h.writer, h.carries, h.proven, fun r hr id' hid' =>
      List.mem_append_left _ (h.named r hr id' hid'), h.unique, ?_, h.returned⟩
    rintro _ ⟨⟩
    refine ⟨h.job _ hjob, hid, by simp, fun r hr hsame => hfresh (h.named r hr id hsame)⟩
  · exact h

/-- The one new pointer is to a snapshot that was verified, and no other one names its object. -/
theorem readBack_keeps (h : Invariant dates ids parse sha256 stringify s₀ s) {copy : Text}
    {now : ℤ} :
    Invariant dates ids parse sha256 stringify s₀ (readBack dates parse sha256 copy now s) := by
  unfold readBack
  split
  · next written id hjob =>
    obtain ⟨hmade, hid, hmem, hfresh⟩ := h.job _ hjob
    cases hverify : verify parse sha256 (readLines copy) written.stats with
    | error e => exact h.fail
    | ok _ =>
      dsimp only
      generalize hp : (⟨written, ⟨some id, dates.toISOString now, some written.stats.objects⟩,
        copy⟩ : Proven α) = p
      have hstats : written.stats.objects = written.objects.length := by
        obtain ⟨ordered, -, -, -, hstats⟩ := writeTo_ok hmade.written
        rw [hstats]
      have hsound : Sound dates ids parse sha256 stringify p := by
        subst hp
        refine ⟨hmade, hverify, ?_, congrArg some hstats⟩
        simp [isUsableSnapshotRef, hid, dates.parse_toISOString]
      have hobjectId : p.ref.objectId = some id := by rw [← hp]
      have hcases : ∀ r, Known s₀ (s.proven ++ [p]) r → Known s₀ s.proven r ∨ r = p.ref := by
        rintro r (hr | ⟨q, hq, rfl⟩)
        · exact .inl (.inl hr)
        · rcases List.mem_append.mp hq with hq | hq
          · exact .inl (.inr ⟨q, hq, rfl⟩)
          · exact .inr (congrArg Proven.ref (List.mem_singleton.mp hq))
      refine ⟨h.writer, h.carries.mono fun r hr => hr.mono, ?_, ?_, ?_, ?_, ?_⟩
      · intro q hq
        rcases List.mem_append.mp hq with hq | hq
        · exact h.proven q hq
        · exact List.mem_singleton.mp hq ▸ hsound
      · intro r hr id' hid'
        rcases hcases r hr with hr | rfl
        · exact h.named r hr id' hid'
        · rw [hobjectId] at hid'
          exact Option.some.inj hid' ▸ hmem
      · intro r hr q hq hsame
        rcases List.mem_append.mp hq with hq | hq
        · rcases hcases r hr with hr | rfl
          · exact h.unique r hr q hq hsame
          · exact absurd (hsame.symm.trans hobjectId) (hfresh q.ref (.inr ⟨q, hq, rfl⟩))
        · obtain rfl := List.mem_singleton.mp hq
          rcases hcases r hr with hr | rfl
          · exact absurd (hsame.trans hobjectId) (hfresh r hr)
          · rfl
      · rintro _ ⟨⟩
        refine ⟨⟨p, by simp, by rw [← hp]⟩, fun r hr => (h.carries.snapshot r hr).mono⟩
      · intro r hr
        obtain ⟨⟨q, hq, href⟩, hpointed⟩ := h.returned r hr
        exact ⟨⟨q, List.mem_append_left _ hq, href⟩, hpointed⟩
  · exact h

theorem publish_keeps (h : Invariant dates ids parse sha256 stringify s₀ s) :
    Invariant dates ids parse sha256 stringify s₀ (publish dates config s) := by
  unfold publish
  split
  · next ref previous reads hjob =>
    obtain ⟨hproven, hprevious⟩ := h.job _ hjob
    cases newestManifestOnDisk dates config.identity true reads with
    | none => exact h.fail
    | some onDisk =>
      dsimp only
      split
      · exact h.fail
      · have hset : Invariant dates ids parse sha256 stringify s₀
            { s with
              manifests := ManifestWriter.next dates config s.manifests
                (.setSnapshots (some ref) previous)
              job := none } :=
          h.manifests rfl (by
            rintro _ _ ⟨⟩
            refine ⟨?_, hprevious⟩
            rintro _ ⟨⟩
            exact .inr hproven) (by simp)
        refine hset.manifests (e := .write) rfl (by simp) ?_
        rintro _ ⟨⟩
        exact ⟨hproven, h.carries.snapshot, h.carries.previous⟩
  · exact h

/-- A volume whose manifest names the object points at this very snapshot. -/
theorem pointedAt_of_names (h : Invariant dates ids parse sha256 stringify s₀ s)
    {ref : ManifestSnapshotRef} (hproven : ∃ p ∈ s.proven, p.ref = ref) {volume : ℕ} {fails : Bool}
    (hnames : names ref (readFile fails (s.manifests.disks volume))) : PointedAt dates s ref := by
  obtain ⟨p, hp, rfl⟩ := hproven
  have husable := (h.proven p hp).usable
  obtain ⟨t, ht⟩ := isUsableSnapshotRef_some husable
  refine ⟨volume, t, ht, ?_⟩
  cases fails with
  | true => cases hnames
  | false =>
    cases hdisk : s.manifests.disks volume with
    | manifest m =>
      rw [hdisk] at hnames
      obtain ⟨theirs, htheirs, hsame⟩ := (Option.any_eq_true _ _).mp hnames
      have hknown : Known s₀ s.proven theirs :=
        h.carries.disks volume theirs (by simp [hdisk, carried, pointers, htheirs])
      have heq := h.unique theirs hknown p hp (by simpa using hsame)
      subst heq
      exact ⟨m, rfl, _, t, htheirs, husable, ht, le_rfl⟩
    | absent => simp [hdisk, readFile, names] at hnames
    | mangled => simp [hdisk, readFile, names] at hnames
    | null => simp [hdisk, readFile, names] at hnames

theorem count_keeps (h : Invariant dates ids parse sha256 stringify s₀ s) {volume : ℕ}
    {fails : Bool} : Invariant dates ids parse sha256 stringify s₀ (count volume fails s) := by
  unfold count
  split
  · next ref rollback found hjob =>
    obtain ⟨hproven, hsnapshot, hprevious, hfound⟩ := h.job _ hjob
    refine h.enter ?_
    rintro _ ⟨⟩
    refine ⟨hproven, hsnapshot, hprevious, fun hpos => ?_⟩
    by_cases hnames : names ref (readFile fails (s.manifests.disks volume))
    · exact pointedAt_of_names h hproven hnames
    · rw [if_neg hnames] at hpos
      exact hfound hpos
  · exact h

theorem settle_keeps (h : Invariant dates ids parse sha256 stringify s₀ s) :
    Invariant dates ids parse sha256 stringify s₀ (settle dates config s) := by
  unfold settle
  split
  · next ref rollback found hjob =>
    obtain ⟨hproven, hsnapshot, hprevious, hfound⟩ := h.job _ hjob
    by_cases hnone : found = 0
    · rw [if_pos hnone]
      refine h.manifests rfl ?_ (by simp)
      rintro _ _ ⟨⟩
      exact ⟨hsnapshot, hprevious⟩
    · rw [if_neg hnone]
      refine ⟨h.writer, h.carries, h.proven, h.named, h.unique, by simp, fun r hr => ?_⟩
      rcases List.mem_append.mp hr with hr | hr
      · exact h.returned r hr
      · rw [List.mem_singleton.mp hr]
        exact ⟨hproven, hfound (Nat.pos_of_ne_zero hnone)⟩
  · exact h

theorem refresh_keeps (h : Invariant dates ids parse sha256 stringify s₀ s)
    {e : ManifestWriter.Event} (he : enabled s (.manifest e)) :
    Invariant dates ids parse sha256 stringify s₀ (refresh dates config e s) := by
  have hset : ∀ snapshot previous, e ≠ .setSnapshots snapshot previous := by
    rintro snapshot previous rfl
    cases he
  have hwriter : ManifestWriter.enabled s.manifests e := by
    cases e with
    | setSnapshots snapshot previous => exact absurd rfl (hset snapshot previous)
    | _ => exact he
  refine h.manifests hwriter (fun _ _ hs => absurd hs (hset _ _)) fun stage hstage => ?_
  split at hstage
  · cases hstage
  · split at hstage
    · obtain ⟨before, hbefore, rfl⟩ := Option.map_eq_some_iff.mp hstage
      have := h.job _ hbefore
      unfold Stage.passEnded
      split
      · exact this
      · exact this
    · exact h.job _ hstage

theorem next_keeps (h : Invariant dates ids parse sha256 stringify s₀ s) {e : Event α}
    (he : enabled s e) :
    Invariant dates ids parse sha256 stringify s₀
      (next dates config ids parse sha256 stringify s e) := by
  cases e with
  | manifest e => exact refresh_keeps h he
  | run =>
    refine h.enter ?_
    rintro _ ⟨⟩
    exact trivial
  | stage ok =>
    refine h.enter ?_
    rintro _ ⟨⟩
    cases ok <;> exact trivial
  | writeTo containers objects => exact take_keeps h
  | storeObject id =>
    simp only [enabled] at he
    split at he
    · simp only [Bool.and_eq_true, decide_eq_true_eq] at he
      exact storeObject_keeps h he.1 he.2
    · cases he
  | readBack copy now => exact readBack_keeps h
  | scan volume fails =>
    simp only [next, scan]
    split
    · next ref previous reads hjob =>
      obtain ⟨hproven, hprevious⟩ := h.job _ hjob
      refine h.enter ?_
      rintro _ ⟨⟩
      exact ⟨hproven, hprevious⟩
    · exact h
  | publish => exact publish_keeps h
  | written =>
    simp only [next]
    split
    · next ref rollback passes hjob =>
      obtain ⟨hproven, hsnapshot, hprevious⟩ := h.job _ hjob
      refine h.enter ?_
      rintro _ ⟨⟩
      exact ⟨hproven, hsnapshot, hprevious, by simp⟩
    · exact h
  | count volume fails => exact count_keeps h
  | settle => exact settle_keeps h
  | fail => exact h.fail

theorem steps_invariant (h₀ : Initial s₀)
    (h : Steps (machine dates config ids parse sha256 stringify) s₀ s) :
    Invariant dates ids parse sha256 stringify s₀ s := by
  induction h with
  | refl => exact initial_invariant h₀
  | step _ he ih => exact next_keeps ih he

/-! ## What a volume points at -/

variable (ids parse sha256 stringify) in
/-- The cursors gave every row once and with a name, the JSON of the file is read as it was
written, and no other text hashes to what the file does. -/
structure Readable (p : Proven α) : Prop where
  containers : (p.written.containers.map ContainerRow.id).Nodup
  objects : (p.written.objects.map ObjectRow.id).Nodup
  named : Named p.written.containers p.written.objects
  parse_nil : parse [] = .unparseable
  parse_stringify : ∀ r ∈ fileRecords ids p.written.containers p.written.objects p.written.stats,
    parse (stringify r) = .record r
  digest : sha256 (hashed parse (readLines p.copy)) =
      sha256 (hashed parse (readLines p.written.file)) →
    hashed parse (readLines p.copy) = hashed parse (readLines p.written.file)

variable (ids parse sha256) in
/-- What a restore gets out of the copy: every container and every object that the cursors gave,
and nothing else. -/
def Restores (p : Proven α) : Prop :=
  ∃ cs os, loadSnapshot parse sha256 (readLines p.copy) = .ok (cs, os) ∧
    (∀ t c, cs.get t = some c ↔
      ∃ row ∈ p.written.containers, t = ids.hex row.id ∧ c = loadedContainer ids row) ∧
    ∀ t o, os.get t = some o ↔
      ∃ row ∈ p.written.objects, t = ids.hex row.id ∧ o = loadedPut ids row

theorem Sound.restores {p : Proven α} (h : Sound dates ids parse sha256 stringify p)
    (hreadable : Readable ids parse sha256 stringify p) : Restores ids parse sha256 p := by
  obtain ⟨cs, os, hload, hrows⟩ := load_written hreadable.containers hreadable.objects h.written
    hreadable.parse_nil hreadable.parse_stringify hreadable.named
  refine ⟨cs, os, ?_, hrows⟩
  rw [← hload]
  exact SnapshotCopy.load_copy hreadable.containers hreadable.objects h.written
    hreadable.parse_nil hreadable.parse_stringify hreadable.named h.verified hreadable.digest

variable (dates config ids parse sha256 stringify) in
/-- **Main result.** Every pointer that a volume carries was on the disks before, or names a
snapshot with something in it that was read back and verified, and out of which a restore gets
what the cursors gave. Once `run` has returned, some volume points at a snapshot that is no older,
whatever happens afterwards. -/
theorem published_is_restorable (h₀ : Initial s₀)
    (h : Steps (machine dates config ids parse sha256 stringify) s₀ s) :
    (∀ v, ∀ r ∈ carried (s.manifests.disks v), (∃ v₀, r ∈ carried (s₀.manifests.disks v₀)) ∨
      ∃ p ∈ s.proven, p.ref = r ∧ (p.written.containers ≠ [] ∨ p.written.objects ≠ []) ∧
        r.objects = some p.written.objects.length ∧
          verify parse sha256 (readLines p.copy) p.written.stats = .ok () ∧
            (Readable ids parse sha256 stringify p → Restores ids parse sha256 p)) ∧
    ∀ r ∈ s.returned, (∃ p ∈ s.proven, p.ref = r) ∧
      ∃ v m completedAt, s.manifests.disks v = .manifest m ∧
        dates.parse r.completedAt = some completedAt ∧
          CompletedSince dates completedAt m.snapshot := by
  have hinv := steps_invariant h₀ h
  refine ⟨fun v r hr => (hinv.carries.disks v r hr).imp_right ?_, fun r hr => ?_⟩
  · rintro ⟨p, hp, rfl⟩
    have hsound := hinv.proven p hp
    exact ⟨p, hp, rfl, hsound.nonempty, hsound.objects, hsound.verified, hsound.restores⟩
  · obtain ⟨hproven, v, t, ht, m, hm, hsince⟩ := hinv.returned r hr
    exact ⟨hproven, v, m, t, hm, ht, hsince⟩

end Run

/-! ### The first snapshot of a bucket -/

open ManifestWriter (julyDates onJuly1 onJuly13 array) in
/-- Two disks without a manifest, a snapshot of a bucket, and a refresh and a restart after it. -/
def firstSnapshot : List (Event Unit) :=
  [.run, .stage true, .writeTo [bucketRow "photos"] [],
    .storeObject "60c72b2f9b1d8e001c8e4d5a".toList,
    .readBack (newline photosLine ++ newline photosTrailer) onJuly1, .scan 1 false, .scan 2 true,
    .publish, .manifest (.build onJuly1 [] [1, 2]), .manifest (.read false), .manifest .land,
    .manifest (.read true), .manifest .finish, .written, .count 1 false, .count 2 false, .settle,
    .manifest .restart, .manifest .write, .manifest (.build onJuly13 [] [1, 2]),
    .manifest (.read false), .manifest .land]

def bareDisks : State Unit := ⟨ManifestWriter.initial fun _ => .absent, [], none, [], []⟩

theorem bareDisks_initial : Initial bareDisks :=
  ⟨⟨_, rfl⟩, fun _ r hr => by simp [bareDisks, ManifestWriter.initial, carried] at hr, rfl, rfl,
    rfl⟩

def afterFirst : State Unit :=
  firstSnapshot.foldl (next ManifestWriter.julyDates ManifestWriter.array bucketIds bucketParse
    bucketSha256 bucketStringify) bareDisks

theorem firstSnapshot_steps : Steps (machine ManifestWriter.julyDates ManifestWriter.array bucketIds
    bucketParse bucketSha256 bucketStringify) bareDisks afterFirst :=
  Steps.run firstSnapshot (by
    have hrun : ∀ n (hn : n < firstSnapshot.length),
        enabled ((firstSnapshot.take n).foldl (next ManifestWriter.julyDates ManifestWriter.array
          bucketIds bucketParse bucketSha256 bucketStringify) bareDisks) firstSnapshot[n] := by
      decide +kernel
    exact hrun)

def firstProven : Proven Unit where
  written := ⟨[bucketRow "photos"], [], newline photosLine ++ newline photosTrailer,
    ⟨1, 0, photosDigest⟩⟩
  ref := ⟨some "60c72b2f9b1d8e001c8e4d5a".toList, ManifestWriter.july1, some 0⟩
  copy := newline photosLine ++ newline photosTrailer

theorem firstProven_readable :
    Readable bucketIds bucketParse bucketSha256 bucketStringify firstProven where
  containers := by decide
  objects := by decide
  named := ⟨by decide, by decide⟩
  parse_nil := by decide +kernel
  parse_stringify := by decide +kernel
  digest _ := rfl

theorem published_is_restorable_first :
    Restores bucketIds bucketParse bucketSha256 firstProven ∧
      ∃ v m completedAt, afterFirst.manifests.disks v = .manifest m ∧
        ManifestWriter.julyDates.parse firstProven.ref.completedAt = some completedAt ∧
          CompletedSince ManifestWriter.julyDates completedAt m.snapshot := by
  have hproven : afterFirst.proven = [firstProven] := by rfl
  obtain ⟨hcarried, hreturned⟩ := published_is_restorable ManifestWriter.julyDates
    ManifestWriter.array bucketIds bucketParse bucketSha256 bucketStringify bareDisks_initial
    firstSnapshot_steps
  refine ⟨?_, (hreturned firstProven.ref (by decide +kernel)).2⟩
  rcases hcarried 1 firstProven.ref (by decide +kernel) with
    ⟨v, hbefore⟩ | ⟨p, hp, -, -, -, -, hrestores⟩
  · simp [bareDisks, ManifestWriter.initial, carried] at hbefore
  · rw [hproven] at hp
    obtain rfl := List.mem_singleton.mp hp
    exact hrestores firstProven_readable

end SnapshotJob
