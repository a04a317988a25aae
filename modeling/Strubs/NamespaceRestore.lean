import Strubs.ContentRepository
import Strubs.NamespaceReplay
import Strubs.RecordSynthesis
import Strubs.SnapshotWriter

/-! # Restoring the namespace

The snapshot and the journal supply the names, and the platters decide which of them stand for
something. A dry run counts, and only an applied one writes. -/
namespace NamespaceRestore

open InsertionMap NamespaceRecord ContentRepository SnapshotFile NamespaceReplay RecordSynthesis

inductive RestoreError where
  | fleetRestoreIncomplete
  | journalLocationUncertain
  | platters
  | noSnapshot
  | notEmpty (existing : ℕ)
  | fetch
  | load (e : LoadError)
  | journal
  | replay (e : ReplayError)
  | index
  deriving DecidableEq

structure RestoreOptions where
  apply : Bool
  force : Bool
  previous : Option Text
  deriving DecidableEq, Repr

/-- What a restore asks of its surroundings. The pool may finish the objects in any order. -/
structure RestoreDeps where
  parse : Text → Parsed
  sha256 : Text → Text
  platters : Option (List ℕ)
  objectsInDatabase : ℕ
  fetchSnapshot : Text → Option (List Text)
  journalSegments : Bool → Option (List (List Text))
  fleetRestoreIncomplete : Bool
  fleetGeometry : Geometry
  restoreInFlight : Bool
  namespaceRestorePending : Bool
  journalLocationUncertain : Bool
  sliceIndex : Option (Text → Option Slots)
  contents : Text → ℕ → ℕ → SliceContents
  pool : List (Text × Put) → List (Text × Put)
  pool_perm : ∀ objects, (pool objects).Perm objects

structure RestoreSummary where
  containers : ℕ
  objectsInNamespace : ℕ
  objectsRestored : ℕ
  objectsMissing : ℕ
  objectsUnrecoverable : ℕ
  objectsIndeterminate : ℕ
  policiesDeclined : ℕ
  snapshotUsed : Text
  fellBackToPrevious : Bool
  delsIgnored : ℕ
  putsDropped : ℕ
  deriving DecidableEq

/-- A write to the database. -/
inductive DatabaseWrite where
  | beginRestore
  | container (r : ContainerRestore)
  | object (r : ObjectRestore)
  | prune (keep : List Text)
  | endRestore
  | namespaceRestored
  deriving DecidableEq

variable (deps : RestoreDeps)

/-- The fleet is asked about first, then the journal, the platters and the snapshot. -/
def guards (snapshot : Option Text) (opts : RestoreOptions) : Except RestoreError (Text × List ℕ) :=
  if deps.fleetRestoreIncomplete then .error .fleetRestoreIncomplete
  else if deps.journalLocationUncertain then .error .journalLocationUncertain
  else
    match deps.platters, snapshot with
    | none, _ => .error .platters
    | some _, none => .error .noSnapshot
    | some platters, some snapshot =>
      let resuming := deps.restoreInFlight || deps.namespaceRestorePending
      if opts.apply && !opts.force && !resuming && 0 < deps.objectsInDatabase then
        .error (.notEmpty deps.objectsInDatabase)
      else .ok (snapshot, platters)

/-- The lines of the snapshot, and of the previous one if there is no other. -/
def fetch (snapshot : Text) (opts : RestoreOptions) :
    Except RestoreError (Text × Bool × List Text) :=
  match deps.fetchSnapshot snapshot with
  | some lines => .ok (snapshot, false, lines)
  | none =>
    match opts.previous with
    | none => .error .fetch
    | some previous =>
      match deps.fetchSnapshot previous with
      | none => .error .fetch
      | some lines => .ok (previous, true, lines)

def hasAnySlice (index : Text → Option Slots) (id : Text) : Bool :=
  match index id with
  | none => false
  | some slots => slots.toList.any (· ≠ 0)

/-- A delete that has left slices behind did not complete, so its name is kept. -/
def keepDeleted (index : Text → Option Slots) (ns : Namespace) : Namespace × ℕ :=
  let kept := ns.deleted.entries.filter fun e => hasAnySlice index e.1
  ({ ns with objects := kept.foldl (fun objects e => objects.set e.1 e.2) ns.objects }, kept.length)

/-- What a restore knows before it looks at the objects. -/
structure Rebuilt where
  snapshotUsed : Text
  fellBack : Bool
  snapshotContainers : Table Text Container
  snapshotObjects : Table Text Put
  records : List Record
  replayed : Namespace
  index : Text → Option Slots
  platters : List ℕ

def Rebuilt.final (r : Rebuilt) : Namespace := (keepDeleted r.index r.replayed).1

def Rebuilt.delsIgnored (r : Rebuilt) : ℕ := (keepDeleted r.index r.replayed).2

def rebuild (snapshot : Text) (platters : List ℕ) (opts : RestoreOptions) :
    Except RestoreError Rebuilt := do
  let (used, fellBack, lines) ← fetch deps snapshot opts
  let (containers, objects) ← (loadSnapshot deps.parse deps.sha256 lines).mapError RestoreError.load
  match deps.journalSegments opts.force with
  | none => .error .journal
  | some segments =>
    let replayed ← (replay deps.parse segments (Namespace.ofSnapshot containers objects)).mapError
      RestoreError.replay
    match deps.sliceIndex with
    | none => .error .index
    | some index =>
      return ⟨used, fellBack, containers, objects, journalRecords deps.parse segments, replayed,
        index,
        platters⟩

/-- The root of the chain of containers, as far as it is known. -/
def bucketOf (containers : Table Text Container) (cid : Option Text) : Option Text :=
  go (containers.size + 1) cid none []
where
  go : ℕ → Option Text → Option Text → List Text → Option Text
    | 0, _, root, _ => root
    | _, none, root, _ => root
    | fuel + 1, some current, root, seen =>
      if current.isEmpty ∨ current ∈ seen then root
      else
        match containers.get current with
        | none => root
        | some c => go fuel c.cid (some current) (current :: seen)

inductive Verdict where
  | restored
  | missing
  | unrecoverable
  | indeterminate
  | putDropped
  deriving DecidableEq, Repr

def synthesise (r : Rebuilt) (id : Text) : Option Synthesised :=
  synthesiseRecordFromIndex id (mountedOn r.platters) (deps.contents id) (r.index id)
    (r.platters.head?.getD 0) (some r.platters) (some deps.fleetGeometry)

/-- The platters supply the shape and the journal the name. -/
def objectRestore (r : Rebuilt) (id : Text) (named : Put) (record : SynthesisedRecord) :
    ObjectRestore where
  id := id
  containerId := named.cid
  bucketId := bucketOf r.final.containers named.cid
  name := named.name
  mime := SnapshotWriter.orNull named.mime
  md5 := SnapshotWriter.orNull named.md5
  size := (record.size.map fun n => (n : ℚ)).getD named.size
  chunkSize := (record.chunkSize.map fun n => (n : ℚ)).getD named.cs
  dataVolumes := record.dataVolumes
  parityVolumes := record.parityVolumes

def verify (r : Rebuilt) (e : Text × Put) : Verdict × Option ObjectRestore :=
  match synthesise deps r e.1 with
  | none =>
    if hasAnySlice r.index e.1 then (.unrecoverable, none)
    else if (r.snapshotObjects.get e.1).isSome then (.missing, none)
    else (.putDropped, none)
  | some rebuilt =>
    if rebuilt.reason ≠ .indeterminate ∧ ¬rebuilt.recoverable then (.unrecoverable, none)
    else
      match rebuilt.record with
      | none => (.indeterminate, none)
      | some record =>
        (if rebuilt.reason = .indeterminate then .indeterminate else .restored,
          some (objectRestore r e.1 e.2 record))

def Rebuilt.orderedContainers (r : Rebuilt) : List Container :=
  SnapshotWriter.orderParentsFirst Container.id Container.cid r.final.containers.values

def containerWrites (r : Rebuilt) : List ContainerRestore :=
  r.orderedContainers.map fun c => ⟨c, some ((bucketOf r.final.containers c.cid).getD c.id)⟩

def verdicts (r : Rebuilt) : List (Verdict × Option ObjectRestore) :=
  (deps.pool r.final.objects.entries).map (verify deps r)

def objectWrites (r : Rebuilt) : List ObjectRestore := (verdicts deps r).filterMap Prod.snd

def keptIds (r : Rebuilt) : List Text :=
  (containerWrites r).map (·.container.id) ++ (objectWrites deps r).map ObjectRestore.id

def countVerdict (r : Rebuilt) (v : Verdict) : ℕ := (verdicts deps r).countP (·.1 = v)

def summary (r : Rebuilt) : RestoreSummary where
  containers := r.final.containers.size
  objectsInNamespace := r.final.objects.size
  objectsRestored := countVerdict deps r .restored
  objectsMissing := countVerdict deps r .missing
  objectsUnrecoverable := countVerdict deps r .unrecoverable
  objectsIndeterminate := countVerdict deps r .indeterminate
  policiesDeclined := r.replayed.policiesDeclined
  snapshotUsed := r.snapshotUsed
  fellBackToPrevious := r.fellBack
  delsIgnored := r.delsIgnored
  putsDropped := countVerdict deps r .putDropped

/-- The writes of an applied restore, after the marker is up. -/
def appliedWrites (r : Rebuilt) : List DatabaseWrite :=
  (containerWrites r).map .container ++ (objectWrites deps r).map .object ++
    [.prune (keptIds deps r), .endRestore, .namespaceRestored]

/-- What is written as long as every write succeeds, and what comes of it. -/
def run (snapshot : Option Text) (opts : RestoreOptions) :
    List DatabaseWrite × Except RestoreError RestoreSummary :=
  match guards deps snapshot opts with
  | .error e => ([], .error e)
  | .ok (snapshot, platters) =>
    let marker := if opts.apply then [DatabaseWrite.beginRestore] else []
    match rebuild deps snapshot platters opts with
    | .error e => (marker, .error e)
    | .ok r => (marker ++ if opts.apply then appliedWrites deps r else [], .ok (summary deps r))

/-! ## The writes in a database -/

structure Database (α : Type*) where
  content : Collection α
  restoreInFlight : Bool
  namespaceRestoreRequired : Bool
  rowsPruned : ℕ

variable {α : Type*} [DecidableEq α] (ids : ObjectIds α)

def write (db : Database α) : DatabaseWrite → Except DatabaseError (Database α)
  | .beginRestore => .ok { db with restoreInFlight := true }
  | .container r => (restoreContainer ids db.content r).map fun c => { db with content := c }
  | .object r => (restoreObject ids db.content r).map fun c => { db with content := c }
  | .prune keep =>
    let pruned := pruneOutsideNamespace ids db.content keep
    .ok { db with content := pruned.1, rowsPruned := pruned.2 }
  | .endRestore => .ok { db with restoreInFlight := false }
  | .namespaceRestored => .ok { db with namespaceRestoreRequired := false }

/-- A write that fails ends the restore. -/
def execute (db : Database α) (writes : List DatabaseWrite) : Except DatabaseError (Database α) :=
  writes.foldlM (write ids) db


/-! ## What a restore knows -/

section Rebuild

variable {deps : RestoreDeps}

theorem mapError_ok {ε ε' β : Type*} {x : Except ε β} {f : ε → ε'} {b : β} :
    x.mapError f = .ok b ↔ x = .ok b := by
  cases x <;> simp [Except.mapError]

/-- Where everything a restore knows comes from. -/
theorem rebuild_ok {snapshot : Text} {platters : List ℕ} {opts : RestoreOptions} {r : Rebuilt}
    (h : rebuild deps snapshot platters opts = .ok r) :
    ∃ lines segments, deps.fetchSnapshot r.snapshotUsed = some lines ∧
      loadSnapshot deps.parse deps.sha256 lines = .ok (r.snapshotContainers, r.snapshotObjects) ∧
      deps.journalSegments opts.force = some segments ∧
      r.records = journalRecords deps.parse segments ∧
      replay deps.parse segments (Namespace.ofSnapshot r.snapshotContainers r.snapshotObjects) =
        .ok r.replayed ∧
      deps.sliceIndex = some r.index ∧ r.platters = platters := by
  unfold rebuild at h
  cases hfetch : fetch deps snapshot opts with
  | error e => simp [hfetch, bind, Except.bind] at h
  | ok fetched =>
    obtain ⟨used, fellBack, lines⟩ := fetched
    simp only [hfetch, bind, Except.bind] at h
    cases hload : (loadSnapshot deps.parse deps.sha256 lines).mapError RestoreError.load with
    | error e => simp [hload] at h
    | ok loaded =>
      obtain ⟨containers, objects⟩ := loaded
      simp only [hload] at h
      cases hjournal : deps.journalSegments opts.force with
      | none => simp [hjournal] at h
      | some segments =>
        simp only [hjournal] at h
        cases hreplay : (replay deps.parse segments
            (Namespace.ofSnapshot containers objects)).mapError RestoreError.replay with
        | error e => simp [hreplay] at h
        | ok replayed =>
          simp only [hreplay] at h
          cases hindex : deps.sliceIndex with
          | none => simp [hindex] at h
          | some index =>
            simp only [hindex, pure, Except.pure, Except.ok.injEq] at h
            subst h
            refine ⟨lines, segments, ?_, mapError_ok.mp hload, rfl, rfl, mapError_ok.mp hreplay,
              rfl, rfl⟩
            unfold fetch at hfetch
            split at hfetch
            · next hcurrent =>
              cases hfetch
              exact hcurrent
            · split at hfetch
              · cases hfetch
              · split at hfetch
                · cases hfetch
                · next hprevious =>
                  cases hfetch
                  exact hprevious

theorem replayed_eq {snapshot : Text} {platters : List ℕ} {opts : RestoreOptions} {r : Rebuilt}
    (h : rebuild deps snapshot platters opts = .ok r) :
    r.replayed = r.records.foldl applyRecord
      (Namespace.ofSnapshot r.snapshotContainers r.snapshotObjects) := by
  obtain ⟨lines, segments, _, _, _, hrecords, hreplay, _⟩ := rebuild_ok h
  rw [hrecords]
  exact replay_eq hreplay

theorem wellKept_replayed {snapshot : Text} {platters : List ℕ} {opts : RestoreOptions}
    {r : Rebuilt}
    (h : rebuild deps snapshot platters opts = .ok r) : r.replayed.WellKept := by
  obtain ⟨lines, segments, _, hload, _⟩ := rebuild_ok h
  rw [replayed_eq h]
  exact (wellKept_ofSnapshot hload).foldl

variable (deps)

/-- What a run wrote and returned, by where it ended. -/
theorem run_cases (snapshot : Option Text) (opts : RestoreOptions) :
    (∃ e, run deps snapshot opts = ([], .error e)) ∨
      (∃ e, run deps snapshot opts =
        (if opts.apply then [DatabaseWrite.beginRestore] else [], .error e)) ∨
      ∃ used platters r, guards deps snapshot opts = .ok (used, platters) ∧
        rebuild deps used platters opts = .ok r ∧
        run deps snapshot opts =
          (if opts.apply then .beginRestore :: appliedWrites deps r else [],
            .ok (summary deps r)) := by
  unfold run
  cases hguards : guards deps snapshot opts with
  | error e => exact .inl ⟨e, rfl⟩
  | ok guarded =>
    obtain ⟨used, platters⟩ := guarded
    dsimp only
    cases hrebuild : rebuild deps used platters opts with
    | error e => exact .inr (.inl ⟨e, rfl⟩)
    | ok r =>
      refine .inr (.inr ⟨used, platters, r, rfl, hrebuild, ?_⟩)
      cases opts.apply <;> rfl

end Rebuild

section Written

variable {deps : RestoreDeps} {r : Rebuilt}

theorem final_containers (r : Rebuilt) : r.final.containers = r.replayed.containers := rfl

theorem values_ids {ns : Namespace} (h : ns.WellKept) :
    ns.containers.values.map Container.id = ns.containers.keys := by
  unfold Table.values Table.keys
  rw [List.map_map]
  refine List.map_congr_left fun e he => ?_
  exact h.containers e.1 e.2 (get_eq_some_iff.mpr he)

theorem ordered_perm (h : r.replayed.WellKept) :
    r.orderedContainers.Perm r.replayed.containers.values := by
  apply SnapshotWriter.orderParentsFirst_perm
  rw [final_containers, values_ids h]
  exact nodup_keys _

/-- Every container of the namespace is written under its id, with its flags. -/
theorem mem_containerWrites (h : r.replayed.WellKept) {w : ContainerRestore}
    (hw : w ∈ containerWrites r) :
    r.replayed.containers.get w.container.id = some w.container := by
  obtain ⟨c, hc, rfl⟩ := List.mem_map.mp hw
  obtain ⟨id, hget⟩ := mem_values_iff.mp ((ordered_perm h).mem_iff.mp hc)
  have hid := h.containers id c hget
  simpa [hid] using hget

end Written

/-! ## Access -/

section Access

variable {deps : RestoreDeps} {r : Rebuilt}

theorem isOpen_containerWrite {snapshot : Text} {platters : List ℕ} {opts : RestoreOptions}
    (h : rebuild deps snapshot platters opts = .ok r) {w : ContainerRestore}
    (hw : w ∈ containerWrites r) {f : AccessFlag}
    (hopen : f.isOpen (flagOf w.container.flags f)) :
    f.isOpen (flagOf (((r.snapshotContainers.get w.container.id).map Container.flags).getD noFlags)
        f) ∨ f = .deleteProtected ∧ .del w.container.id ∈ r.records := by
  have hget := mem_containerWrites (wellKept_replayed h) hw
  have hflags : r.replayed.flags w.container.id = w.container.flags := by
    simp [Namespace.flags, hget]
  rw [← hflags, replayed_eq h] at hopen
  rw [← flags_ofSnapshot r.snapshotContainers r.snapshotObjects]
  exact isOpen_foldl hopen

theorem mem_run_container {snapshot : Option Text} {opts : RestoreOptions} {w : ContainerRestore}
    (hw : .container w ∈ (run deps snapshot opts).1) :
    ∃ used platters r, rebuild deps used platters opts = .ok r ∧ w ∈ containerWrites r := by
  rcases run_cases deps snapshot opts with ⟨e, hrun⟩ | ⟨e, hrun⟩ | ⟨used, platters, r, _, h, hrun⟩
  · rw [hrun] at hw
    cases hw
  · rw [hrun] at hw
    split at hw <;> simp at hw
  · rw [hrun] at hw
    refine ⟨used, platters, r, h, ?_⟩
    split at hw
    · simpa [appliedWrites] using hw
    · cases hw

/-- Access is granted by the snapshot only, protection is taken away by a deletion only, and
the row of a container has no other flags than its record. -/
theorem restore_opens_nothing (deps : RestoreDeps) (snapshot : Option Text) (opts : RestoreOptions)
    (ids : ObjectIds α) :
    (∀ w, .container w ∈ (run deps snapshot opts).1 →
      ∃ used lines segments containers objects, deps.fetchSnapshot used = some lines ∧
        deps.journalSegments opts.force = some segments ∧
        loadSnapshot deps.parse deps.sha256 lines = .ok (containers, objects) ∧
        (w.container.flags.pr = some true →
          ∃ c, containers.get w.container.id = some c ∧ c.flags.pr = some true) ∧
        (w.container.flags.pw = some true →
          ∃ c, containers.get w.container.id = some c ∧ c.flags.pw = some true) ∧
        ∀ c, containers.get w.container.id = some c → c.flags.dp = some true →
          .del w.container.id ∉ journalRecords deps.parse segments →
          w.container.flags.dp = some true) ∧
    ∀ (c c' : Collection α) (w : ContainerRestore), restoreContainer ids c w = .ok c' →
      ∃ id d, ids.ofText w.container.id = some id ∧ c'.get id = some d ∧
        d.flags = w.container.flags := by
  constructor
  · intro w hw
    obtain ⟨used, platters, r, h, hw⟩ := mem_run_container hw
    obtain ⟨lines, segments, hfetch, hload, hjournal, hrecords, _⟩ := rebuild_ok h
    refine ⟨r.snapshotUsed, lines, segments, r.snapshotContainers, r.snapshotObjects, hfetch,
      hjournal,
      hload, fun hpr => ?_, fun hpw => ?_, fun c hc hdp hdel => ?_⟩
    · have hopen := (isOpen_containerWrite h hw (f := .publicRead)
        (beq_iff_eq.mpr hpr)).resolve_right (by simp)
      cases hget : r.snapshotContainers.get w.container.id with
      | none => simp [hget, AccessFlag.isOpen, flagOf, noFlags] at hopen
      | some c => exact ⟨c, rfl, by simpa [hget, AccessFlag.isOpen, flagOf] using hopen⟩
    · have hopen := (isOpen_containerWrite h hw (f := .publicWrite)
        (beq_iff_eq.mpr hpw)).resolve_right (by simp)
      cases hget : r.snapshotContainers.get w.container.id with
      | none => simp [hget, AccessFlag.isOpen, flagOf, noFlags] at hopen
      | some c => exact ⟨c, rfl, by simpa [hget, AccessFlag.isOpen, flagOf] using hopen⟩
    · by_contra hne
      rcases isOpen_containerWrite h hw (f := .deleteProtected)
        (by simpa [AccessFlag.isOpen, flagOf] using hne) with hopen | ⟨_, hmem⟩
      · simp [hc, AccessFlag.isOpen, flagOf, hdp] at hopen
      · exact hdel (hrecords ▸ hmem)
  · intro c c' w hrestore
    obtain ⟨id, d, hid, hget, hflags, _⟩ := restoreContainer_flags hrestore
    exact ⟨id, d, hid, hget, hflags⟩

end Access

/-! ### A public bucket -/

/-- A restore with nothing to restore from. -/
def bareDeps : RestoreDeps where
  parse _ := .unparseable
  sha256 _ := []
  platters := some [1]
  objectsInDatabase := 0
  fetchSnapshot _ := some []
  journalSegments _ := some []
  fleetRestoreIncomplete := false
  fleetGeometry := ⟨4, 2⟩
  restoreInFlight := false
  namespaceRestorePending := false
  journalLocationUncertain := false
  sliceIndex := some fun _ => none
  contents _ _ _ := .absent
  pool objects := objects
  pool_perm _ := List.Perm.refl _

def applied : RestoreOptions := ⟨true, false, none⟩

def publicLine : Text :=
  ("\x7b\"op\":\"container\",\"id\":\"507f1f77bcf86cd799439011\",\"cid\":null," ++
    "\"name\":\"photos\",\"pr\":true,\"dp\":true\x7d").toList

def publicDigest : Text :=
  "5b283df968125d4bbd43c2c745a386e254e9236ffab5e5684e8337a3c53bc577".toList

def publicTrailer : Text :=
  "\x7b\"op\":\"end\",\"containers\":1,\"objects\":0,\"sha256\":\"".toList ++
    publicDigest ++ "\"\x7d".toList

def publicBucket : Container :=
  ⟨SnapshotWriter.bucketId, none, "photos".toList, ⟨some true, none, some true⟩⟩

/-- A snapshot of a public bucket that is protected, and a journal that is empty. -/
def publicDeps : RestoreDeps :=
  { bareDeps with
    parse := fun line =>
      if line = publicLine then
        .record (SnapshotWriter.containerRecord SnapshotWriter.bucketIds
          ⟨(), none, .text "photos".toList, ⟨some true, none, some true⟩⟩)
      else if line = publicTrailer then .record (SnapshotWriter.endRecord 1 0 publicDigest)
      else .unparseable
    sha256 := fun t => if t = newline publicLine then publicDigest else []
    fetchSnapshot := fun _ => some [publicLine, publicTrailer] }

theorem restore_opens_nothing_public :
    (∃ containers objects, loadSnapshot publicDeps.parse publicDeps.sha256
        [publicLine, publicTrailer] = .ok (containers, objects) ∧
      ∃ c, containers.get publicBucket.id = some c ∧ c.flags.pr = some true) ∧
    ∃ c' id d, restoreContainer SnapshotWriter.bucketIds Table.empty ⟨publicBucket, none⟩ = .ok c' ∧
      c'.get id = some d ∧ d.flags = publicBucket.flags := by
  have h := restore_opens_nothing publicDeps (some []) applied SnapshotWriter.bucketIds
  constructor
  · obtain ⟨_, lines, _, containers, objects, hlines, _, hload, hpr, _⟩ :=
      h.1 ⟨publicBucket, some publicBucket.id⟩ (by decide +kernel)
    obtain rfl : [publicLine, publicTrailer] = lines := Option.some.inj hlines
    exact ⟨containers, objects, hload, hpr rfl⟩
  · obtain ⟨c', hc'⟩ : ∃ c', restoreContainer SnapshotWriter.bucketIds Table.empty
        ⟨publicBucket, none⟩ = .ok c' := ⟨_, by rfl⟩
    obtain ⟨id, d, _, hget, hflags⟩ := h.2 Table.empty c' ⟨publicBucket, none⟩ hc'
    exact ⟨c', id, d, hc', hget, hflags⟩

/-! ## The disks have the last word -/

section Objects

variable {deps : RestoreDeps} {r : Rebuilt}

theorem get_foldl_set (l : List (Text × Put)) (t : Table Text Put) (id : Text) :
    ((l.foldl (fun objects e => objects.set e.1 e.2) t).get id).isSome ↔
      (t.get id).isSome ∨ id ∈ l.map Prod.fst := by
  induction l generalizing t with
  | nil => simp
  | cons e l ih =>
    rw [List.foldl_cons, ih, get_set]
    by_cases hid : id = e.1 <;> simp [hid]

/-- The namespace has what the replay has and what was deleted but is still on the disks. -/
theorem mem_final_objects {id : Text} :
    id ∈ r.final.objects.keys ↔ (r.replayed.objects.get id).isSome ∨
      (r.replayed.deleted.get id).isSome ∧ hasAnySlice r.index id := by
  rw [mem_keys_iff]
  simp only [Rebuilt.final, keepDeleted]
  rw [get_foldl_set]
  refine or_congr_right ?_
  simp only [List.mem_map, List.mem_filter]
  constructor
  · rintro ⟨e, ⟨he, hslice⟩, rfl⟩
    exact ⟨by rw [get_eq_some_iff.mpr he]; rfl, hslice⟩
  · rintro ⟨hdeleted, hslice⟩
    obtain ⟨p, hp⟩ := Option.isSome_iff_exists.mp hdeleted
    exact ⟨(id, p), ⟨get_eq_some_iff.mp hp, hslice⟩, rfl⟩

/-- The verdict on an object keeps its name. -/
def Keeps (deps : RestoreDeps) (r : Rebuilt) (id : Text) : Prop :=
  ∃ v, synthesise deps r id = some v ∧
    (v.recoverable ∨ v.reason = .indeterminate ∧ v.record.isSome)

theorem record_of_synthesise {id : Text} {v : Synthesised} (h : synthesise deps r id = some v) :
    v.record.isSome := by
  unfold synthesise at h
  cases hslots : r.index id with
  | none => simp [hslots, synthesiseRecordFromIndex] at h
  | some slots =>
    rw [hslots] at h
    exact record_of_favourable h

theorem verify_writes_iff {e : Text × Put} :
    (∃ o, (verify deps r e).2 = some o) ↔ Keeps deps r e.1 := by
  unfold verify Keeps
  cases hsynth : synthesise deps r e.1 with
  | none =>
    simp only [reduceCtorEq, false_and, exists_false, iff_false, not_exists]
    intro o
    split
    · simp
    · split <;> simp
  | some v =>
    obtain ⟨record, hrecord⟩ := Option.isSome_iff_exists.mp (record_of_synthesise hsynth)
    simp only [Option.some.injEq, exists_eq_left', hrecord, Option.isSome_some, and_true]
    by_cases hbad : v.reason ≠ .indeterminate ∧ ¬v.recoverable
    · rw [if_pos hbad]
      simp [hbad.1, hbad.2]
    · rw [if_neg hbad]
      simp only [Option.some.injEq, exists_eq', true_iff]
      by_contra hnot
      push Not at hnot
      exact hbad ⟨hnot.2, by simpa using hnot.1⟩

theorem verify_path {e : Text × Put} {o : ObjectRestore} (h : (verify deps r e).2 = some o) :
    o.id = e.1 ∧ o.containerId = e.2.cid ∧ o.name = e.2.name ∧
      o.bucketId = bucketOf r.final.containers e.2.cid := by
  unfold verify at h
  split at h
  · split at h
    · cases h
    · split at h <;> cases h
  · split at h
    · cases h
    · split at h
      · cases h
      · cases h
        exact ⟨rfl, rfl, rfl, rfl⟩

theorem verify_id {e : Text × Put} {o : ObjectRestore} (h : (verify deps r e).2 = some o) :
    o.id = e.1 := (verify_path h).1

/-- An object is written if it is in the namespace and the disks vouch for it, or may. -/
theorem mem_objectWrites {id : Text} :
    id ∈ (objectWrites deps r).map ObjectRestore.id ↔
      id ∈ r.final.objects.keys ∧ Keeps deps r id := by
  simp only [objectWrites, verdicts, List.mem_map, List.mem_filterMap]
  constructor
  · rintro ⟨o, ⟨_, ⟨e, he, rfl⟩, ho⟩, rfl⟩
    have hmem := (deps.pool_perm _).mem_iff.mp he
    rw [verify_id ho]
    exact ⟨List.mem_map_of_mem hmem, verify_writes_iff.mp ⟨o, ho⟩⟩
  · rintro ⟨hid, hkeeps⟩
    obtain ⟨e, he, rfl⟩ := List.mem_map.mp hid
    obtain ⟨o, ho⟩ := verify_writes_iff.mpr hkeeps
    exact ⟨o, ⟨_, ⟨e, (deps.pool_perm _).mem_iff.mpr he, rfl⟩, ho⟩, verify_id ho⟩

/-- Every object of the namespace has one verdict. -/
theorem placements_counted_once :
    countVerdict deps r .restored + countVerdict deps r .missing +
      countVerdict deps r .unrecoverable + countVerdict deps r .indeterminate +
      countVerdict deps r .putDropped = r.final.objects.size := by
  have hlength : (verdicts deps r).length = r.final.objects.size := by
    rw [verdicts, List.length_map, (deps.pool_perm _).length_eq]
    rfl
  rw [← hlength]
  unfold countVerdict
  generalize verdicts deps r = l
  induction l with
  | nil => rfl
  | cons v l ih =>
    simp only [List.countP_cons, List.length_cons, ← ih]
    cases v.1 <;> simp <;> omega

end Objects

/-! ## The database afterwards -/

section Afterwards

variable {ids : ObjectIds α}

theorem foldlM_append_ok {db db' : Database α} {a b : List DatabaseWrite}
    (h : execute ids db (a ++ b) = .ok db') :
    ∃ db₁, execute ids db a = .ok db₁ ∧ execute ids db₁ b = .ok db' := by
  unfold execute at h ⊢
  rw [List.foldlM_append] at h
  cases ha : a.foldlM (write ids) db with
  | error e => simp [ha, bind, Except.bind] at h
  | ok db₁ => exact ⟨db₁, rfl, by simpa [ha, bind, Except.bind] using h⟩

theorem write_container_keys {db db' : Database α} {w : ContainerRestore}
    (h : write ids db (.container w) = .ok db') :
    ∃ id, ids.ofText w.container.id = some id ∧
      ∀ k, k ∈ db'.content.keys ↔ k = id ∨ k ∈ db.content.keys := by
  simp only [write] at h
  cases hc : restoreContainer ids db.content w with
  | error e => simp [hc, Except.map] at h
  | ok c =>
    simp only [hc, Except.map, Except.ok.injEq] at h
    subst h
    exact restoreContainer_keys hc

theorem write_object_keys {db db' : Database α} {o : ObjectRestore}
    (h : write ids db (.object o) = .ok db') :
    ∃ id, ids.ofText o.id = some id ∧
      ∀ k, k ∈ db'.content.keys ↔ k = id ∨ k ∈ db.content.keys := by
  simp only [write] at h
  cases hc : restoreObject ids db.content o with
  | error e => simp [hc, Except.map] at h
  | ok c =>
    simp only [hc, Except.map, Except.ok.injEq] at h
    subst h
    exact restoreObject_keys hc

/-- Rows that are written under ids are there under these ids. -/
theorem execute_keys {β : Type*} (toWrite : β → DatabaseWrite) (idOf : β → Text)
    (hwrite : ∀ (db db' : Database α) b, write ids db (toWrite b) = .ok db' →
      ∃ id, ids.ofText (idOf b) = some id ∧
        ∀ k, k ∈ db'.content.keys ↔ k = id ∨ k ∈ db.content.keys)
    {l : List β} {db db' : Database α} (h : execute ids db (l.map toWrite) = .ok db') :
    (∀ k, k ∈ db.content.keys → k ∈ db'.content.keys) ∧
      ∀ b ∈ l, ∀ k, ids.ofText (idOf b) = some k → k ∈ db'.content.keys := by
  induction l generalizing db with
  | nil =>
    obtain rfl := Except.ok.inj h
    exact ⟨fun k hk => hk, by simp⟩
  | cons b l ih =>
    rw [List.map_cons, ← List.singleton_append] at h
    obtain ⟨db₁, hfirst, hrest⟩ := foldlM_append_ok h
    have hfirst' : write ids db (toWrite b) = .ok db₁ := by
      simpa [execute, bind_pure] using hfirst
    obtain ⟨id, hid, hkeys⟩ := hwrite db db₁ b hfirst'
    obtain ⟨hkept, hwritten⟩ := ih hrest
    refine ⟨fun k hk => hkept k ((hkeys k).mpr (.inr hk)), fun b' hb' k hk => ?_⟩
    rcases List.mem_cons.mp hb' with rfl | hb'
    · obtain rfl : id = k := Option.some.inj (hid.symm.trans hk)
      exact hkept id ((hkeys id).mpr (.inl rfl))
    · exact hwritten b' hb' k hk

/-- What is in the database after an applied restore is what was written, under ids as the
database prints them. -/
theorem execute_applied {deps : RestoreDeps} {r : Rebuilt} {db db' : Database α}
    (h : execute ids db (.beginRestore :: appliedWrites deps r) = .ok db') (k : α) :
    k ∈ db'.content.keys ↔ ids.hex k ∈ keptIds deps r := by
  rw [appliedWrites, ← List.singleton_append] at h
  obtain ⟨db₀, hbegin, h⟩ := foldlM_append_ok h
  obtain ⟨db₂, h, hend⟩ := foldlM_append_ok h
  obtain ⟨db₁, hcontainers, hobjects⟩ := foldlM_append_ok h
  obtain ⟨_, hc⟩ := execute_keys .container (·.container.id)
    (fun _ _ _ => write_container_keys) hcontainers
  obtain ⟨hkeep, ho⟩ := execute_keys .object ObjectRestore.id
    (fun _ _ _ => write_object_keys) hobjects
  have hcontent : db'.content = (pruneOutsideNamespace ids db₂.content (keptIds deps r)).1 := by
    obtain rfl := Except.ok.inj hend
    rfl
  rw [hcontent, mem_keys_prune]
  refine and_iff_right_of_imp fun hkept => ?_
  rcases List.mem_append.mp hkept with hkept | hkept
  · obtain ⟨w, hw, hid⟩ := List.mem_map.mp hkept
    exact hkeep k (hc w hw k (by rw [hid, ids.ofText_hex]))
  · obtain ⟨o, hmem, hid⟩ := List.mem_map.mp hkept
    exact ho o hmem k (by rw [hid, ids.ofText_hex])

end Afterwards

/-- Of the names the snapshot and the journal supply, those are written that the disks vouch
for, or may; a deletion is believed when no slice is left. Every object is counted once. What
the database holds afterwards is what was written under an id as the database prints it, and
a dry run does not write. -/
theorem restore_believes_the_disks (deps : RestoreDeps) (snapshot : Option Text)
    (opts : RestoreOptions) (ids : ObjectIds α) (writes : List DatabaseWrite) (s : RestoreSummary)
    (hrun : run deps snapshot opts = (writes, .ok s)) :
    ∃ used platters r, guards deps snapshot opts = .ok (used, platters) ∧
      rebuild deps used platters opts = .ok r ∧
      (opts.apply → ∀ id, (∃ o, .object o ∈ writes ∧ o.id = id) ↔
        ((r.replayed.objects.get id).isSome ∨
          DeletedBy r.records (Namespace.ofSnapshot r.snapshotContainers r.snapshotObjects) id ∧
            hasAnySlice r.index id) ∧
        ∃ v, synthesise deps r id = some v ∧
          (v.recoverable ∨ v.reason = .indeterminate ∧ v.record.isSome)) ∧
      (∀ id, DeletedBy r.records (Namespace.ofSnapshot r.snapshotContainers r.snapshotObjects) id →
        (id ∉ r.final.objects.keys ↔ ¬hasAnySlice r.index id)) ∧
      s.objectsRestored + s.objectsMissing + s.objectsUnrecoverable + s.objectsIndeterminate +
        s.putsDropped = s.objectsInNamespace ∧
      (opts.apply → ∀ db db' : Database α, execute ids db writes = .ok db' → ∀ k,
        k ∈ db'.content.keys ↔ (∃ w, .container w ∈ writes ∧ w.container.id = ids.hex k) ∨
          ∃ o, .object o ∈ writes ∧ o.id = ids.hex k) ∧
      (¬opts.apply → writes = []) := by
  rcases run_cases deps snapshot opts with ⟨e, h⟩ | ⟨e, h⟩ | ⟨used, platters, r, hguards, hr, h⟩
  · rw [hrun] at h
    cases h
  · rw [hrun] at h
    cases h
  rw [hrun] at h
  obtain ⟨rfl, hs⟩ := Prod.mk.inj h
  obtain rfl := Except.ok.inj hs
  have hdeleted : ∀ id, (r.replayed.deleted.get id).isSome ↔
      DeletedBy r.records (Namespace.ofSnapshot r.snapshotContainers r.snapshotObjects) id := by
    intro id
    rw [replayed_eq hr]
    exact deleted_iff rfl
  refine ⟨used, platters, r, hguards, hr, fun happly id => ?_, fun id hid => ?_,
    placements_counted_once, fun happly db db' hexecute k => ?_, fun hdry => by rw [if_neg hdry]⟩
  · rw [if_pos happly, ← hdeleted, ← mem_final_objects]
    refine Iff.trans ?_ mem_objectWrites
    simp [appliedWrites]
  · rw [mem_final_objects, hdeleted]
    have hapart := (wellKept_replayed hr).apart id ((hdeleted id).mpr hid)
    simp [hapart, hid]
  · rw [if_pos happly] at hexecute ⊢
    rw [execute_applied hexecute, keptIds, List.mem_append]
    simp [appliedWrites]

/-! ### Four objects in a bucket

The first one is on the disks and the second one is not; the others have been deleted, and of
the last one the slices are still there. -/

def photoId (i : Fin 5) : Text := "507f1f77bcf86cd79943902".toList ++ [Nat.digitChar i]

def photoIds : ObjectIds (Fin 5) where
  hex := photoId
  ofText t := (List.finRange 5).find? fun i => photoId i = t.map Char.toLower
  ofText_hex := by decide
  hex_ne_nil := by decide

def albumLine : Text :=
  "\x7b\"op\":\"container\",\"id\":\"".toList ++ photoId 0 ++
    "\",\"cid\":null,\"name\":\"photos\"\x7d".toList

def albumRecord : RawRecord :=
  SnapshotWriter.containerRecord photoIds ⟨0, none, .text "photos".toList, noFlags⟩

def photoName (i : Fin 5) : Text := [Nat.digitChar i] ++ ".jpg".toList

def photoLine (i : Fin 5) : Text :=
  "\x7b\"op\":\"put\",\"id\":\"".toList ++ photoId i ++ "\",\"cid\":\"".toList ++ photoId 0 ++
    "\",\"name\":\"".toList ++ photoName i ++
    "\",\"mime\":null,\"md5\":null,\"size\":1000,\"cs\":16384\x7d".toList

def photoRecord (i : Fin 5) : RawRecord :=
  SnapshotWriter.putRecord photoIds
    ⟨i, some 0, .text (photoName i), .null, .null, 1000, 16384⟩

def deletedLine (i : Fin 5) : Text :=
  "\x7b\"op\":\"del\",\"ts\":\"2026-07-01T00:00:00.000Z\",\"id\":\"".toList ++ photoId i ++
    "\"\x7d".toList

def thirdDeleted : Text := deletedLine 3

def fourthDeleted : Text := deletedLine 4

def deletedRecord (i : Fin 5) : RawRecord :=
  { SnapshotWriter.RawRecord.empty .del with id := .text (photoId i) }

def albumLines : List Text := albumLine :: [1, 2, 3, 4].map photoLine

def albumDigest : Text :=
  "24fd07c58e0b7cce39449cef24cced8e0f702e56da688d5fe1b28b6a323b78a7".toList

def albumTrailer : Text :=
  "\x7b\"op\":\"end\",\"containers\":1,\"objects\":4,\"sha256\":\"".toList ++
    albumDigest ++ "\"\x7d".toList

/-- `JSON.parse` on these lines. -/
def albumParse (line : Text) : Parsed :=
  match ([(albumLine, albumRecord), (albumTrailer, SnapshotWriter.endRecord 1 4 albumDigest)] ++
      [1, 2, 3, 4].map (fun i => (photoLine i, photoRecord i)) ++
      [3, 4].map fun i => (deletedLine i, deletedRecord i)).lookup line with
  | some r => .record r
  | none => .unparseable

def slotsOf (n : ℕ) : Slots := Vector.ofFn fun i => if i.val < n then i.val + 2 else 0

def albumDeps : RestoreDeps :=
  { bareDeps with
    parse := albumParse
    sha256 := fun t => if t = (albumLines.map newline).flatten then albumDigest else []
    platters := some [1, 2, 3, 4, 5, 6]
    fetchSnapshot := fun _ => some (albumLines ++ [albumTrailer])
    journalSegments := fun _ => some [[thirdDeleted, fourthDeleted, []]]
    sliceIndex := some fun t => if t = photoId 1 ∨ t = photoId 4 then some (slotsOf 6) else none
    contents := fun t v i =>
      if (t = photoId 1 ∨ t = photoId 4) ∧ v = i + 1 ∧ i < 6 then .fields ⟨t, 1000, 4, 2, i, 16384⟩
      else .absent }

def albumSummary : RestoreSummary where
  containers := 1
  objectsInNamespace := 3
  objectsRestored := 2
  objectsMissing := 1
  objectsUnrecoverable := 0
  objectsIndeterminate := 0
  policiesDeclined := 0
  snapshotUsed := []
  fellBackToPrevious := false
  delsIgnored := 1
  putsDropped := 0

def albumWrites : List DatabaseWrite := (run albumDeps (some []) applied).1

def noPhotos : Database (Fin 5) := ⟨Table.empty, false, true, 0⟩

theorem restore_believes_the_disks_album :
    (∃ platters r, rebuild albumDeps [] platters applied = .ok r ∧
      (∃ o, .object o ∈ albumWrites ∧ o.id = photoId 1) ∧
      (¬∃ o, .object o ∈ albumWrites ∧ o.id = photoId 2) ∧
      (∀ i ∈ [3, 4], DeletedBy r.records
        (Namespace.ofSnapshot r.snapshotContainers r.snapshotObjects) (photoId i)) ∧
      photoId 3 ∉ r.final.objects.keys ∧ photoId 4 ∈ r.final.objects.keys) ∧
    albumSummary.objectsRestored + albumSummary.objectsMissing +
        albumSummary.objectsUnrecoverable + albumSummary.objectsIndeterminate +
        albumSummary.putsDropped = albumSummary.objectsInNamespace ∧
      ∃ db, execute photoIds noPhotos albumWrites = .ok db ∧ db.content.keys = [0, 1, 4] ∧
        ∀ k, k ∈ db.content.keys ↔
          (∃ w, .container w ∈ albumWrites ∧ w.container.id = photoId k) ∨
            ∃ o, .object o ∈ albumWrites ∧ o.id = photoId k := by
  have hrun : run albumDeps (some []) applied = (albumWrites, .ok albumSummary) := by
    decide +kernel
  obtain ⟨used, platters, r, hguards, hr, hwritten, hdeleted, hcounted, hafter, -⟩ :=
    restore_believes_the_disks albumDeps (some []) applied photoIds albumWrites albumSummary hrun
  obtain ⟨rfl, rfl⟩ := Prod.mk.inj (Except.ok.inj hguards)
  obtain ⟨_, _, _, _, _, _, _, hindex, hplatters⟩ := rebuild_ok hr
  have hslices := (Option.some.inj hindex).symm
  have hknown : (rebuild albumDeps [] [1, 2, 3, 4, 5, 6] applied).toOption.map
      (fun r => (r.replayed.objects.keys, r.replayed.deleted.keys)) =
        some ([photoId 1, photoId 2], [photoId 3, photoId 4]) := by decide +kernel
  rw [hr] at hknown
  obtain ⟨hobjects, hgone⟩ := Prod.mk.inj (Option.some.inj hknown)
  have hfirst : (synthesise albumDeps r (photoId 1)).any fun v => decide v.recoverable := by
    rw [synthesise, hslices, hplatters]
    decide +kernel
  have hsecond : synthesise albumDeps r (photoId 2) = none := by
    rw [synthesise, hslices, hplatters]
    decide +kernel
  have hdel : ∀ i ∈ [3, 4], DeletedBy r.records
      (Namespace.ofSnapshot r.snapshotContainers r.snapshotObjects) (photoId i) := by
    intro i hi
    have hkey : photoId i ∈ r.replayed.deleted.keys := by
      rw [hgone]
      exact List.mem_map_of_mem (f := photoId) hi
    refine (deleted_iff rfl).mp ?_
    rw [← replayed_eq hr]
    exact mem_keys_iff.mp hkey
  refine ⟨⟨_, r, hr, ?_, ?_, hdel, ?_, ?_⟩, hcounted, ?_⟩
  · obtain ⟨v, hv, hrecoverable⟩ := (Option.any_eq_true _ _).mp hfirst
    refine (hwritten rfl (photoId 1)).mpr ⟨.inl (mem_keys_iff.mp ?_), v, hv, .inl ?_⟩
    · rw [hobjects]
      exact List.mem_cons_self
    · exact of_decide_eq_true hrecoverable
  · intro h
    obtain ⟨-, v, hv, -⟩ := (hwritten rfl (photoId 2)).mp h
    rw [hsecond] at hv
    cases hv
  · refine (hdeleted _ (hdel 3 (by decide))).mpr ?_
    rw [hslices]
    decide +kernel
  · by_contra hnot
    refine (hdeleted _ (hdel 4 (by decide))).mp hnot ?_
    rw [hslices]
    decide +kernel
  · have hkeys : (execute photoIds noPhotos albumWrites).toOption.map (·.content.keys) =
        some [0, 1, 4] := by decide +kernel
    cases hexecute : execute photoIds noPhotos albumWrites with
    | error e =>
      rw [hexecute] at hkeys
      cases hkeys
    | ok db =>
      rw [hexecute] at hkeys
      exact ⟨db, rfl, Option.some.inj hkeys, hafter rfl noPhotos db hexecute⟩

/-! ### A container under an id in capitals -/

def emptyDatabase : Database Unit := ⟨Table.empty, false, true, 0⟩

def capitalId : Text := "507F1F77BCF86CD799439011".toList

def capitalLine : Text :=
  ("\x7b\"op\":\"container\",\"id\":\"507F1F77BCF86CD799439011\",\"cid\":null," ++
    "\"name\":\"photos\"\x7d").toList

def nothingDigest : Text :=
  "e3b0c44298fc1c149afbf4c8996fb92427ae41e4649b934ca495991b7852b855".toList

def nothingTrailer : Text :=
  "\x7b\"op\":\"end\",\"containers\":0,\"objects\":0,\"sha256\":\"".toList ++
    nothingDigest ++ "\"\x7d".toList

/-- An empty snapshot, and a journal with a container under an id in capitals. -/
def capitalDeps : RestoreDeps :=
  { bareDeps with
    parse := fun line =>
      if line = capitalLine then
        .record { SnapshotWriter.containerRecord SnapshotWriter.bucketIds
          (SnapshotWriter.bucketRow "photos") with id := .text capitalId }
      else if line = nothingTrailer then .record (SnapshotWriter.endRecord 0 0 nothingDigest)
      else .unparseable
    sha256 := fun _ => nothingDigest
    fetchSnapshot := fun _ => some [nothingTrailer]
    journalSegments := fun _ => some [[capitalLine, []]] }

/-- The container is written, and its row is taken out again. -/
theorem capital_pruned :
    (run capitalDeps (some []) applied).1.contains
        (.container ⟨⟨capitalId, none, "photos".toList, noFlags⟩, some capitalId⟩) = true ∧
      (execute SnapshotWriter.bucketIds emptyDatabase
        (run capitalDeps (some []) applied).1).toOption.map
        (fun db => (db.content.keys, db.rowsPruned)) = some ([], 1) := by
  decide +kernel

/-! ## Silence is not loss -/

section Silence

variable {deps : RestoreDeps} {r : Rebuilt}

theorem verify_keeps_name {id : Text} {named : Put} {v : Synthesised}
    (hsynth : synthesise deps r id = some v) (hv : v.Favourable) :
    ∃ o, (verify deps r (id, named)).2 = some o ∧ o.id = id ∧ o.name = named.name := by
  obtain ⟨record, hrecord⟩ := Option.isSome_iff_exists.mp (record_of_synthesise hsynth)
  have hgood : ¬(v.reason ≠ .indeterminate ∧ ¬v.recoverable) := by
    rintro ⟨hreason, hrecoverable⟩
    rcases hv with hv | hv
    · exact hrecoverable hv
    · exact hreason hv
  refine ⟨objectRestore r id named record, ?_, rfl, rfl⟩
  unfold verify
  simp only [hsynth, if_neg hgood, hrecord]

/-- Slices that can be read or do not answer, as many as are needed, keep an object's name if
its shape leads the vote of the indexed headers and is not a lone header's, or if no indexed
header can be read and the silent ones would reach the quorum of the fleet. -/
theorem silence_is_not_loss (deps : RestoreDeps) (r : Rebuilt) (id : Text) (named : Put)
    (slots : Slots) (s : Shape) (hslots : r.index id = some slots)
    (hreach : s.dataSliceCount ≤ reach id (deps.contents id) r.platters s) :
    (Leads id (mountedOn r.platters) (deps.contents id) slots s →
      ((∃ v, synthesise deps r id = some v ∧ v.Favourable) ↔
        2 ≤ s.dataSliceCount ∨
          2 ≤ (backers id (mountedOn r.platters) (deps.contents id) slots s).length ∨
          ∃ i ∈ unreadableSlices (mountedOn r.platters) (deps.contents id) slots, i < s.total)) ∧
    (readable id (mountedOn r.platters) (deps.contents id) slots = 0 →
      ((∃ v, synthesise deps r id = some v ∧ v.Favourable) ↔
        unreadableSlices (mountedOn r.platters) (deps.contents id) slots ≠ [] ∧
          deps.fleetGeometry.dataSlices ≤
            ((unreadableSlices (mountedOn r.platters) (deps.contents id) slots).filter
              (· < deps.fleetGeometry.dataSlices + deps.fleetGeometry.paritySlices)).length)) ∧
    ((∃ v, synthesise deps r id = some v ∧ v.Favourable) →
      ∃ o, (verify deps r (id, named)).2 = some o ∧ o.id = id ∧ o.name = named.name) := by
  refine ⟨fun hleads => ?_, fun hreadable => ?_, fun ⟨v, hsynth, hv⟩ => verify_keeps_name hsynth hv⟩
  · unfold synthesise
    rw [hslots, synthesise_of_leads hleads]
    simp only [Option.some.injEq, exists_eq_left']
    rw [synthesiseShape_favourable_iff hleads.1]
    exact and_iff_right hreach
  · unfold synthesise
    rw [hslots, synthesise_of_unread hreadable, synthesiseUnread_favourable_iff]
    simp

/-! ### An object with four slices on disks that do not answer -/

def objectId : Text := "60c72b2f9b1d8e001c8e4d5a".toList

def shape : Shape := ⟨1000, 4, 2, 16384⟩

/-- Slice `i` is on disk `i + 1`, and all but the first two disks are silent. The second slice
says that the object has `size` bytes. -/
def silentContents (size : ℤ) (v i : ℕ) : SliceContents :=
  if v = i + 1 ∧ i < 6 then
    if i = 0 then .fields ⟨objectId, 1000, 4, 2, 0, 16384⟩
    else if i = 1 then .fields ⟨objectId, size, 4, 2, 1, 16384⟩
    else .unreadable
  else .absent

/-- One slice of an object that needs one slice. -/
def loneContents (v i : ℕ) : SliceContents :=
  if v = 1 ∧ i = 0 then .fields ⟨objectId, 1000, 1, 1, 0, 16384⟩ else .absent

def disksOnly (slots : Slots) : Rebuilt :=
  ⟨[], false, Table.empty, Table.empty, [], Namespace.ofSnapshot Table.empty Table.empty,
    fun _ => some slots, [1, 2, 3, 4, 5, 6]⟩

def named : Put := ⟨objectId, none, "cat.jpg".toList, .null, .null, 1000, 16384⟩

def silentDeps (size : ℤ) : RestoreDeps :=
  { bareDeps with contents := fun _ => silentContents size }

theorem silence_is_not_loss_silent :
    (∃ v, synthesise (silentDeps 1000) (disksOnly (slotsOf 6)) objectId = some v ∧ v.Favourable) ∧
      ∃ o, (verify (silentDeps 1000) (disksOnly (slotsOf 6)) (objectId, named)).2 = some o ∧
        o.id = objectId ∧ o.name = named.name := by
  obtain ⟨hleads, _, hname⟩ := silence_is_not_loss (silentDeps 1000) (disksOnly (slotsOf 6))
    objectId named (slotsOf 6) shape rfl (by decide +kernel)
  have hranked : rankVotes (countVotes objectId (mountedOn [1, 2, 3, 4, 5, 6]) (silentContents 1000)
      (slotsOf 6)) = [(shape, ⟨⟨objectId, shape, 0⟩, [2, 1], 2⟩)] := by decide +kernel
  have hgood := (hleads ((leads_iff_no_tie hranked).mp (by decide))).mpr (.inl (by decide))
  exact ⟨hgood, hname hgood⟩

/-- Two headers that disagree hide the four slices on silent disks, and a lone header is not
believed although its one slice would do. -/
theorem silence_lost :
    (good objectId (silentContents 999) [1, 2, 3, 4, 5, 6] shape 0 ∧
      shape.dataSliceCount ≤ reach objectId (silentContents 999) [1, 2, 3, 4, 5, 6] shape ∧
      synthesise (silentDeps 999) (disksOnly (slotsOf 6)) objectId = none ∧
      verify (silentDeps 999) (disksOnly (slotsOf 6)) (objectId, named) = (.unrecoverable, none)) ∧
    good objectId loneContents [1, 2, 3, 4, 5, 6] ⟨1000, 1, 1, 16384⟩ 0 ∧
      1 ≤ reach objectId loneContents [1, 2, 3, 4, 5, 6] ⟨1000, 1, 1, 16384⟩ ∧
      (synthesise { bareDeps with contents := fun _ => loneContents } (disksOnly (slotsOf 1))
        objectId).map Synthesised.reason = some .uncorroboratedGeometry := by
  decide +kernel

end Silence

end NamespaceRestore
