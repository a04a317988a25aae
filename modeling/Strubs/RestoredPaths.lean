import Strubs.LiveNamespace
import Strubs.NamespaceRestore

/-! # The paths of a restored namespace

A running array has one row for a path. A restore keeps names that have no row any more, as long
as something on the disks or in the journal stands for them. -/
namespace RestoredPaths

open InsertionMap NamespaceRecord ContentRepository NamespaceReplay NamespaceRestore StateMachine
open LiveNamespace hiding Snapshot State
open SnapshotFile (Parsed loadSnapshot)
open SnapshotWriter (readLines writeTo fileRecords)

variable {α : Type*} [DecidableEq α] (ids : ObjectIds α)

/-- A restore that reads one of the snapshots of a run, and the journal of the run. -/
structure Reads (s : LiveNamespace.State α) (sn : LiveNamespace.Snapshot α) (deps : RestoreDeps)
    (snapshot : Text) (opts : RestoreOptions) : Prop where
  blank : deps.parse [] = .unparseable
  snapshot : ∃ used fellBack stringify file stats,
    fetch deps snapshot opts = .ok (used, fellBack, readLines file) ∧
    writeTo ids deps.sha256 stringify sn.containers sn.objects = .ok (file, stats) ∧
    ∀ r ∈ fileRecords ids sn.containers sn.objects stats, deps.parse (stringify r) = .record r
  journal : ∃ chunks : List (List (Text × Record)),
    deps.journalSegments opts.force = some (chunks.map segmentLines) ∧
    chunks.flatten.map Prod.snd = s.journal ∧
    ∀ e ∈ chunks.flatten, deps.parse e.1 = .record (rawRecord e.2)

/-- A container that was not taken back, and an object that is on the disks. -/
def Stands (s : LiveNamespace.State α) (sn : LiveNamespace.Snapshot α) (deps : RestoreDeps)
    (r : Rebuilt) (id : α) : Kind → Prop
  | .container =>
    (id ∈ sn.containerIds ∨ ∃ c, .container c ∈ s.journal ∧ c.id = ids.hex id) ∧
      .del (ids.hex id) ∉ s.journal
  | .file =>
    (id ∈ sn.objects.map ObjectRow.id ∨ ∃ p, .put p ∈ s.journal ∧ p.id = ids.hex id) ∧
      Keeps deps r (ids.hex id)

/-- Nothing that stands without a row has its path in common with anything else that stands. -/
def Unambiguous (s : LiveNamespace.State α) (sn : LiveNamespace.Snapshot α) (deps : RestoreDeps)
    (r : Rebuilt) : Prop :=
  ∀ i j o o', s.given.get i = some o → s.given.get j = some o' → i ≠ j →
    o.containerId = o'.containerId → o.name = o'.name → s.rows.get i = none →
    Stands ids s sn deps r i o.kind → ¬Stands ids s sn deps r j o'.kind

/-- The parent and the name of what a write is about. -/
def path : DatabaseWrite → Option (Option Text × Text)
  | .container w => some (w.container.cid, w.container.name)
  | .object o => some (o.containerId, o.name)
  | _ => none

/-- No row is in the way of a write about another id. -/
def Clear (c : Collection α) (writes : List DatabaseWrite) : Prop :=
  ∀ id d name, c.get id = some d → d.name = .text name → ∀ w ∈ writes,
    path w = some (d.containerId.map ids.hex, name) →
      (∃ r, w = .container r ∧ r.container.id = ids.hex id) ∨ ∃ r, w = .object r ∧ r.id = ids.hex id

variable {ids}

/-! ## What the replay knows -/

section Replayed

/-- Something was made under this id, with this name. -/
def Names (ids : ObjectIds α) (given : Table α (Origin α)) (kind : Kind) (t : Text)
    (cid : Option Text) (name : Text) : Prop :=
  ∃ id o, given.get id = some o ∧ o.kind = kind ∧ t = ids.hex id ∧
    cid = o.containerId.map ids.hex ∧ name = o.name

structure Agrees (ids : ObjectIds α) (given : Table α (Origin α)) (ns : Namespace) : Prop where
  containers : ∀ t c, ns.containers.get t = some c → Names ids given .container t c.cid c.name
  objects : ∀ t p, ns.objects.get t = some p → Names ids given .file t p.cid p.name
  deleted : ∀ t p, ns.deleted.get t = some p → Names ids given .file t p.cid p.name

variable {given : Table α (Origin α)}

theorem Agrees.applyRecord {ns : Namespace} (h : Agrees ids given ns) {r : Record}
    (hr : Fits ids given r) : Agrees ids given (NamespaceReplay.applyRecord ns r) := by
  have hcontainers : ∀ t c, (NamespaceReplay.applyRecord ns r).containers.get t = some c →
      Names ids given .container t c.cid c.name := by
    intro t c hc
    rw [containers_applyRecord] at hc
    cases r with
    | container c' =>
      simp only at hc
      split at hc
      · next hid =>
        obtain ⟨id, o, ho, hkind, rfl⟩ := hr
        obtain rfl := Option.some.inj hc
        exact ⟨id, o, ho, hkind, hid, rfl, rfl⟩
      · exact h.containers t c hc
    | put p => exact h.containers t c hc
    | policy id' want =>
      simp only at hc
      split at hc
      · obtain ⟨b, hb, rfl⟩ := Option.map_eq_some_iff.mp hc
        exact h.containers t b hb
      · exact h.containers t c hc
    | del id' =>
      simp only at hc
      split at hc
      · cases hc
      · exact h.containers t c hc
  refine ⟨hcontainers, ?_, ?_⟩
  · intro t p hp
    cases r with
    | container c => exact h.objects t p hp
    | policy id' want =>
      simp only [NamespaceReplay.applyRecord] at hp
      split at hp <;> exact h.objects t p hp
    | put p' =>
      simp only [NamespaceReplay.applyRecord, get_set] at hp
      split at hp
      · next hid =>
        obtain ⟨id, o, ho, hkind, hpid, hcid, hname⟩ := hr
        obtain rfl := Option.some.inj hp
        exact ⟨id, o, ho, hkind, hid.trans hpid, hcid, hname⟩
      · exact h.objects t p hp
    | del id' =>
      simp only [NamespaceReplay.applyRecord] at hp
      split at hp
      · exact h.objects t p hp
      · split at hp
        · exact h.objects t p hp
        · rw [get_erase] at hp
          split at hp
          · cases hp
          · exact h.objects t p hp
  · intro t p hp
    cases r with
    | container c => exact h.deleted t p hp
    | policy id' want =>
      simp only [NamespaceReplay.applyRecord] at hp
      split at hp <;> exact h.deleted t p hp
    | put p' =>
      simp only [NamespaceReplay.applyRecord, get_erase] at hp
      split at hp
      · cases hp
      · exact h.deleted t p hp
    | del id' =>
      simp only [NamespaceReplay.applyRecord] at hp
      split at hp
      · exact h.deleted t p hp
      · split at hp
        · exact h.deleted t p hp
        · next named hnamed =>
          rw [get_set] at hp
          split at hp
          · next hid =>
            obtain rfl := Option.some.inj hp
            exact h.objects t named (hid ▸ hnamed)
          · exact h.deleted t p hp

theorem Agrees.foldl {ns : Namespace} (h : Agrees ids given ns) {records : List Record}
    (hrecords : ∀ r ∈ records, Fits ids given r) :
    Agrees ids given (records.foldl NamespaceReplay.applyRecord ns) := by
  induction records generalizing ns with
  | nil => exact h
  | cons r records ih =>
    obtain ⟨hr, hrecords⟩ := List.forall_mem_cons.mp hrecords
    exact ih (h.applyRecord hr) hrecords

end Replayed

/-! ## What a restore of a run has -/

section Restored

variable {s : LiveNamespace.State α} {sn : LiveNamespace.Snapshot α} {deps : RestoreDeps}
  {r : Rebuilt} {snapshot : Text} {opts : RestoreOptions} {platters : List ℕ}

/-- What is rebuilt from a snapshot of a run and its journal. -/
structure Restored (ids : ObjectIds α) (s : LiveNamespace.State α) (sn : LiveNamespace.Snapshot α)
    (r : Rebuilt) : Prop where
  wellKept : r.replayed.WellKept
  agrees : Agrees ids s.given r.replayed
  containers : ∀ id, (r.replayed.containers.get (ids.hex id)).isSome ↔
    (id ∈ sn.containerIds ∨ ∃ c, .container c ∈ s.journal ∧ c.id = ids.hex id) ∧
      .del (ids.hex id) ∉ s.journal
  objects : ∀ id, ((r.replayed.objects.get (ids.hex id)).isSome ∨
      (r.replayed.deleted.get (ids.hex id)).isSome) ↔
    id ∈ sn.objects.map ObjectRow.id ∨ ∃ p, .put p ∈ s.journal ∧ p.id = ids.hex id

theorem rebuild_from {used : Text} {fellBack : Bool} {lines : List Text}
    {containers : Table Text Container} {objects : Table Text Put} {segments : List (List Text)}
    (hfetch : fetch deps snapshot opts = .ok (used, fellBack, lines))
    (hload : loadSnapshot deps.parse deps.sha256 lines = .ok (containers, objects))
    (hjournal : deps.journalSegments opts.force = some segments)
    (h : rebuild deps snapshot platters opts = .ok r) :
    replay deps.parse segments (.ofSnapshot containers objects) = .ok r.replayed := by
  unfold rebuild at h
  simp only [hfetch, hload, hjournal, bind, Except.bind, Except.mapError] at h
  cases hreplay : replay deps.parse segments (.ofSnapshot containers objects) with
  | error e => simp [hreplay] at h
  | ok replayed =>
    simp only [hreplay] at h
    split at h
    · cases h
    · rw [← Except.ok.inj h]

theorem agrees_loaded (h : Invariant ids s) (hsn : sn ∈ s.snapshots)
    {containers : Table Text Container} {objects : Table Text Put}
    (hcontainers : ∀ t c, containers.get t = some c ↔
      ∃ row ∈ sn.containers, t = ids.hex row.id ∧ c = SnapshotWriter.loadedContainer ids row)
    (hobjects : ∀ t p, objects.get t = some p ↔
      ∃ row ∈ sn.objects, t = ids.hex row.id ∧ p = SnapshotWriter.loadedPut ids row) :
    Agrees ids s.given (.ofSnapshot containers objects) := by
  have hfits := h.snapshots sn hsn
  refine ⟨fun t c hc => ?_, fun t p hp => ?_, fun t p hp => by cases hp⟩
  · obtain ⟨row, hrow, rfl, rfl⟩ := (hcontainers t c).mp hc
    obtain ⟨o, ho, hkind, hcid, hname⟩ := hfits.containers row hrow
    refine ⟨row.id, o, ho, hkind, rfl, by simp [SnapshotWriter.loadedContainer, hcid], ?_⟩
    simp [SnapshotWriter.loadedContainer, hname, SnapshotWriter.ofValue, Value.nonEmptyText?,
      h.named _ _ ho]
  · obtain ⟨row, hrow, rfl, rfl⟩ := (hobjects t p).mp hp
    obtain ⟨o, ho, hkind, hcid, hname⟩ := hfits.objects row hrow
    refine ⟨row.id, o, ho, hkind, rfl, by simp [SnapshotWriter.loadedPut, hcid], ?_⟩
    simp [SnapshotWriter.loadedPut, hname, SnapshotWriter.ofValue, Value.nonEmptyText?,
      h.named _ _ ho]

theorem restored_of_reads (h : Invariant ids s) (hsn : sn ∈ s.snapshots)
    (hreads : Reads ids s sn deps snapshot opts)
    (hr : rebuild deps snapshot platters opts = .ok r) : Restored ids s sn r := by
  have hfits := h.snapshots sn hsn
  obtain ⟨used, fellBack, stringify, file, stats, hfetch, hwrite, hfile⟩ := hreads.snapshot
  obtain ⟨chunks, hsegments, hchunks, hjournal⟩ := hreads.journal
  obtain ⟨containers, objects, hload, hcontainers, hobjects⟩ := SnapshotWriter.load_written
    hfits.containersOnce hfits.objectsOnce hwrite hreads.blank hfile (fits_named h hfits)
  have hnamed : ∀ e ∈ chunks.flatten, e.2.id ≠ [] ∧ LiveNamespace.Named e.2 :=
    fun e he => h.readable (hchunks ▸ List.mem_map_of_mem he)
  obtain ⟨hrecords, hreadable⟩ := records_written hnamed hjournal hreads.blank
  have hreplayed : r.replayed = s.journal.foldl applyRecord (.ofSnapshot containers objects) := by
    rw [← hchunks, ← hrecords]
    exact replay_eq (rebuild_from hfetch hload hsegments hr)
  refine ⟨wellKept_replayed hr, ?_, fun id => ?_, fun id => ?_⟩
  · rw [hreplayed]
    exact (agrees_loaded h hsn hcontainers hobjects).foldl h.journal
  · rw [hreplayed, isSome_containers_foldl_iff fun before c after heq hid =>
      hid ▸ h.first before c after heq, LiveNamespace.Snapshot.containerIds,
      ← SnapshotWriter.mem_loaded_iff hcontainers id]
    rfl
  · rw [hreplayed, objects_foldl_iff, ← SnapshotWriter.mem_loaded_iff hobjects id]
    simp [Namespace.ofSnapshot]

theorem hasAnySlice_of_keeps {t : Text} (h : Keeps deps r t) : hasAnySlice r.index t := by
  obtain ⟨v, hv, _⟩ := h
  by_contra hnone
  unfold synthesise at hv
  cases hslots : r.index t with
  | none => simp [hslots, RecordSynthesis.synthesiseRecordFromIndex] at hv
  | some slots =>
    have hempty : RecordSynthesis.present slots = [] := by
      rw [List.eq_nil_iff_forall_not_mem]
      intro i hi
      rw [RecordSynthesis.mem_present, RecordSynthesis.slot] at hi
      cases hget : slots[i]? with
      | none => simp [hget] at hi
      | some v' =>
        refine hnone ?_
        simp only [hasAnySlice, hslots, List.any_eq_true, decide_eq_true_eq]
        exact ⟨v', Vector.mem_toList_iff.mpr (Vector.mem_of_getElem? hget),
          by simpa [hget] using hi⟩
    rw [hslots, RecordSynthesis.synthesise_of_unread (by simp [RecordSynthesis.readable, hempty])]
      at hv
    simp [RecordSynthesis.synthesiseUnread, RecordSynthesis.unreadableSlices, hempty] at hv

theorem get_final_objects {t : Text} {p : Put} (h : r.final.objects.get t = some p) :
    r.replayed.objects.get t = some p ∨ r.replayed.deleted.get t = some p := by
  have hfold : ∀ (l : List (Text × Put)) (objects : Table Text Put),
      (l.foldl (fun objects e => objects.set e.1 e.2) objects).get t = some p →
        objects.get t = some p ∨ (t, p) ∈ l := by
    intro l
    induction l with
    | nil => exact fun _ h => .inl h
    | cons e l ih =>
      intro objects h
      rcases ih _ h with h | h
      · rw [get_set] at h
        split at h
        · next hid =>
          obtain rfl := Option.some.inj h
          exact .inr (by simp [hid])
        · exact .inl h
      · exact .inr (List.mem_cons_of_mem _ h)
  rcases hfold _ _ h with h | h
  · exact .inl h
  · exact .inr (get_eq_some_iff.mpr (List.mem_of_mem_filter h))

/-- The container or object that a write is about. -/
def key : DatabaseWrite → Option Text
  | .container w => some w.container.id
  | .object o => some o.id
  | _ => none

/-- The writes that give names. -/
def naming (deps : RestoreDeps) (r : Rebuilt) : List DatabaseWrite :=
  (containerWrites r).map .container ++ (objectWrites deps r).map .object

/-- A write names what stands. -/
theorem stands_of_mem_naming (h : Restored ids s sn r) {w : DatabaseWrite}
    (hw : w ∈ naming deps r) :
    ∃ id o, s.given.get id = some o ∧ Stands ids s sn deps r id o.kind ∧
      key w = some (ids.hex id) ∧ path w = some (o.containerId.map ids.hex, o.name) := by
  rcases List.mem_append.mp hw with hw | hw
  · obtain ⟨c, hc, rfl⟩ := List.mem_map.mp hw
    have hget := mem_containerWrites h.wellKept hc
    obtain ⟨id, o, ho, hkind, hid, hcid, hname⟩ := h.agrees.containers _ _ hget
    refine ⟨id, o, ho, ?_, by rw [key, hid], by rw [path, hcid, hname]⟩
    rw [hkind]
    refine (h.containers id).mp ?_
    rw [← hid, hget]
    rfl
  · obtain ⟨w', hw', rfl⟩ := List.mem_map.mp hw
    simp only [objectWrites, verdicts, List.mem_filterMap, List.mem_map] at hw'
    obtain ⟨_, ⟨e, he, rfl⟩, hverify⟩ := hw'
    have hget := get_eq_some_iff.mpr ((deps.pool_perm _).mem_iff.mp he)
    obtain ⟨hkey, hcid, hname, _⟩ := verify_path hverify
    have hnames : Names ids s.given .file e.1 e.2.cid e.2.name := by
      rcases get_final_objects hget with hp | hp
      · exact h.agrees.objects _ _ hp
      · exact h.agrees.deleted _ _ hp
    obtain ⟨id, o, ho, hkind, hid, hcid', hname'⟩ := hnames
    refine ⟨id, o, ho, ?_, by rw [key, hkey, hid], by rw [path, hcid, hname, hcid', hname']⟩
    rw [hkind]
    refine ⟨(h.objects id).mp ?_, hid ▸ verify_writes_iff.mp ⟨w', hverify⟩⟩
    rw [← hid]
    rcases get_final_objects hget with hp | hp
    · exact .inl (by rw [hp]; rfl)
    · exact .inr (by rw [hp]; rfl)

/-- What stands is named. -/
theorem mem_naming_of_stands (h : Restored ids s sn r) {id : α} {kind : Kind}
    (hstands : Stands ids s sn deps r id kind) :
    ∃ w ∈ naming deps r, key w = some (ids.hex id) := by
  cases kind with
  | container =>
    obtain ⟨c, hc⟩ := Option.isSome_iff_exists.mp ((h.containers id).mpr hstands)
    have hmem : c ∈ r.orderedContainers :=
      (ordered_perm h.wellKept).mem_iff.mpr (mem_values_iff.mpr ⟨_, hc⟩)
    refine ⟨_, List.mem_append_left _ (List.mem_map_of_mem (List.mem_map_of_mem hmem)), ?_⟩
    rw [key, h.wellKept.containers _ _ hc]
  | file =>
    obtain ⟨hnamed, hkeeps⟩ := hstands
    have hfinal : ids.hex id ∈ r.final.objects.keys := by
      rw [mem_final_objects]
      exact ((h.objects id).mpr hnamed).imp_right fun hdeleted =>
        ⟨hdeleted, hasAnySlice_of_keeps hkeeps⟩
    obtain ⟨w, hw, hid⟩ := List.mem_map.mp (mem_objectWrites.mpr ⟨hfinal, hkeeps⟩)
    exact ⟨_, List.mem_append_right _ (List.mem_map_of_mem hw), by rw [key, hid]⟩

/-- Nothing is named twice. -/
theorem nodup_keys_naming (h : Restored ids s sn r) : ((naming deps r).map key).Nodup := by
  have hcontainers : ((containerWrites r).map (·.container.id)).Nodup := by
    have hperm := (ordered_perm h.wellKept).map Container.id
    have hids : ((containerWrites r).map (·.container.id)) =
        r.orderedContainers.map Container.id := by
      rw [containerWrites, List.map_map]
      rfl
    rw [hids, hperm.nodup_iff, values_ids h.wellKept]
    exact nodup_keys _
  have hobjects : ((objectWrites deps r).map ObjectRestore.id).Nodup := by
    have hpool : ((deps.pool r.final.objects.entries).map Prod.fst).Nodup :=
      ((deps.pool_perm _).map _).nodup_iff.mpr r.final.objects.nodup
    have hsublist : ∀ l : List (Text × Put), List.Sublist
        ((((l.map (verify deps r)).filterMap Prod.snd)).map ObjectRestore.id) (l.map Prod.fst) := by
      intro l
      induction l with
      | nil => exact List.Sublist.refl _
      | cons e l ih =>
        rw [List.map_cons, List.filterMap_cons]
        split
        · exact ih.cons _
        · next o ho =>
          rw [List.map_cons, List.map_cons, verify_id ho]
          exact ih.cons_cons _
    exact hpool.sublist (hsublist _)
  unfold naming
  rw [List.map_append, List.map_map, List.map_map, List.nodup_append]
  refine ⟨?_, ?_, ?_⟩
  · have := hcontainers.map (Option.some_injective _)
    rwa [List.map_map] at this
  · have := hobjects.map (Option.some_injective _)
    rwa [List.map_map] at this
  · intro k hk k' hk' heq
    obtain ⟨w, hw, rfl⟩ := List.mem_map.mp hk
    obtain ⟨o, ho, rfl⟩ := List.mem_map.mp hk'
    have hid : w.container.id = o.id := Option.some.inj heq
    obtain ⟨i, oi, hi, hkind, hhex, _⟩ :=
      h.agrees.containers _ _ (mem_containerWrites h.wellKept hw)
    simp only [objectWrites, verdicts, List.mem_filterMap, List.mem_map] at ho
    obtain ⟨_, ⟨e, he, rfl⟩, hverify⟩ := ho
    have hget := get_eq_some_iff.mpr ((deps.pool_perm _).mem_iff.mp he)
    obtain ⟨j, oj, hj, hkind', hhex', _⟩ : Names ids s.given .file e.1 e.2.cid e.2.name := by
      rcases get_final_objects hget with hp | hp
      · exact h.agrees.objects _ _ hp
      · exact h.agrees.deleted _ _ hp
    have hsame : i = j := ids.hex_injective (by rw [← hhex, hid, verify_id hverify, hhex'])
    rw [hsame, hj] at hi
    rw [← Option.some.inj hi, hkind'] at hkind
    cases hkind

end Restored

/-- Where every key is there once, what is read off the entries is different for different
entries exactly if it tells the keys apart. -/
theorem nodup_filterMap_iff {β γ δ : Type*} {f : β → Option γ} {k : β → δ} {l : List β}
    (hkeys : (l.map k).Nodup) (hsome : ∀ b ∈ l, (f b).isSome) :
    (l.filterMap f).Nodup ↔ ∀ a ∈ l, ∀ b ∈ l, f a = f b → k a = k b := by
  induction l with
  | nil => simp
  | cons x l ih =>
    obtain ⟨hx, hsome⟩ := List.forall_mem_cons.mp hsome
    obtain ⟨y, hy⟩ := Option.isSome_iff_exists.mp hx
    obtain ⟨hnew, hkeys⟩ := List.nodup_cons.mp hkeys
    have hfresh : y ∉ l.filterMap f ↔ ∀ b ∈ l, f b ≠ f x := by
      rw [List.mem_filterMap]
      simp [hy]
    rw [List.filterMap_cons_some hy, List.nodup_cons, hfresh, ih hkeys hsome]
    constructor
    · rintro ⟨hother, hrest⟩ a ha b hb heq
      rcases List.mem_cons.mp ha with hax | hal <;> rcases List.mem_cons.mp hb with hbx | hbl
      · rw [hax, hbx]
      · exact absurd (hax ▸ heq.symm) (hother b hbl)
      · exact absurd (hbx ▸ heq) (hother a hal)
      · exact hrest a hal b hbl heq
    · refine fun hall => ⟨fun b hb heq => hnew ?_, fun a ha b hb =>
        hall a (List.mem_cons_of_mem _ ha) b (List.mem_cons_of_mem _ hb)⟩
      rw [← hall b (List.mem_cons_of_mem _ hb) x (by simp) heq]
      exact List.mem_map_of_mem hb

section Distinct

variable {s : LiveNamespace.State α} {sn : LiveNamespace.Snapshot α} {deps : RestoreDeps}
  {r : Rebuilt}

/-- The paths that are written are different as long as nothing stands beside a row in its place. -/
theorem nodup_paths_iff (hinv : Invariant ids s) (h : Restored ids s sn r) :
    ((naming deps r).filterMap path).Nodup ↔ Unambiguous ids s sn deps r := by
  rw [nodup_filterMap_iff (nodup_keys_naming h) fun w hw => by
    obtain ⟨_, _, _, _, _, hpath⟩ := stands_of_mem_naming h hw
    rw [hpath]
    rfl]
  constructor
  · intro hall i j o o' hi hj hne hcid hname _ hstands hstands'
    obtain ⟨w, hw, hkey⟩ := mem_naming_of_stands h hstands
    obtain ⟨w', hw', hkey'⟩ := mem_naming_of_stands h hstands'
    have hpath : ∀ {w : DatabaseWrite} {id : α} {o : Origin α}, w ∈ naming deps r →
        key w = some (ids.hex id) → s.given.get id = some o →
        path w = some (o.containerId.map ids.hex, o.name) := by
      intro w id o hw hkey ho
      obtain ⟨id', o', ho', _, hkey', hpath⟩ := stands_of_mem_naming h hw
      obtain rfl : id = id' := ids.hex_injective (Option.some.inj (hkey.symm.trans hkey'))
      obtain rfl := Option.some.inj (ho.symm.trans ho')
      exact hpath
    have hsame := hall w hw w' hw' (by rw [hpath hw hkey hi, hpath hw' hkey' hj, hcid, hname])
    rw [hkey, hkey'] at hsame
    exact hne (ids.hex_injective (Option.some.inj hsame))
  · intro hclear w hw w' hw' heq
    obtain ⟨i, o, hi, hstands, hkey, hpath⟩ := stands_of_mem_naming h hw
    obtain ⟨j, o', hj, hstands', hkey', hpath'⟩ := stands_of_mem_naming h hw'
    rw [hpath, hpath'] at heq
    obtain ⟨hcid, hname⟩ := Prod.mk.inj (Option.some.inj heq)
    replace hcid := Option.map_injective ids.hex_injective hcid
    rw [hkey, hkey']
    by_contra hne
    replace hne : i ≠ j := fun heq => hne (by rw [heq])
    -- of two ids with one path at most one has a row
    have hlost : s.rows.get i = none ∨ s.rows.get j = none := by
      by_contra hboth
      rw [not_or] at hboth
      obtain ⟨d, hd⟩ := Option.ne_none_iff_exists'.mp hboth.1
      obtain ⟨d', hd'⟩ := Option.ne_none_iff_exists'.mp hboth.2
      obtain ⟨oi, hoi, hdi⟩ := hinv.rows i d hd
      obtain ⟨oj, hoj, hdj⟩ := hinv.rows j d' hd'
      obtain rfl := Option.some.inj (hi.symm.trans hoi)
      obtain rfl := Option.some.inj (hj.symm.trans hoj)
      refine hne (hinv.unique i j d d' hd hd' ?_ ?_)
      · rw [hdi.containerId, hdj.containerId, hcid]
      · rw [hdi.name, hdj.name, hname]
    rcases hlost with hlost | hlost
    · exact hclear i j o o' hi hj hne hcid hname hlost hstands hstands'
    · exact hclear j i o' o hj hi hne.symm hcid.symm hname.symm hlost hstands' hstands

end Distinct

/-! ## The writes are accepted -/

section Accepted

variable {s : LiveNamespace.State α} {sn : LiveNamespace.Snapshot α} {deps : RestoreDeps}
  {r : Rebuilt}

omit [DecidableEq α] in
theorem toId?_hex (cid : Option α) : toId? ids (cid.map ids.hex) = .ok cid := by
  cases cid with
  | none => rfl
  | some id => simp [toId?, toId, ids.ofText_hex, ids.hex_ne_nil, Except.map]

/-- The root of a chain is a container that is known. -/
theorem bucketOf_known {containers : Table Text Container} {cid : Option Text} {t : Text}
    (h : bucketOf containers cid = some t) : (containers.get t).isSome := by
  have hgo : ∀ fuel cid root seen, (∀ t, root = some t → (containers.get t).isSome) →
      ∀ t, bucketOf.go containers fuel cid root seen = some t → (containers.get t).isSome := by
    intro fuel
    induction fuel with
    | zero => exact fun _ _ _ hroot => hroot
    | succ fuel ih =>
      intro cid root seen hroot t ht
      cases cid with
      | none => exact hroot t ht
      | some current =>
        rw [bucketOf.go] at ht
        split at ht
        · exact hroot t ht
        · split at ht
          · exact hroot t ht
          · next c hc =>
            refine ih _ _ _ ?_ t ht
            intro t' ht'
            rw [← Option.some.inj ht', hc]
            rfl
  exact hgo _ _ _ _ (fun t ht => by cases ht) t h

theorem toId?_bucketOf (h : Restored ids s sn r) (cid : Option Text) :
    ∃ b, toId? ids (bucketOf r.final.containers cid) = .ok b := by
  cases hbucket : bucketOf r.final.containers cid with
  | none => exact ⟨none, rfl⟩
  | some t =>
    obtain ⟨c, hc⟩ := Option.isSome_iff_exists.mp (bucketOf_known hbucket)
    obtain ⟨id, o, ho, _, rfl, _⟩ := h.agrees.containers t c hc
    exact ⟨some id, toId?_hex (some id)⟩

/-- A write sets one row, to a document with this parent and this name, if no other row has
them already. -/
def Sets (ids : ObjectIds α) (w : DatabaseWrite) (id : α) (cid : Option α) (name : Text) : Prop :=
  ∀ db : Database α, (∀ k d, db.content.get k = some d → k ≠ id →
      ¬(d.containerId = cid ∧ d.name = .text name)) →
    ∃ d, write ids db w = .ok { db with content := db.content.set id d } ∧
      d.containerId = cid ∧ d.name = .text name

theorem upsert_free {c : Collection α} {id : α} {update : Document α → Document α}
    (h : ∀ k d, c.get k = some d → k ≠ id →
      ¬(d.containerId = (update ((c.get id).getD Document.blank)).containerId ∧
        d.name = (update ((c.get id).getD Document.blank)).name)) :
    upsert c id update = .ok (c.set id (update ((c.get id).getD Document.blank))) := by
  unfold upsert
  dsimp only
  rw [if_neg]
  simp only [conflicts, Bool.not_eq_true, List.any_eq_false, decide_eq_true_eq]
  rintro ⟨k, d⟩ he ⟨hk, hcid, hname⟩
  exact h k d (get_eq_some_iff.mpr he) hk ⟨hcid, hname⟩

theorem restoreContainer_sets {w : ContainerRestore} {id : α} {cid b : Option α}
    (hid : w.container.id = ids.hex id) (hcid : w.container.cid = cid.map ids.hex)
    (hb : toId? ids w.bucketId = .ok b) : Sets ids (.container w) id cid w.container.name := by
  intro db hfree
  simp only [write, restoreContainer, toId, hid, ids.ofText_hex, hcid, toId?_hex, hb, bind,
    Except.bind]
  rw [upsert_free hfree]
  exact ⟨_, rfl, rfl, rfl⟩

theorem restoreObject_sets {o : ObjectRestore} {id : α} {cid b : Option α}
    (hid : o.id = ids.hex id) (hcid : o.containerId = cid.map ids.hex)
    (hb : toId? ids o.bucketId = .ok b) : Sets ids (.object o) id cid o.name := by
  intro db hfree
  simp only [write, restoreObject, toId, hid, ids.ofText_hex, hcid, toId?_hex, hb, bind,
    Except.bind]
  rw [upsert_free hfree]
  exact ⟨_, rfl, rfl, rfl⟩

theorem sets_of_mem_naming (h : Restored ids s sn r) {w : DatabaseWrite} (hw : w ∈ naming deps r) :
    ∃ id cid name, Sets ids w id cid name ∧ key w = some (ids.hex id) ∧
      path w = some (cid.map ids.hex, name) := by
  obtain ⟨id, o, _, _, hkey, hpath⟩ := stands_of_mem_naming h hw
  refine ⟨id, o.containerId, o.name, ?_, hkey, hpath⟩
  rcases List.mem_append.mp hw with hmem | hmem
  · obtain ⟨c, hc, rfl⟩ := List.mem_map.mp hmem
    obtain ⟨c', _, rfl⟩ := List.mem_map.mp hc
    obtain ⟨hcid, hname⟩ := Prod.mk.inj (Option.some.inj hpath)
    have hid : c'.id = ids.hex id := Option.some.inj hkey
    obtain ⟨b, hb⟩ : ∃ b, toId? ids (some ((bucketOf r.final.containers c'.cid).getD c'.id)) =
        .ok b := by
      cases hbucket : bucketOf r.final.containers c'.cid with
      | none =>
        rw [Option.getD_none, hid]
        exact ⟨_, toId?_hex (some id)⟩
      | some t =>
        rw [Option.getD_some, ← hbucket]
        exact toId?_bucketOf h c'.cid
    exact hname ▸ restoreContainer_sets hid hcid hb
  · obtain ⟨o', ho', rfl⟩ := List.mem_map.mp hmem
    obtain ⟨hcid, hname⟩ := Prod.mk.inj (Option.some.inj hpath)
    simp only [objectWrites, verdicts, List.mem_filterMap, List.mem_map] at ho'
    obtain ⟨_, ⟨e, _, rfl⟩, hverify⟩ := ho'
    obtain ⟨b, hb⟩ := toId?_bucketOf h e.2.cid
    rw [← (verify_path hverify).2.2.2] at hb
    exact hname ▸ restoreObject_sets (Option.some.inj hkey) hcid hb

/-- Writes with different paths are accepted one after another. -/
theorem execute_accepted {l : List DatabaseWrite}
    (hsets : ∀ w ∈ l, ∃ id cid name, Sets ids w id cid name ∧ key w = some (ids.hex id) ∧
      path w = some (cid.map ids.hex, name))
    (hnodup : (l.filterMap path).Nodup) {db : Database α} (hclear : Clear ids db.content l) :
    ∃ db', execute ids db l = .ok db' := by
  induction l generalizing db with
  | nil => exact ⟨db, rfl⟩
  | cons w l ih =>
    obtain ⟨⟨id, cid, name, hset, hkey, hpath⟩, hsets⟩ := List.forall_mem_cons.mp hsets
    rw [List.filterMap_cons_some hpath, List.nodup_cons] at hnodup
    obtain ⟨d, hd, hcid, hname⟩ := hset db fun k d hd hk => by
      rintro ⟨hcid, hname⟩
      rcases hclear k d name hd hname w (by simp) (hcid ▸ hpath) with ⟨r, rfl, hr⟩ | ⟨r, rfl, hr⟩
      · exact hk (ids.hex_injective (hr.symm.trans (Option.some.inj hkey)))
      · exact hk (ids.hex_injective (hr.symm.trans (Option.some.inj hkey)))
    obtain ⟨db', hdb'⟩ := @ih hsets hnodup.2 { db with content := db.content.set id d } (by
      intro k d' name' hd' hname' w' hw' hpath'
      simp only [get_set] at hd'
      split at hd'
      · obtain rfl := Option.some.inj hd'
        rw [hcid, ← Value.text.inj (hname.symm.trans hname')] at hpath'
        exact absurd (List.mem_filterMap.mpr ⟨w', hw', hpath'⟩) hnodup.1
      · exact hclear k d' name' hd' hname' w' (List.mem_cons_of_mem _ hw') hpath')
    refine ⟨db', ?_⟩
    rw [execute, List.foldlM_cons, hd]
    exact hdb'

end Accepted

theorem guards_used {deps : RestoreDeps} {snapshot used : Text} {opts : RestoreOptions}
    {platters : List ℕ} (h : guards deps (some snapshot) opts = .ok (used, platters)) :
    used = snapshot := by
  unfold guards at h
  split at h
  · cases h
  · split at h
    · cases h
    · cases hplatters : deps.platters with
      | none => simp [hplatters] at h
      | some p =>
        simp only [hplatters] at h
        split at h
        · cases h
        · exact (Prod.mk.inj (Except.ok.inj h)).1.symm

/-- What follows the writes that give names. -/
def closingWrites (deps : RestoreDeps) (r : Rebuilt) : List DatabaseWrite :=
  [.prune (keptIds deps r), .endRestore, .namespaceRestored]

theorem appliedWrites_eq (deps : RestoreDeps) (r : Rebuilt) :
    appliedWrites deps r = naming deps r ++ closingWrites deps r := rfl

/-- The writes of a restore that comes to its end are the ones that give names, with nothing
before or after them that a database could refuse. -/
theorem applied_accepted_iff {s : LiveNamespace.State α} {sn : LiveNamespace.Snapshot α}
    {deps : RestoreDeps} {r : Rebuilt} (hinv : Invariant ids s) (h : Restored ids s sn r) :
    (((.beginRestore :: appliedWrites deps r).filterMap path).Nodup ∧
      ∀ db : Database α, Clear ids db.content (.beginRestore :: appliedWrites deps r) →
        ∃ db', execute ids db (.beginRestore :: appliedWrites deps r) = .ok db') ↔
      Unambiguous ids s sn deps r := by
  have hpaths : (.beginRestore :: appliedWrites deps r).filterMap path =
      (naming deps r).filterMap path := by
    rw [List.filterMap_cons_none rfl, appliedWrites_eq, List.filterMap_append]
    exact List.append_nil _
  rw [hpaths, ← nodup_paths_iff hinv h]
  refine and_iff_left_of_imp fun hnodup db hclear => ?_
  obtain ⟨db₁, hdb₁⟩ := @execute_accepted _ _ ids (naming deps r)
    (fun w hw => sets_of_mem_naming h hw) hnodup { db with restoreInFlight := true }
    (fun id d name hd hname w hw => hclear id d name hd hname w
      (List.mem_cons_of_mem _ (List.mem_append_left _ hw)))
  obtain ⟨db₂, hdb₂⟩ : ∃ db₂, execute ids db₁ (closingWrites deps r) = .ok db₂ := ⟨_, rfl⟩
  refine ⟨db₂, ?_⟩
  unfold execute at hdb₁ hdb₂ ⊢
  have hbegin : write ids db .beginRestore = .ok { db with restoreInFlight := true } := rfl
  rw [List.foldlM_cons, hbegin, appliedWrites_eq]
  simp only [bind, Except.bind, List.foldlM_append, hdb₁, hdb₂]

/-- What a restore of a run writes has different paths, and is accepted by a database without a
foreign row in its way, exactly if nothing that has lost its row still stands beside something
of its path. -/
theorem restored_distinct (ids : ObjectIds α) (deps : RestoreDeps) (snapshot : Text)
    (opts : RestoreOptions) {s : LiveNamespace.State α}
    (h : Reachable (LiveNamespace.machine ids) s) {sn : LiveNamespace.Snapshot α}
    (hsn : sn ∈ s.snapshots) (hreads : Reads ids s sn deps snapshot opts) :
    (((run deps (some snapshot) opts).1.filterMap path).Nodup ∧
      ∀ db : Database α, Clear ids db.content (run deps (some snapshot) opts).1 →
        ∃ db', execute ids db (run deps (some snapshot) opts).1 = .ok db') ↔
    (opts.apply → ∀ platters r, guards deps (some snapshot) opts = .ok (snapshot, platters) →
      rebuild deps snapshot platters opts = .ok r → Unambiguous ids s sn deps r) := by
  have hinv := reachable_invariant h
  have hmarker : ∀ marker : List DatabaseWrite, marker ⊆ [.beginRestore] →
      (marker.filterMap path).Nodup ∧
        ∀ db : Database α, ∃ db', execute ids db marker = .ok db' := by
    intro marker hmarker
    have hwrites : ∀ w ∈ marker, w = .beginRestore :=
      fun w hw => List.mem_singleton.mp (hmarker hw)
    clear hmarker
    induction marker with
    | nil => exact ⟨List.nodup_nil, fun db => ⟨db, rfl⟩⟩
    | cons w marker ih =>
      obtain ⟨rfl, htail⟩ := List.forall_mem_cons.mp hwrites
      exact ⟨(ih htail).1, fun db => (ih htail).2 { db with restoreInFlight := true }⟩
  unfold run
  cases hguards : guards deps (some snapshot) opts with
  | error e =>
    exact iff_of_true ⟨List.nodup_nil, fun db _ => ⟨db, rfl⟩⟩ fun _ _ _ hok => by cases hok
  | ok guarded =>
    obtain ⟨used, platters⟩ := guarded
    obtain rfl := guards_used hguards
    dsimp only
    cases hrebuild : rebuild deps used platters opts with
    | error e =>
      dsimp only
      obtain ⟨hnodup, hexecute⟩ :=
        hmarker (if opts.apply then [.beginRestore] else []) (by split <;> simp)
      refine iff_of_true ⟨hnodup, fun db _ => hexecute db⟩ fun _ platters' r hok hr => ?_
      obtain ⟨_, rfl⟩ := Prod.mk.inj (Except.ok.inj hok)
      rw [hrebuild] at hr
      cases hr
    | ok r =>
      dsimp only
      cases happly : opts.apply with
      | false =>
        exact iff_of_true ⟨List.nodup_nil, fun db _ => ⟨db, rfl⟩⟩ fun hfalse => by cases hfalse
      | true =>
        have hrestored := restored_of_reads hinv hsn hreads hrebuild
        refine (applied_accepted_iff hinv hrestored).trans ⟨fun hclear _ platters' r' hok hr => ?_,
          fun hall => hall rfl platters r rfl hrebuild⟩
        obtain ⟨_, rfl⟩ := Prod.mk.inj (Except.ok.inj hok)
        rw [hrebuild] at hr
        exact Except.ok.inj hr ▸ hclear

/-! ### A container that never came to be -/

def lostId : Text := "507f1f77bcf86cd799439011".toList

def madeId : Text := "507f1f77bcf86cd799439012".toList

/-- The ids of a database in which a container was made at the second attempt. -/
def twinIds : ObjectIds Bool where
  hex made := if made then madeId else lostId
  ofText t :=
    if t.map Char.toLower = madeId then some true
    else if t.map Char.toLower = lostId then some false else none
  ofText_hex made := by cases made <;> decide
  hex_ne_nil made := by cases made <;> decide

def twin (made : Bool) : NewContainer Bool := ⟨made, none, none, "photos".toList⟩

def bare : LiveNamespace.State Bool := ⟨Table.empty, [], Table.empty, [], none, []⟩

/-- The container is made, and a snapshot is taken. -/
def made : List (Event Bool) :=
  [.begin (.journalContainer (twin true)) .done, .step (.insertContainer (twin true)) .done,
    .beginSnapshot, .finishSnapshot]

/-- A crash comes between the record of the container and its row, and it is made once more. -/
def madeAgain : List (Event Bool) :=
  [.begin (.journalContainer (twin false)) .done, .crash] ++ made

def after (events : List (Event Bool)) : LiveNamespace.State Bool :=
  events.foldl (LiveNamespace.next twinIds) bare

theorem bare_initial : (LiveNamespace.machine twinIds).Initial bare where
  unique _ _ _ _ h := by cases h
  named _ _ h := by cases h
  rows _ _ h := by cases h
  journal := rfl
  requests := rfl
  reading := rfl
  snapshots := rfl

theorem after_reachable {events : List (Event Bool)}
    (h : ∀ n (hn : n < events.length), enabled twinIds (after (events.take n)) events[n]) :
    Reachable (LiveNamespace.machine twinIds) (after events) :=
  (Reachable.initial bare_initial).run events h

def madeRow : ContainerRow Bool := ⟨true, none, .text "photos".toList, noFlags⟩

/-- The only snapshot. -/
def taken (events : List (Event Bool)) : LiveNamespace.Snapshot Bool :=
  (after events).snapshots.headD ⟨[], [], fun _ _ => false⟩

def madeLine : Text :=
  ("\x7b\"op\":\"container\",\"id\":\"507f1f77bcf86cd799439012\",\"cid\":null," ++
    "\"name\":\"photos\"\x7d").toList

def madeDigest : Text :=
  "6c49a8c7ad0de3364dc610685f6a6973857c799162f393102266e94eee10211c".toList

def madeTrailer : Text :=
  "\x7b\"op\":\"end\",\"containers\":1,\"objects\":0,\"sha256\":\"".toList ++
    madeDigest ++ "\"\x7d".toList

def journaled (id : Text) : Text × Record :=
  ("\x7b\"op\":\"container\",\"ts\":\"2026-07-01T00:00:00.000Z\",\"id\":\"".toList ++ id ++
    "\",\"cid\":null,\"name\":\"photos\"\x7d".toList,
    .container ⟨id, none, "photos".toList, noFlags⟩)

/-- `JSON.parse` and `JSON.stringify` on these lines. -/
def twinLines : List (Text × RawRecord) :=
  [(madeLine, SnapshotWriter.containerRecord twinIds madeRow),
    (madeTrailer, SnapshotWriter.endRecord 1 0 madeDigest)] ++
    [journaled lostId, journaled madeId].map fun e => (e.1, rawRecord e.2)

def twinParse (line : Text) : Parsed :=
  match twinLines.lookup line with
  | some r => .record r
  | none => .unparseable

def twinStringify (r : RawRecord) : Text :=
  match twinLines.find? (·.2 = r) with
  | some (line, _) => line
  | none => []

def twinSha256 (t : Text) : Text := if t = SnapshotFile.newline madeLine then madeDigest else []

def twinDeps (written : List (Text × Record)) : RestoreDeps :=
  { bareDeps with
    parse := twinParse
    sha256 := twinSha256
    fetchSnapshot := fun _ =>
      some (readLines (SnapshotFile.newline madeLine ++ SnapshotFile.newline madeTrailer))
    journalSegments := fun _ => some [segmentLines written] }

theorem made_reads :
    Reads twinIds (after made) (taken made) (twinDeps [journaled madeId]) [] applied where
  blank := by
    have h : twinParse [] = .unparseable := by decide +kernel
    exact h
  snapshot := ⟨[], false, twinStringify, _, ⟨1, 0, madeDigest⟩, rfl, by decide +kernel,
    by decide +kernel⟩
  journal := ⟨[[journaled madeId]], rfl, by decide +kernel, by decide +kernel⟩

theorem madeAgain_reads : Reads twinIds (after madeAgain) (taken madeAgain)
    (twinDeps [journaled lostId, journaled madeId]) [] applied where
  blank := by
    have h : twinParse [] = .unparseable := by decide +kernel
    exact h
  snapshot := ⟨[], false, twinStringify, _, ⟨1, 0, madeDigest⟩, rfl, by decide +kernel,
    by decide +kernel⟩
  journal := ⟨[[journaled lostId, journaled madeId]], rfl, by decide +kernel, by decide +kernel⟩

theorem restored_distinct_made :
    ((run (twinDeps [journaled madeId]) (some []) applied).1.filterMap path).Nodup ∧
      ∀ db : Database Bool,
        Clear twinIds db.content (run (twinDeps [journaled madeId]) (some []) applied).1 →
          ∃ db', execute twinIds db (run (twinDeps [journaled madeId]) (some []) applied).1 =
            .ok db' := by
  refine (@restored_distinct _ _ twinIds (twinDeps [journaled madeId]) [] applied (after made)
    (after_reachable (by decide +kernel)) (taken made) (List.mem_singleton_self _)
    made_reads).mpr ?_
  intro _ _ _ _ _ i j o o' hi hj hne
  cases i with
  | false => cases hi
  | true =>
    cases j with
    | false => cases hj
    | true => exact absurd rfl hne

/-- A restore writes two buckets of the same name, and does not come to its end. -/
theorem restored_twins :
    Reachable (LiveNamespace.machine twinIds) (after madeAgain) ∧
      taken madeAgain ∈ (after madeAgain).snapshots ∧
      Reads twinIds (after madeAgain) (taken madeAgain)
        (twinDeps [journaled lostId, journaled madeId]) [] applied ∧
      ¬((run (twinDeps [journaled lostId, journaled madeId]) (some []) applied).1.filterMap
        path).Nodup ∧
      execute twinIds ⟨Table.empty, false, true, 0⟩
        (run (twinDeps [journaled lostId, journaled madeId]) (some []) applied).1 =
          .error .duplicateKey :=
  ⟨after_reachable (by decide +kernel), List.mem_singleton_self _, madeAgain_reads,
    by decide +kernel, rfl⟩

end RestoredPaths
