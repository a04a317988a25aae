import Strubs.LiveNamespace

/-! # The access policy after a restore

The journal is replayed from its first record on, over a snapshot that knows of the older
ones already. What closes a flag is believed, whenever it was written, and what opens it is not. -/
namespace BucketPolicy

open InsertionMap NamespaceRecord ContentRepository NamespaceReplay StateMachine LiveNamespace
open SnapshotFile (Parsed loadSnapshot)
open SnapshotWriter (readLines writeTo fileRecords)

/-- A policy that closes a flag of the container whose id is spelled so. -/
def closesFlag (f : AccessFlag) (id : Text) : Record → Bool
  | .policy id' want => id' == id && flagOf want f == some f.closing
  | _ => false

section Replay

variable {records : List Record} {ns : Namespace} {id : Text}

theorem isOpen_known (f : AccessFlag) (hknown : (ns.containers.get id).isSome)
    (hdel : .del id ∉ records) :
    f.isOpen (flagOf ((records.foldl applyRecord ns).flags id) f) =
      (f.isOpen (flagOf (ns.flags id) f) && !records.any (closesFlag f id)) := by
  induction records generalizing ns with
  | nil => simp
  | cons r records ih =>
    obtain ⟨hr, hdel⟩ := List.ne_and_not_mem_of_not_mem_cons hdel
    have hsome : ((applyRecord ns r).containers.get id).isSome :=
      @isSome_containers_foldl [r] _ _ hknown (by simpa using hr)
    have hstep : f.isOpen (flagOf ((applyRecord ns r).flags id) f) =
        (f.isOpen (flagOf (ns.flags id) f) && !closesFlag f id r) := by
      rw [flags_applyRecord]
      cases r with
      | container c => simp [closesFlag]
      | put p => simp [closesFlag]
      | policy id' want =>
        by_cases hid : id = id'
        · subst hid
          simp [hknown, flagOf_replayPolicy, isOpen_replayFlag, closesFlag, bne]
        · simp [Ne.symm hid, closesFlag]
      | del id' =>
        have hid : id ≠ id' := fun heq => hr (by rw [heq])
        simp [Ne.symm hid, closesFlag]
    rw [List.foldl_cons, ih hsome hdel, hstep, List.any_cons, Bool.not_or, Bool.and_assoc]

theorem isOpen_unknown (f : AccessFlag) (hother : ∀ r ∈ records, r.id ≠ id) :
    (records.foldl applyRecord ns).flags id = ns.flags id ∧
      records.any (closesFlag f id) = false := by
  induction records generalizing ns with
  | nil => exact ⟨rfl, rfl⟩
  | cons r records ih =>
    obtain ⟨hr, hother⟩ := List.forall_mem_cons.mp hother
    obtain ⟨hflags, hany⟩ := @ih (applyRecord ns r) hother
    have hstep : (applyRecord ns r).flags id = ns.flags id ∧ closesFlag f id r = false := by
      rw [flags_applyRecord]
      cases r with
      | container c => exact ⟨rfl, rfl⟩
      | put p => exact ⟨rfl, rfl⟩
      | policy id' want =>
        have hid : id' ≠ id := hr
        simp [hid, closesFlag]
      | del id' =>
        have hid : id' ≠ id := hr
        simp [hid, closesFlag]
    rw [List.foldl_cons, hflags, hstep.1, List.any_cons, hstep.2, hany]
    exact ⟨rfl, rfl⟩

/-- A container whose record comes before everything else about it is known when it matters. -/
theorem isOpen_journaled (f : AccessFlag) {before after : List Record} {c : Container}
    (heq : records = before ++ .container c :: after) (hid : c.id = id)
    (hfirst : ∀ r ∈ before, r.id ≠ id) (hdel : .del id ∉ records) :
    f.isOpen (flagOf ((records.foldl applyRecord ns).flags id) f) =
      (f.isOpen (flagOf (ns.flags id) f) && !records.any (closesFlag f id)) := by
  obtain ⟨hflags, hany⟩ := @isOpen_unknown _ ns _ f hfirst
  have hdel' : .del id ∉ after := fun hmem => hdel (heq ▸ by simp [hmem])
  have hknown : ((applyRecord (before.foldl applyRecord ns) (.container c)).containers.get
      id).isSome := by simp [containers_applyRecord, hid]
  rw [heq, List.foldl_append, List.foldl_cons, List.any_append, List.any_cons, hany,
    isOpen_known f hknown hdel', flags_applyRecord, hflags]
  rfl

end Replay

variable {α : Type*} [DecidableEq α] (ids : ObjectIds α)

/-- What a snapshot says about the flags of a bucket, if it has it. -/
def snapshotFlags (sn : Snapshot α) (id : α) : Flags :=
  ((sn.containers.find? (·.id = id)).map ContainerRow.flags).getD noFlags

/-- The flag is as it was in the end, or it was opened after the snapshot and is closed. -/
def FlagReproduced (s : State α) (sn : Snapshot α) (restored : Flags) (id : α) (f : AccessFlag) :
    Prop :=
  f.isOpen (flagOf restored f) = f.isOpen (flagOf (s.flags id) f) ∨
    f.isOpen (flagOf restored f) = false ∧ f.isOpen (flagOf (s.flags id) f) ∧ sn.closed id f

/-- The bucket is restored, with the flags it had. -/
def Reproduced (s : State α) (sn : Snapshot α) (ns : Namespace) (id : α) : Prop :=
  (ns.containers.get (ids.hex id)).isSome ∧
    ∀ f, FlagReproduced s sn (ns.flags (ids.hex id)) id f

/-- A flag that has stayed open since the snapshot was never closed before it, and one that was
open then and is closed in the end was closed under the bucket's own id. -/
def FlagRepeatable (s : State α) (sn : Snapshot α) (id : α) (f : AccessFlag) : Prop :=
  f.isOpen (flagOf (snapshotFlags sn id) f) →
    (f.isOpen (flagOf (s.flags id) f) → sn.closed id f = false →
      s.journal.any (closesFlag f (ids.hex id)) = false) ∧
    (f.isOpen (flagOf (s.flags id) f) = false → s.journal.any (closesFlag f (ids.hex id)))

/-- The bucket was not taken for one whose creation failed. -/
def Repeatable (s : State α) (sn : Snapshot α) (id : α) : Prop :=
  .del (ids.hex id) ∉ s.journal ∧ ∀ f, FlagRepeatable ids s sn id f

variable {ids} {s : State α} {sn : Snapshot α} {id : α}

theorem mem_snapshot_iff : id ∈ sn.containerIds ↔ (sn.containers.find? (·.id = id)).isSome := by
  rw [Snapshot.containerIds, List.find?_isSome, List.mem_map]
  simp

theorem closed_of_snapshot {d : Document α} (h : Invariant ids s) (hsn : sn ∈ s.snapshots)
    (hrow : s.rows.get id = some d) (hcontainer : d.isContainer) (hroot : d.containerId = none)
    {f : AccessFlag} (hf : ¬f.isOpen (flagOf (snapshotFlags sn id) f)) : sn.closed id f := by
  have hfits := h.snapshots sn hsn
  obtain ⟨o, ho, hdescribes⟩ := h.rows id d hrow
  have hkind : o.kind = .container := by simpa [hdescribes.isContainer] using hcontainer
  unfold snapshotFlags at hf
  cases hfind : sn.containers.find? (·.id = id) with
  | none =>
    rw [hfind] at hf
    refine hfits.absent id (fun hmem => ?_) (fun o' ho' => ?_) f hf
    · rw [mem_snapshot_iff, hfind] at hmem
      cases hmem
    · rwa [← Option.some.inj (ho.symm.trans ho')]
  | some c =>
    rw [hfind] at hf
    have hid : c.id = id := by simpa using List.find?_some hfind
    have hmem := List.mem_of_find?_eq_some hfind
    obtain ⟨o', ho', _, hcid, _⟩ := hfits.containers c hmem
    have hsame : o' = o := Option.some.inj (ho'.symm.trans (hid ▸ ho))
    have hcroot : c.cid = none := by rw [hcid, hsame, ← hdescribes.containerId, hroot]
    exact hid ▸ hfits.closed c hmem hcroot f hf

theorem flagReproduced_iff {restored : Flags} {f : AccessFlag}
    (hclosed : ¬f.isOpen (flagOf (snapshotFlags sn id) f) → sn.closed id f)
    (hrestored : f.isOpen (flagOf restored f) =
      (f.isOpen (flagOf (snapshotFlags sn id) f) && !s.journal.any (closesFlag f (ids.hex id)))) :
    FlagReproduced s sn restored id f ↔ FlagRepeatable ids s sn id f := by
  unfold FlagReproduced FlagRepeatable
  rw [hrestored]
  generalize f.isOpen (flagOf (snapshotFlags sn id) f) = was at hclosed ⊢
  generalize f.isOpen (flagOf (s.flags id) f) = is
  generalize s.journal.any (closesFlag f (ids.hex id)) = closing
  generalize sn.closed id f = closed at hclosed ⊢
  revert hclosed
  revert was is closing closed
  decide

/-- What the namespace starts from knows the flags of the snapshot. -/
theorem flags_loaded {containers : Table Text Container}
    {objects : Table Text Put}
    (hload : ∀ t c, containers.get t = some c ↔
      ∃ row ∈ sn.containers, t = ids.hex row.id ∧ c = SnapshotWriter.loadedContainer ids row)
    (id : α) :
    (Namespace.ofSnapshot containers objects).flags (ids.hex id) = snapshotFlags sn id ∧
      ((containers.get (ids.hex id)).isSome ↔ id ∈ sn.containerIds) := by
  unfold snapshotFlags
  rw [flags_ofSnapshot, mem_snapshot_iff]
  cases hfind : sn.containers.find? (·.id = id) with
  | none =>
    have hnone : containers.get (ids.hex id) = none := by
      by_contra hne
      obtain ⟨c, hc⟩ := Option.ne_none_iff_exists'.mp hne
      obtain ⟨row, hrow, hhex, _⟩ := (hload _ _).mp hc
      have := List.find?_eq_none.mp hfind row hrow
      simp [ids.hex_injective hhex] at this
    simp [hnone]
  | some row =>
    have hid : row.id = id := by simpa using List.find?_some hfind
    have hget := (hload (ids.hex id) _).mpr ⟨row, List.mem_of_find?_eq_some hfind, by rw [hid], rfl⟩
    simp [hget, SnapshotWriter.loadedContainer]

/-- What a replay of the whole journal makes of a bucket. -/
theorem reproduced_iff {d : Document α} (h : Invariant ids s) (hsn : sn ∈ s.snapshots)
    (hrow : s.rows.get id = some d) (hcontainer : d.isContainer) (hroot : d.containerId = none)
    {containers : Table Text Container} {objects : Table Text Put}
    (hload : ∀ t c, containers.get t = some c ↔
      ∃ row ∈ sn.containers, t = ids.hex row.id ∧ c = SnapshotWriter.loadedContainer ids row) :
    Reproduced ids s sn (s.journal.foldl applyRecord (.ofSnapshot containers objects)) id ↔
      Repeatable ids s sn id := by
  obtain ⟨hflags, hknown⟩ := @flags_loaded _ _ _ sn containers objects hload id
  have hsource : (containers.get (ids.hex id)).isSome ∨
      ∃ c, .container c ∈ s.journal ∧ c.id = ids.hex id := by
    rcases h.known id d hrow hcontainer with hc | hall
    · exact .inr hc
    · exact .inl (hknown.mpr (hall sn hsn))
  have hsome : ((s.journal.foldl applyRecord (.ofSnapshot containers objects)).containers.get
      (ids.hex id)).isSome ↔ .del (ids.hex id) ∉ s.journal := by
    rw [isSome_containers_foldl_iff fun before c after heq hid => hid ▸ h.first before c after heq]
    exact and_iff_right hsource
  rw [Reproduced, Repeatable, hsome]
  refine and_congr_right fun hdel => forall_congr' fun f => flagReproduced_iff ?_ ?_
  · exact closed_of_snapshot h hsn hrow hcontainer hroot
  · rw [← hflags]
    rcases hsource with hstart | ⟨c, hc, hid⟩
    · exact isOpen_known f hstart hdel
    · obtain ⟨before, after, heq⟩ := List.append_of_mem hc
      exact isOpen_journaled f heq hid (fun r hr => hid ▸ h.first before c after heq r hr) hdel

/-- Over any snapshot of any run the whole journal can be replayed, and a bucket that is there
gets its policy back exactly if the journal repeats it. -/
theorem policy_restored (ids : ObjectIds α) (parse : Text → Parsed) (stringify : RawRecord → Text)
    (sha256 : Text → Text) {s : State α} (h : Reachable (machine ids) s) {sn : Snapshot α}
    (hsn : sn ∈ s.snapshots) {file : Text} {stats : SnapshotFile.SnapshotStats}
    (hwrite : writeTo ids sha256 stringify sn.containers sn.objects = .ok (file, stats))
    (hfile : ∀ r ∈ fileRecords ids sn.containers sn.objects stats, parse (stringify r) = .record r)
    (hempty : parse [] = .unparseable) {chunks : List (List (Text × Record))}
    (hchunks : chunks.flatten.map Prod.snd = s.journal)
    (hjournal : ∀ e ∈ chunks.flatten, parse e.1 = .record (rawRecord e.2)) :
    ∃ containers objects ns,
      loadSnapshot parse sha256 (readLines file) = .ok (containers, objects) ∧
      replay parse (chunks.map segmentLines) (.ofSnapshot containers objects) = .ok ns ∧
      ∀ id d, s.rows.get id = some d → d.isContainer → d.containerId = none →
        (Reproduced ids s sn ns id ↔ Repeatable ids s sn id) := by
  have hinv := reachable_invariant h
  have hfits := hinv.snapshots sn hsn
  obtain ⟨containers, objects, hload, hcontainers, _⟩ := SnapshotWriter.load_written
    hfits.containersOnce hfits.objectsOnce hwrite hempty hfile (fits_named hinv hfits)
  have hnamed : ∀ e ∈ chunks.flatten, e.2.id ≠ [] ∧ Named e.2 := by
    intro e he
    exact hinv.readable (hchunks ▸ List.mem_map_of_mem he)
  obtain ⟨hrecords, hreadable⟩ := records_written hnamed hjournal hempty
  refine ⟨containers, objects, _, hload, replay_readable hreadable _, ?_⟩
  rw [hrecords, hchunks]
  intro id d hrow hcontainer hroot
  exact reproduced_iff hinv hsn hrow hcontainer hroot hcontainers

/-! ### A bucket that is opened again -/

open SnapshotWriter (bucketId bucketIds)

def photos : NewContainer Unit := ⟨(), none, none, "photos".toList⟩

def opening : Flags := ⟨some true, none, none⟩

def closing : Flags := ⟨some false, none, none⟩

/-- The id of the bucket in large letters, which the route takes as well. -/
def shoutedId : Text := "507F1F77BCF86CD799439011".toList

def create : List (Event Unit) :=
  [.begin (.journalContainer photos) .done, .step (.insertContainer photos) .done]

def change (id : Text) (policy : Flags) : List (Event Unit) :=
  [.begin (.journalPolicy id policy) .done, .step (.setBucketPolicy id policy) .done]

def snapshot : List (Event Unit) := [.beginSnapshot, .finishSnapshot]

def bare : State Unit := ⟨Table.empty, [], Table.empty, [], none, []⟩

/-- Opened, closed, opened again, and then a snapshot. -/
def reopened : List (Event Unit) :=
  create ++ change bucketId opening ++ change bucketId closing ++ change bucketId opening ++
    snapshot

/-- Opened, and closed after the snapshot. -/
def shouted : List (Event Unit) :=
  create ++ change bucketId opening ++ snapshot ++ change shoutedId closing

def openLine : Text :=
  "\x7b\"op\":\"container\",\"id\":\"507f1f77bcf86cd799439011\",\"cid\":null,\"name\":\"photos\",\"pr\":true\x7d".toList

def openDigest : Text :=
  "154f1ae89731642b1a9abeeb5bd237d306da301d3a5a4c050bfacfe3c3ae2089".toList

def openTrailer : Text :=
  "\x7b\"op\":\"end\",\"containers\":1,\"objects\":0,\"sha256\":\"".toList ++
    openDigest ++ "\"\x7d".toList

def openRow : ContainerRow Unit := ⟨(), none, .text "photos".toList, opening⟩

def stamped (op rest : String) : Text :=
  "\x7b\"op\":\"".toList ++ op.toList ++ "\",\"ts\":\"2026-07-01T00:00:00.000Z\",\"id\":\"".toList ++
    rest.toList ++ "\x7d".toList

/-- The journal's lines, and what they say. -/
def created : Text × Record :=
  (stamped "container" "507f1f77bcf86cd799439011\",\"cid\":null,\"name\":\"photos\"",
    .container ⟨bucketId, none, "photos".toList, noFlags⟩)

def opened : Text × Record :=
  (stamped "policy" "507f1f77bcf86cd799439011\",\"pr\":true", .policy bucketId opening)

def closed : Text × Record :=
  (stamped "policy" "507f1f77bcf86cd799439011\",\"pr\":false", .policy bucketId closing)

def closedLoudly : Text × Record :=
  (stamped "policy" "507F1F77BCF86CD799439011\",\"pr\":false", .policy shoutedId closing)

/-- `JSON.parse` and `JSON.stringify` on these lines. -/
def policyLines : List (Text × RawRecord) :=
  [(openLine, SnapshotWriter.containerRecord bucketIds openRow),
    (openTrailer, SnapshotWriter.endRecord 1 0 openDigest)] ++
    [created, opened, closed, closedLoudly].map fun e => (e.1, rawRecord e.2)

def policyParse (line : Text) : Parsed :=
  match policyLines.lookup line with
  | some r => .record r
  | none => .unparseable

def policyStringify (r : RawRecord) : Text :=
  match policyLines.find? (·.2 = r) with
  | some (line, _) => line
  | none => []

def policySha256 (t : Text) : Text := if t = SnapshotFile.newline openLine then openDigest else []

/-- The state after these events, where a finished snapshot is the only one. -/
def after (events : List (Event Unit)) : State Unit := events.foldl (next bucketIds) bare

def taken (events : List (Event Unit)) : Snapshot Unit :=
  (after events).snapshots.headD ⟨[], [], fun _ _ => false⟩

theorem bare_initial : (machine bucketIds).Initial bare where
  unique _ _ _ _ h := by cases h
  named _ _ h := by cases h
  rows _ _ h := by cases h
  journal := rfl
  requests := rfl
  reading := rfl
  snapshots := rfl

theorem after_reachable {events : List (Event Unit)}
    (h : ∀ n (hn : n < events.length), enabled bucketIds (after (events.take n)) events[n]) :
    Reachable (machine bucketIds) (after events) :=
  (Reachable.initial bare_initial).run events h

theorem policy_restored_reopened :
    ∃ containers objects ns,
      loadSnapshot policyParse policySha256
          (readLines (SnapshotFile.newline openLine ++ SnapshotFile.newline openTrailer)) =
        .ok (containers, objects) ∧
      replay policyParse [segmentLines [created, opened, closed, opened]]
          (.ofSnapshot containers objects) = .ok ns ∧
      ∀ id d, (after reopened).rows.get id = some d → d.isContainer → d.containerId = none →
        (Reproduced bucketIds (after reopened) (taken reopened) ns id ↔
          Repeatable bucketIds (after reopened) (taken reopened) id) :=
  @policy_restored _ _ bucketIds policyParse policyStringify policySha256 _
    (after_reachable (by decide +kernel)) (taken reopened) (List.mem_singleton_self _) _
    ⟨1, 0, openDigest⟩ (by decide +kernel) (by decide +kernel) (by decide +kernel)
    [[created, opened, closed, opened]] (by decide +kernel) (by decide +kernel)

/-- The flags of the bucket after a replay over the loaded snapshot. -/
def restoredFlags (written : List (Text × Record)) : Option Flags :=
  match loadSnapshot policyParse policySha256
      (readLines (SnapshotFile.newline openLine ++ SnapshotFile.newline openTrailer)) with
  | .error _ => none
  | .ok (containers, objects) =>
    match replay policyParse [segmentLines written] (.ofSnapshot containers objects) with
    | .error _ => none
    | .ok ns => some (ns.flags bucketId)

instance (s : State Unit) (sn : Snapshot Unit) (restored : Flags) (f : AccessFlag) :
    Decidable (FlagReproduced s sn restored () f) :=
  inferInstanceAs (Decidable (_ ∨ _))

/-- A bucket that is open throughout comes back closed, and one that was closed under its id in
large letters comes back open. -/
theorem policy_not_restored :
    (Reachable (machine bucketIds) (after reopened) ∧ (after reopened).snapshots.length = 1 ∧
      (after reopened).journal = [created.2, opened.2, closed.2, opened.2] ∧
      restoredFlags [created, opened, closed, opened] = some closing ∧
      ¬FlagReproduced (after reopened) (taken reopened) closing () .publicRead) ∧
    Reachable (machine bucketIds) (after shouted) ∧ (after shouted).snapshots.length = 1 ∧
      (after shouted).journal = [created.2, opened.2, closedLoudly.2] ∧
      restoredFlags [created, opened, closedLoudly] = some opening ∧
      ¬FlagReproduced (after shouted) (taken shouted) opening () .publicRead :=
  ⟨⟨after_reachable (by decide +kernel), by decide +kernel⟩, after_reachable (by decide +kernel),
    by decide +kernel⟩

end BucketPolicy
