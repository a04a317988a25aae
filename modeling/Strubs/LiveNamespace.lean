import Strubs.NamespaceReplay
import Strubs.SnapshotWriter
import Strubs.StateMachine

/-! # The namespace of a running array

Every change is journaled before the database sees it, and each of the two may fail. What the
caller is told need not be what has happened, and a crash forgets what was under way. -/
namespace LiveNamespace

open InsertionMap NamespaceRecord ContentRepository NamespaceReplay StateMachine
open SnapshotWriter (orNull ofFlag ofParent)

variable {α : Type*}

inductive Kind where
  | container
  | file
  deriving DecidableEq, Repr

/-- What an id was made for. -/
structure Origin (α : Type*) where
  kind : Kind
  containerId : Option α
  name : Text
  deriving DecidableEq

/-- An object whose slices are on the disks. -/
structure Upload (α : Type*) where
  id : α
  containerId : Option α
  bucketId : Option α
  name : Text
  mime : Value
  md5 : Value
  size : ℚ
  chunkSize : ℚ
  dataVolumes : List ℕ
  parityVolumes : List ℕ
  deriving DecidableEq

structure NewContainer (α : Type*) where
  id : α
  containerId : Option α
  bucketId : Option α
  name : Text
  deriving DecidableEq

def Upload.origin (u : Upload α) : Origin α := ⟨.file, u.containerId, u.name⟩

def NewContainer.origin (c : NewContainer α) : Origin α := ⟨.container, c.containerId, c.name⟩

def Upload.document (u : Upload α) : Document α :=
  { (Document.blank : Document α) with
    containerId := u.containerId
    name := .text u.name
    isFile := true
    bucketId := u.bucketId
    mime := u.mime
    md5 := u.md5
    size := .number (some u.size)
    chunkSize := .number (some u.chunkSize)
    dataVolumes := u.dataVolumes
    parityVolumes := u.parityVolumes }

/-- A bucket is its own bucket. -/
def NewContainer.document (c : NewContainer α) : Document α :=
  { (Document.blank : Document α) with
    containerId := c.containerId
    name := .text c.name
    isContainer := true
    bucketId := some (c.bucketId.getD c.id) }

/-- The object that a file's row describes. -/
def Upload.ofDocument (id : α) (d : Document α) : Option (Upload α) :=
  match d.isFile, d.name, d.size, d.chunkSize with
  | true, .text name, .number (some size), .number (some chunkSize) =>
    some ⟨id, d.containerId, d.bucketId, name, d.mime, d.md5, size, chunkSize, d.dataVolumes,
      d.parityVolumes⟩
  | _, _, _, _ => none

/-- The next thing a request has to do. -/
inductive Request (α : Type*) where
  | journalContainer (c : NewContainer α)
  | insertContainer (c : NewContainer α)
  | journalRemove (c : NewContainer α)
  | journalPut (u : Upload α)
  | createObjectRecord (u : Upload α)
  | journalAbort (u : Upload α)
  | journalDelete (u : Upload α)
  | deleteObject (u : Upload α)
  | journalPutBack (u : Upload α)
  | journalPolicy (id : Text) (policy : Flags)
  | setBucketPolicy (id : Text) (policy : Flags)
  deriving DecidableEq

/-- It may have happened although the caller is told that it failed. -/
inductive Outcome where
  | done
  | lost
  | failed
  deriving DecidableEq, Repr

/-- What a request goes on with. Whatever is told to have failed is compensated for where that
is possible, and abandoned elsewhere. -/
def Request.following : Request α → Outcome → Option (Request α)
  | .journalContainer c, .done => some (.insertContainer c)
  | .journalContainer _, _ => none
  | .insertContainer _, .done => none
  | .insertContainer c, _ => some (.journalRemove c)
  | .journalRemove _, _ => none
  | .journalPut u, .done => some (.createObjectRecord u)
  | .journalPut _, _ => none
  | .createObjectRecord _, .done => none
  | .createObjectRecord u, _ => some (.journalAbort u)
  | .journalAbort _, _ => none
  | .journalDelete u, .done => some (.deleteObject u)
  | .journalDelete _, _ => none
  | .deleteObject _, .done => none
  | .deleteObject u, _ => some (.journalPutBack u)
  | .journalPutBack _, _ => none
  | .journalPolicy id policy, .done => some (.setBucketPolicy id policy)
  | .journalPolicy _ _, _ => none
  | .setBucketPolicy _ _, _ => none

/-- A finished snapshot, and the flags that were closed when it was taken or have been closed
at some time since. -/
structure Snapshot (α : Type*) where
  containers : List (ContainerRow α)
  objects : List (ObjectRow α)
  closed : α → AccessFlag → Bool

/-- A snapshot under way: the objects it set out to read, and the rows it has read. -/
structure Reading (α : Type*) where
  expected : List α
  staged : List (ObjectRow α)

structure State (α : Type*) where
  rows : Collection α
  journal : List Record
  given : Table α (Origin α)
  requests : List (Request α)
  reading : Option (Reading α)
  snapshots : List (Snapshot α)

/-- Nobody knows a new id before its record is on the way to the journal. -/
inductive Event (α : Type*) where
  | begin (r : Request α) (outcome : Outcome)
  | load (u : Upload α)
  | step (r : Request α) (outcome : Outcome)
  | beginSnapshot
  | readObject (id : α)
  | finishSnapshot
  | abandonSnapshot
  | crash

variable [DecidableEq α]

/-- The flags of a row, or those of a container that was never closed nor opened. -/
def State.flags (s : State α) (id : α) : Flags := ((s.rows.get id).map Document.flags).getD noFlags

def State.closes (s : State α) (id : α) (f : AccessFlag) : Bool := !f.isOpen (flagOf (s.flags id) f)

/-- Every finished snapshot sees what is closed now. -/
def State.observe (s : State α) : State α :=
  { s with
    snapshots := s.snapshots.map fun sn =>
      { sn with closed := fun id f => sn.closed id f || s.closes id f } }

variable (ids : ObjectIds α)

def Upload.record (u : Upload α) : Record :=
  .put ⟨ids.hex u.id, u.containerId.map ids.hex, u.name, orNull u.mime, orNull u.md5, u.size,
    u.chunkSize⟩

/-- The journal's record of a container does not carry a policy. -/
def NewContainer.record (c : NewContainer α) : Record :=
  .container ⟨ids.hex c.id, c.containerId.map ids.hex, c.name, noFlags⟩

def State.append (s : State α) (r : Record) : State α := { s with journal := s.journal ++ [r] }

/-- What the next thing of a request does, unless the database refuses it. A policy is journaled
under the id as it stands in the request. -/
def effect (s : State α) : Request α → Option (State α)
  | .journalContainer c => some (s.append (c.record ids))
  | .insertContainer c =>
    match insertOne s.rows c.id c.document with
    | .ok rows => some { s with rows := rows }
    | .error _ => none
  | .journalRemove c => some (s.append (.del (ids.hex c.id)))
  | .journalPut u => some (s.append (u.record ids))
  | .createObjectRecord u =>
    if u.containerId.isSome ∧ u.bucketId = none then none
    else
      match insertOne s.rows u.id u.document with
      | .ok rows => some { s with rows := rows }
      | .error _ => none
  | .journalAbort u => some (s.append (.del (ids.hex u.id)))
  | .journalDelete u => some (s.append (.del (ids.hex u.id)))
  | .deleteObject u => some { s with rows := s.rows.erase u.id }
  | .journalPutBack u => some (s.append (u.record ids))
  | .journalPolicy id policy => some (s.append (.policy id policy))
  | .setBucketPolicy id policy =>
    some { s with rows := (ContentRepository.setBucketPolicy ids s.rows id policy).1 }.observe

/-- A record of the journal as JSON. -/
def rawRecord : Record → RawRecord
  | .container c =>
    { SnapshotWriter.RawRecord.empty .container with
      id := .text c.id
      cid := ofParent c.cid
      name := .text c.name
      pr := ofFlag c.flags.pr
      pw := ofFlag c.flags.pw
      dp := ofFlag c.flags.dp }
  | .put p =>
    { SnapshotWriter.RawRecord.empty .put with
      id := .text p.id
      cid := ofParent p.cid
      name := .text p.name
      mime := p.mime
      md5 := p.md5
      size := .number (some p.size)
      cs := .number (some p.cs) }
  | .del id => { SnapshotWriter.RawRecord.empty .del with id := .text id }
  | .policy id flags =>
    { SnapshotWriter.RawRecord.empty .policy with
      id := .text id
      pr := ofFlag flags.pr
      pw := ofFlag flags.pw
      dp := ofFlag flags.dp }

/-- The lines of a segment, with the empty one after its last newline. -/
def segmentLines (written : List (Text × Record)) : List Text := written.map Prod.fst ++ [[]]

/-- A new id has not been given before, and the journal has never heard of it. -/
def fresh (s : State α) (id : α) : Bool := id ∉ s.given.keys ∧ ∀ r ∈ s.journal, r.id ≠ ids.hex id

def parentKnown (s : State α) : Option α → Bool
  | none => true
  | some id => (s.rows.get id).any Document.isContainer

/-- What may begin at any time. -/
def admissible (s : State α) : Request α → Bool
  | .journalContainer c => fresh ids s c.id && parentKnown s c.containerId && !c.name.isEmpty
  | .journalPut u => fresh ids s u.id && parentKnown s u.containerId && !u.name.isEmpty
  | .journalPolicy id policy => (ids.ofText id).isSome && !id.isEmpty && policy ≠ noFlags
  | _ => false

def State.give (s : State α) : Request α → State α
  | .journalContainer c => { s with given := s.given.set c.id c.origin }
  | .journalPut u => { s with given := s.given.set u.id u.origin }
  | _ => s

/-- The next thing of a request is done. -/
def State.act (s : State α) (r : Request α) (outcome : Outcome) : State α :=
  let s' := if outcome = .failed then s else (effect ids s r).getD s
  { s' with requests := (r.following outcome).toList ++ s'.requests }

def fileIds (rows : Collection α) : List α := (rows.entries.filter (·.2.isFile)).map Prod.fst

def stagedIds (r : Reading α) : List α := r.staged.map ObjectRow.id

/-- The cursor comes to every object that is there all the time. -/
def Reading.complete (s : State α) (r : Reading α) : Bool :=
  r.expected.all fun id => !(s.rows.get id).any Document.isFile || id ∈ stagedIds r

def possible (s : State α) (r : Request α) (outcome : Outcome) : Bool :=
  outcome = .failed || (effect ids s r).isSome

def enabled (s : State α) : Event α → Bool
  | .begin r outcome => admissible ids s r && possible ids s r outcome
  | .load u => (s.rows.get u.id).bind (Upload.ofDocument u.id) = some u
  | .step r outcome => r ∈ s.requests && possible ids s r outcome
  | .beginSnapshot => s.reading.isNone
  | .readObject id =>
    s.reading.any fun reading => id ∉ stagedIds reading ∧
      ((s.rows.get id).any fun d => d.isFile ∧ (objectRow id d).isSome)
  | .finishSnapshot => s.reading.any (Reading.complete s)
  | .abandonSnapshot => s.reading.isSome
  | .crash => true

def next (s : State α) : Event α → State α
  | .begin r outcome => (s.give r).act ids r outcome
  | .load u => { s with requests := .journalDelete u :: s.requests }
  | .step r outcome => { s with requests := s.requests.erase r }.act ids r outcome
  | .beginSnapshot => { s with reading := some ⟨fileIds s.rows, []⟩ }
  | .readObject id =>
    { s with
      reading := s.reading.map fun reading =>
        { reading with
          staged := reading.staged ++ ((s.rows.get id).bind (objectRow id)).toList } }
  | .finishSnapshot =>
    match s.reading with
    | none => s
    | some reading =>
      { s with
        reading := none
        snapshots := ⟨listAllContainers s.rows, reading.staged, s.closes⟩ :: s.snapshots }
  | .abandonSnapshot => { s with reading := none }
  | .crash => { s with requests := [], reading := none }

/-- The row of what was made under an id. -/
structure Origin.Describes (o : Origin α) (d : Document α) : Prop where
  containerId : d.containerId = o.containerId
  name : d.name = .text o.name
  isContainer : d.isContainer = decide (o.kind = .container)
  isFile : d.isFile = decide (o.kind = .file)

def UniquePaths (rows : Collection α) : Prop :=
  ∀ i j d d', rows.get i = some d → rows.get j = some d' →
    d.containerId = d'.containerId → d.name = d'.name → i = j

/-- There may be rows before anything is journaled. -/
structure Initial (s : State α) : Prop where
  unique : UniquePaths s.rows
  named : ∀ id o, s.given.get id = some o → o.name ≠ []
  rows : ∀ id d, s.rows.get id = some d → ∃ o, s.given.get id = some o ∧ o.Describes d
  journal : s.journal = []
  requests : s.requests = []
  reading : s.reading = none
  snapshots : s.snapshots = []

def machine : Machine (State α) (Event α) where
  Initial := Initial
  Enabled s e := enabled ids s e
  next := next ids

/-! ## What every run keeps -/

section Run

/-- A record about something that was made. -/
def Fits (given : Table α (Origin α)) : Record → Prop
  | .container c => ∃ id o, given.get id = some o ∧ o.kind = .container ∧
      c = ⟨ids.hex id, o.containerId.map ids.hex, o.name, noFlags⟩
  | .put p => ∃ id o, given.get id = some o ∧ o.kind = .file ∧ p.id = ids.hex id ∧
      p.cid = o.containerId.map ids.hex ∧ p.name = o.name
  | .del t => ∃ id o, given.get id = some o ∧ t = ids.hex id
  | .policy t _ => t ≠ []

/-- What may be under way, once it has begun. -/
def Request.Fits (given : Table α (Origin α)) (journal : List Record) : Request α → Prop
  | .insertContainer c => given.get c.id = some c.origin ∧ c.record ids ∈ journal
  | .journalRemove c => given.get c.id = some c.origin
  | .createObjectRecord u => given.get u.id = some u.origin
  | .journalAbort u => given.get u.id = some u.origin
  | .journalDelete u => given.get u.id = some u.origin
  | .deleteObject u => given.get u.id = some u.origin
  | .journalPutBack u => given.get u.id = some u.origin
  | .setBucketPolicy _ _ => True
  | .journalContainer _ => False
  | .journalPut _ => False
  | .journalPolicy _ _ => False

def ObjectFits (given : Table α (Origin α)) (row : ObjectRow α) : Prop :=
  ∃ o, given.get row.id = some o ∧ o.kind = .file ∧ row.cid = o.containerId ∧
    row.name = .text o.name

def ContainerFits (given : Table α (Origin α)) (row : ContainerRow α) : Prop :=
  ∃ o, given.get row.id = some o ∧ o.kind = .container ∧ row.cid = o.containerId ∧
    row.name = .text o.name

def Snapshot.containerIds (sn : Snapshot α) : List α := sn.containers.map ContainerRow.id

/-- The ghost of a snapshot knows what the snapshot says is closed. -/
structure Snapshot.Fits (given : Table α (Origin α)) (sn : Snapshot α) : Prop where
  containersOnce : sn.containerIds.Nodup
  objectsOnce : (sn.objects.map ObjectRow.id).Nodup
  containers : ∀ c ∈ sn.containers, ContainerFits given c
  objects : ∀ o ∈ sn.objects, ObjectFits given o
  closed : ∀ c ∈ sn.containers, c.cid = none → ∀ f, ¬f.isOpen (flagOf c.flags f) → sn.closed c.id f
  absent : ∀ id ∉ sn.containerIds, (∀ o, given.get id = some o → o.kind = .container) →
    ∀ f, ¬f.isOpen (flagOf noFlags f) → sn.closed id f

structure Invariant (s : State α) : Prop where
  unique : UniquePaths s.rows
  named : ∀ id o, s.given.get id = some o → o.name ≠ []
  rows : ∀ id d, s.rows.get id = some d → ∃ o, s.given.get id = some o ∧ o.Describes d
  journal : ∀ r ∈ s.journal, LiveNamespace.Fits ids s.given r
  first : ∀ before c after, s.journal = before ++ .container c :: after →
    ∀ r ∈ before, r.id ≠ c.id
  requests : ∀ r ∈ s.requests, r.Fits ids s.given s.journal
  reading : ∀ reading, s.reading = some reading →
    (stagedIds reading).Nodup ∧ ∀ o ∈ reading.staged, ObjectFits s.given o
  snapshots : ∀ sn ∈ s.snapshots, sn.Fits s.given
  known : ∀ id d, s.rows.get id = some d → d.isContainer →
    (∃ c, .container c ∈ s.journal ∧ c.id = ids.hex id) ∨ ∀ sn ∈ s.snapshots, id ∈ sn.containerIds

variable {ids} {s : State α} {given given' : Table α (Origin α)} {journal journal' : List Record}

/-- What is said about an id stays true when further ones are given. -/
def Extends (given given' : Table α (Origin α)) : Prop :=
  ∀ id o, given.get id = some o → given'.get id = some o

theorem ObjectFits.mono (h : Extends given given') {row : ObjectRow α}
    (hrow : ObjectFits given row) :
    ObjectFits given' row := by
  obtain ⟨o, ho, hrest⟩ := hrow
  exact ⟨o, h _ _ ho, hrest⟩

theorem ContainerFits.mono (h : Extends given given') {row : ContainerRow α}
    (hrow : ContainerFits given row) : ContainerFits given' row := by
  obtain ⟨o, ho, hrest⟩ := hrow
  exact ⟨o, h _ _ ho, hrest⟩

theorem Fits.mono (h : Extends given given') {r : Record} (hr : Fits ids given r) :
    Fits ids given' r := by
  cases r with
  | container c =>
    obtain ⟨id, o, ho, hrest⟩ := hr
    exact ⟨id, o, h _ _ ho, hrest⟩
  | put p =>
    obtain ⟨id, o, ho, hrest⟩ := hr
    exact ⟨id, o, h _ _ ho, hrest⟩
  | del t =>
    obtain ⟨id, o, ho, hrest⟩ := hr
    exact ⟨id, o, h _ _ ho, hrest⟩
  | policy id flags => exact hr

theorem Request.Fits.mono (h : Extends given given') (hjournal : journal ⊆ journal') {r : Request α}
    (hr : r.Fits ids given journal) : r.Fits ids given' journal' := by
  cases r with
  | insertContainer c => exact ⟨h _ _ hr.1, hjournal hr.2⟩
  | setBucketPolicy id policy => trivial
  | journalContainer c => exact hr
  | journalPut u => exact hr
  | journalPolicy id policy => exact hr
  | _ => exact h _ _ hr

theorem Snapshot.Fits.mono (h : Extends given given') {sn : Snapshot α} (hsn : sn.Fits given) :
    sn.Fits given' where
  containersOnce := hsn.containersOnce
  objectsOnce := hsn.objectsOnce
  containers c hc := (hsn.containers c hc).mono h
  objects o ho := (hsn.objects o ho).mono h
  closed := hsn.closed
  absent id hid hkind := hsn.absent id hid fun o ho => hkind o (h id o ho)

/-- Only what was given is left as it was. -/
theorem Invariant.give {id : α} {o : Origin α} (h : Invariant ids s) (hid : id ∉ s.given.keys)
    (ho : o.name ≠ []) : Invariant ids { s with given := s.given.set id o } := by
  have hnone : s.given.get id = none := by
    rw [mem_keys_iff] at hid
    simpa using hid
  have hextends : Extends s.given (s.given.set id o) := by
    intro id' o' ho'
    refine (get_set_ne _ _ fun heq => ?_).trans ho'
    rw [heq, hnone] at ho'
    cases ho'
  refine ⟨h.unique, fun id' o' ho' => ?_, fun id' d hd => ?_,
    fun r hr => (h.journal r hr).mono hextends,
    h.first, fun r hr => (h.requests r hr).mono hextends (List.Subset.refl _),
    fun reading hreading => ?_, fun sn hsn => (h.snapshots sn hsn).mono hextends, h.known⟩
  · simp only [get_set] at ho'
    split at ho'
    · rwa [← Option.some.inj ho']
    · exact h.named id' o' ho'
  · obtain ⟨o', ho', hd⟩ := h.rows id' d hd
    exact ⟨o', hextends _ _ ho', hd⟩
  · obtain ⟨hnodup, hstaged⟩ := h.reading reading hreading
    exact ⟨hnodup, fun o' ho' => (hstaged o' ho').mono hextends⟩

/-- A container's record is the first thing the journal hears of it. -/
theorem Invariant.append {r : Record} (h : Invariant ids s) (hr : Fits ids s.given r)
    (hfirst : ∀ c, r = .container c → ∀ r' ∈ s.journal, r'.id ≠ c.id) :
    Invariant ids (s.append r) := by
  have hsubset : s.journal ⊆ (s.append r).journal := List.subset_append_left _ _
  refine ⟨h.unique, h.named, h.rows, fun r' hr' => ?_, fun before c after heq => ?_,
    fun q hq => (h.requests q hq).mono (fun _ _ ho => ho) hsubset, h.reading, h.snapshots,
    fun id d hd hcontainer => ?_⟩
  · rcases List.mem_append.mp hr' with hr' | hr'
    · exact h.journal r' hr'
    · rw [List.mem_singleton.mp hr']
      exact hr
  · rcases List.eq_nil_or_concat after with rfl | ⟨after, r', rfl⟩
    · obtain ⟨rfl, hrc⟩ := List.append_inj' heq rfl
      exact hfirst c (List.singleton_injective hrc)
    · rw [List.concat_eq_append, ← List.cons_append, ← List.append_assoc] at heq
      exact h.first before c after (List.append_inj' heq rfl).1
  · exact (h.known id d hd hcontainer).imp_left fun ⟨c, hc, hid⟩ => ⟨c, hsubset hc, hid⟩

theorem Invariant.setRequests {requests : List (Request α)} (h : Invariant ids s)
    (hrequests : ∀ r ∈ requests, r.Fits ids s.given s.journal) :
    Invariant ids { s with requests := requests } :=
  ⟨h.unique, h.named, h.rows, h.journal, h.first, hrequests, h.reading, h.snapshots, h.known⟩

theorem Invariant.setRows {rows : Collection α} (h : Invariant ids s) (hunique : UniquePaths rows)
    (hrows : ∀ id d, rows.get id = some d → ∃ o, s.given.get id = some o ∧ o.Describes d)
    (hknown : ∀ id d, rows.get id = some d → d.isContainer →
      (∃ c, .container c ∈ s.journal ∧ c.id = ids.hex id) ∨
        ∃ d, s.rows.get id = some d ∧ d.isContainer) :
    Invariant ids { s with rows := rows } := by
  refine ⟨hunique, h.named, hrows, h.journal, h.first, h.requests, h.reading, h.snapshots, ?_⟩
  intro id d hd hcontainer
  rcases hknown id d hd hcontainer with hc | ⟨d', hd', hcontainer'⟩
  · exact .inl hc
  · exact h.known id d' hd' hcontainer'

theorem Invariant.observe (h : Invariant ids s) : Invariant ids s.observe := by
  refine ⟨h.unique, h.named, h.rows, h.journal, h.first, h.requests, h.reading, fun sn hsn => ?_,
    fun id d hd hcontainer => (h.known id d hd hcontainer).imp_right fun hall sn hsn => ?_⟩
  · obtain ⟨sn', hsn', rfl⟩ := List.mem_map.mp hsn
    have hfits := h.snapshots sn' hsn'
    exact ⟨hfits.containersOnce, hfits.objectsOnce, hfits.containers, hfits.objects,
      fun c hc hcid f hf => Bool.or_eq_true_iff.mpr (.inl (hfits.closed c hc hcid f hf)),
      fun id hid hkind f hf => Bool.or_eq_true_iff.mpr (.inl (hfits.absent id hid hkind f hf))⟩
  · obtain ⟨sn', hsn', rfl⟩ := List.mem_map.mp hsn
    exact hall sn' hsn'

theorem uniquePaths_insert {rows rows' : Collection α} {id : α} {d : Document α}
    (h : UniquePaths rows) (hinsert : insertOne rows id d = .ok rows') :
    rows' = rows.set id d ∧ UniquePaths rows' := by
  unfold insertOne at hinsert
  split at hinsert
  · cases hinsert
  · next hfree =>
    rw [not_or] at hfree
    obtain rfl := (Except.ok.inj hinsert).symm
    have hother : ∀ i d', rows.get i = some d' → i ≠ id → d'.containerId = d.containerId →
        d'.name ≠ d.name := by
      intro i d' hd' hi hcid hname
      refine hfree.2 (List.any_eq_true.mpr ⟨(i, d'), get_eq_some_iff.mp hd', ?_⟩)
      simp [hi, hcid, hname]
    refine ⟨rfl, fun i j di dj hi hj hcid hname => ?_⟩
    rw [get_set] at hi hj
    by_cases hiid : i = id <;> by_cases hjid : j = id
    · rw [hiid, hjid]
    · rw [if_pos hiid] at hi
      rw [if_neg hjid] at hj
      obtain rfl := Option.some.inj hi
      exact absurd hname.symm (hother j dj hj hjid hcid.symm)
    · rw [if_neg hiid] at hi
      rw [if_pos hjid] at hj
      obtain rfl := Option.some.inj hj
      exact absurd hname (hother i di hi hiid hcid)
    · rw [if_neg hiid] at hi
      rw [if_neg hjid] at hj
      exact h i j di dj hi hj hcid hname

theorem Invariant.insert {id : α} {o : Origin α} {d : Document α} {rows : Collection α}
    (h : Invariant ids s) (ho : s.given.get id = some o) (hd : o.Describes d)
    (hknown : d.isContainer → ∃ c, .container c ∈ s.journal ∧ c.id = ids.hex id)
    (hinsert : insertOne s.rows id d = .ok rows) : Invariant ids { s with rows := rows } := by
  obtain ⟨rfl, hunique⟩ := uniquePaths_insert h.unique hinsert
  refine h.setRows hunique (fun id' d' hd' => ?_) fun id' d' hd' hcontainer => ?_ <;>
    rw [get_set] at hd' <;> split at hd'
  · next hid =>
    exact ⟨o, hid ▸ ho, Option.some.inj hd' ▸ hd⟩
  · exact h.rows id' d' hd'
  · next hid =>
    exact .inl (hid ▸ hknown (Option.some.inj hd' ▸ hcontainer))
  · exact .inr ⟨d', hd', hcontainer⟩

theorem Invariant.erase (h : Invariant ids s) (id : α) :
    Invariant ids { s with rows := s.rows.erase id } := by
  have hget : ∀ {i d}, (s.rows.erase id).get i = some d → s.rows.get i = some d := by
    intro i d hd
    rw [get_erase] at hd
    split at hd
    · cases hd
    · exact hd
  refine h.setRows (fun i j di dj hi hj => h.unique i j di dj (hget hi) (hget hj))
    (fun i d hd => h.rows i d (hget hd)) fun i d hd hcontainer => .inr ⟨d, hget hd, hcontainer⟩

/-- A policy changes nothing about a row but its flags. -/
theorem get_setBucketPolicy {rows : Collection α} {t : Text} {policy : Flags} {i : α}
    {d : Document α}
    (h : (ContentRepository.setBucketPolicy ids rows t policy).1.get i = some d) :
    ∃ d', rows.get i = some d' ∧ d.containerId = d'.containerId ∧ d.name = d'.name ∧
      d.isContainer = d'.isContainer ∧ d.isFile = d'.isFile := by
  unfold ContentRepository.setBucketPolicy at h
  split at h
  · exact ⟨d, h, rfl, rfl, rfl, rfl⟩
  · next id d' hfound =>
    split at h
    · exact ⟨d, h, rfl, rfl, rfl, rfl⟩
    · obtain ⟨id', _, hget⟩ := Option.bind_eq_some_iff.mp hfound
      obtain ⟨d'', hd'', heq⟩ := Option.map_eq_some_iff.mp hget
      obtain ⟨rfl, rfl⟩ := Prod.mk.inj heq
      rw [get_set] at h
      split at h
      · next hid =>
        obtain rfl := Option.some.inj h
        exact ⟨d'', hid ▸ hd'', rfl, rfl, rfl, rfl⟩
      · exact ⟨d, h, rfl, rfl, rfl, rfl⟩

theorem Invariant.setBucketPolicy (h : Invariant ids s) (t : Text) (policy : Flags) :
    Invariant ids { s with rows := (ContentRepository.setBucketPolicy ids s.rows t policy).1 } := by
  refine h.setRows (fun i j di dj hi hj hcid hname => ?_) (fun i d hd => ?_)
    fun i d hd hcontainer => .inr ?_
  · obtain ⟨di', hi', hicid, hiname, _⟩ := get_setBucketPolicy hi
    obtain ⟨dj', hj', hjcid, hjname, _⟩ := get_setBucketPolicy hj
    exact h.unique i j di' dj' hi' hj' (hicid ▸ hjcid ▸ hcid) (hiname ▸ hjname ▸ hname)
  · obtain ⟨d', hd', hcid, hname, hcontainer, hfile⟩ := get_setBucketPolicy hd
    obtain ⟨o, ho, hdescribes⟩ := h.rows i d' hd'
    exact ⟨o, ho, hcid.trans hdescribes.containerId, hname.trans hdescribes.name,
      hcontainer.trans hdescribes.isContainer, hfile.trans hdescribes.isFile⟩
  · obtain ⟨d', hd', _, _, hsame, _⟩ := get_setBucketPolicy hd
    exact ⟨d', hd', hsame ▸ hcontainer⟩

omit [DecidableEq α] in
theorem NewContainer.describes (c : NewContainer α) : c.origin.Describes c.document := by
  constructor <;> rfl

omit [DecidableEq α] in
theorem Upload.describes (u : Upload α) : u.origin.Describes u.document := by
  constructor <;> rfl

variable (ids) in
/-- What may be done next, whether it has begun before or begins now. -/
def Request.Ready (s : State α) (r : Request α) : Prop :=
  match r with
  | .journalContainer c =>
    s.given.get c.id = some c.origin ∧ ∀ r' ∈ s.journal, r'.id ≠ ids.hex c.id
  | .journalPut u => s.given.get u.id = some u.origin
  | .journalPolicy t _ => t ≠ []
  | r => r.Fits ids s.given s.journal

theorem Upload.fits {u : Upload α} (h : given.get u.id = some u.origin) :
    Fits ids given (u.record ids) :=
  ⟨u.id, u.origin, h, rfl, rfl, rfl, rfl⟩

theorem NewContainer.fits {c : NewContainer α} (h : given.get c.id = some c.origin) :
    Fits ids given (c.record ids) :=
  ⟨c.id, c.origin, h, rfl, rfl⟩

theorem effect_invariant {s' : State α} {r : Request α} (h : Invariant ids s)
    (hr : r.Ready ids s) (heffect : effect ids s r = some s') : Invariant ids s' := by
  have happend : ∀ {record : Record}, Fits ids s.given record → (∀ c, record ≠ .container c) →
      Invariant ids (s.append record) :=
    fun hfits hne => h.append hfits fun c hc => absurd hc (hne c)
  cases r with
  | journalContainer c =>
    obtain rfl := Option.some.inj heffect
    refine h.append (NewContainer.fits hr.1) fun c' hc' => ?_
    obtain rfl := Record.container.inj hc'
    exact hr.2
  | insertContainer c =>
    simp only [effect] at heffect
    split at heffect
    · next rows hinsert =>
      obtain rfl := Option.some.inj heffect
      exact h.insert hr.1 c.describes (fun _ => ⟨_, hr.2, rfl⟩) hinsert
    · cases heffect
  | journalRemove c =>
    obtain rfl := Option.some.inj heffect
    exact happend ⟨_, _, hr, rfl⟩ (by simp)
  | journalPut u =>
    obtain rfl := Option.some.inj heffect
    exact happend (Upload.fits hr) (by simp [Upload.record])
  | createObjectRecord u =>
    simp only [effect] at heffect
    split at heffect
    · cases heffect
    · split at heffect
      · next rows hinsert =>
        obtain rfl := Option.some.inj heffect
        exact h.insert hr u.describes
          (fun hcontainer => absurd hcontainer Bool.false_ne_true) hinsert
      · cases heffect
  | journalAbort u =>
    obtain rfl := Option.some.inj heffect
    exact happend ⟨_, _, hr, rfl⟩ (by simp)
  | journalDelete u =>
    obtain rfl := Option.some.inj heffect
    exact happend ⟨_, _, hr, rfl⟩ (by simp)
  | deleteObject u =>
    obtain rfl := Option.some.inj heffect
    exact h.erase u.id
  | journalPutBack u =>
    obtain rfl := Option.some.inj heffect
    exact happend (Upload.fits hr) (by simp [Upload.record])
  | journalPolicy id policy =>
    obtain rfl := Option.some.inj heffect
    exact happend hr (by simp)
  | setBucketPolicy id policy =>
    obtain rfl := Option.some.inj heffect
    exact (h.setBucketPolicy id policy).observe

theorem effect_frame {s' : State α} {r : Request α} (heffect : effect ids s r = some s') :
    s'.given = s.given ∧ s.journal ⊆ s'.journal ∧ s'.requests = s.requests := by
  have happend : ∀ record, some (s.append record) = some s' →
      s'.given = s.given ∧ s.journal ⊆ s'.journal ∧ s'.requests = s.requests := by
    intro record heq
    obtain rfl := Option.some.inj heq
    exact ⟨rfl, List.subset_append_left _ _, rfl⟩
  have hrows : ∀ rows, some { s with rows := rows } = some s' →
      s'.given = s.given ∧ s.journal ⊆ s'.journal ∧ s'.requests = s.requests := by
    intro rows heq
    obtain rfl := Option.some.inj heq
    exact ⟨rfl, List.Subset.refl _, rfl⟩
  cases r with
  | insertContainer c =>
    simp only [effect] at heffect
    split at heffect
    · exact hrows _ heffect
    · cases heffect
  | createObjectRecord u =>
    simp only [effect] at heffect
    split at heffect
    · cases heffect
    · split at heffect
      · exact hrows _ heffect
      · cases heffect
  | deleteObject u => exact hrows _ heffect
  | setBucketPolicy id policy =>
    obtain rfl := Option.some.inj heffect
    exact ⟨rfl, List.Subset.refl _, rfl⟩
  | _ => exact happend _ heffect

/-- What comes next fits what has been done. -/
theorem following_fits {s' : State α} {r r' : Request α} {outcome : Outcome}
    (hr : r.Ready ids s) (hjournal : s.journal ⊆ s'.journal) (hgiven : s'.given = s.given)
    (heffect : outcome = .done → effect ids s r = some s')
    (hfollowing : r.following outcome = some r') : r'.Fits ids s'.given s'.journal := by
  rw [hgiven]
  cases r with
  | journalContainer c =>
    cases outcome with
    | done =>
      obtain rfl := Option.some.inj hfollowing
      obtain rfl := Option.some.inj (heffect rfl)
      exact ⟨hr.1, List.mem_append_right _ (List.mem_singleton_self _)⟩
    | _ => cases hfollowing
  | insertContainer c => cases outcome <;> cases hfollowing <;> exact hr.1
  | journalPut u =>
    cases outcome <;> cases hfollowing
    exact hr
  | createObjectRecord u => cases outcome <;> cases hfollowing <;> exact hr
  | journalDelete u =>
    cases outcome <;> cases hfollowing
    exact hr
  | deleteObject u => cases outcome <;> cases hfollowing <;> exact hr
  | journalPolicy id policy =>
    cases outcome <;> cases hfollowing
    trivial
  | _ => cases outcome <;> cases hfollowing

theorem act_invariant {r : Request α} {outcome : Outcome} (h : Invariant ids s)
    (hr : r.Ready ids s) (hpossible : possible ids s r outcome) :
    Invariant ids (s.act ids r outcome) := by
  have hall : ∀ s' : State α, Invariant ids s' → s'.given = s.given → s.journal ⊆ s'.journal →
      s'.requests = s.requests → (outcome = .done → effect ids s r = some s') →
      Invariant ids { s' with requests := (r.following outcome).toList ++ s'.requests } := by
    intro s' hs' hgiven hjournal hrequests heffect
    refine hs'.setRequests fun q hq => ?_
    rcases List.mem_append.mp hq with hq | hq
    · exact following_fits hr hjournal hgiven heffect (by simpa using hq)
    · rw [hrequests] at hq
      rw [hgiven]
      exact (h.requests q hq).mono (fun _ _ ho => ho) hjournal
  unfold State.act
  by_cases hfailed : outcome = .failed
  · rw [if_pos hfailed]
    exact hall s h rfl (List.Subset.refl _) rfl fun hdone => by simp [hfailed] at hdone
  · rw [if_neg hfailed]
    have hsome : (effect ids s r).isSome := by simpa [possible, hfailed] using hpossible
    obtain ⟨s', hs'⟩ := Option.isSome_iff_exists.mp hsome
    obtain ⟨hgiven, hjournal, hrequests⟩ := effect_frame hs'
    rw [hs', Option.getD_some]
    exact hall s' (effect_invariant h hr hs') hgiven hjournal hrequests fun _ => hs'

theorem possible_congr {s' : State α} {r : Request α} {outcome : Outcome} (h : s.rows = s'.rows) :
    possible ids s r outcome = possible ids s' r outcome := by
  have hsome : (effect ids s r).isSome = (effect ids s' r).isSome := by
    cases r with
    | insertContainer c =>
      simp only [effect, h]
      cases insertOne s'.rows c.id c.document <;> rfl
    | createObjectRecord u =>
      simp only [effect, h]
      split
      · rfl
      · cases insertOne s'.rows u.id u.document <;> rfl
    | _ => rfl
  rw [possible, possible, hsome]

theorem ready_of_fits {r : Request α} (hr : r.Fits ids s.given s.journal) :
    r.Ready ids s := by
  cases r with
  | journalContainer c => exact absurd hr id
  | journalPut u => exact absurd hr id
  | journalPolicy t policy => exact absurd hr id
  | _ => exact hr

theorem fresh_iff {id : α} :
    fresh ids s id ↔ id ∉ s.given.keys ∧ ∀ r ∈ s.journal, r.id ≠ ids.hex id := by
  simp [fresh]

theorem admissible_ready {r : Request α} (h : Invariant ids s) (hr : admissible ids s r) :
    Invariant ids (s.give r) ∧ r.Ready ids (s.give r) := by
  cases r with
  | journalContainer c =>
    simp only [admissible, Bool.and_eq_true, fresh_iff] at hr
    have hname : c.origin.name ≠ [] := by simpa [NewContainer.origin] using hr.2
    exact ⟨h.give hr.1.1.1 hname, get_set_self _ _ _, hr.1.1.2⟩
  | journalPut u =>
    simp only [admissible, Bool.and_eq_true, fresh_iff] at hr
    have hname : u.origin.name ≠ [] := by simpa [Upload.origin] using hr.2
    exact ⟨h.give hr.1.1.1 hname, get_set_self _ _ _⟩
  | journalPolicy t policy =>
    simp only [admissible, Bool.and_eq_true] at hr
    have hid : t ≠ [] := by simpa using hr.1.2
    exact ⟨h, hid⟩
  | _ => cases hr

omit [DecidableEq α] in
theorem ofDocument_some {id : α} {d : Document α} {u : Upload α}
    (h : Upload.ofDocument id d = some u) :
    u.id = id ∧ d.isFile ∧ u.containerId = d.containerId ∧ d.name = .text u.name := by
  unfold Upload.ofDocument at h
  split at h
  · next hfile hname _ _ =>
    obtain rfl := Option.some.inj h
    exact ⟨rfl, hfile, rfl, hname⟩
  · cases h

theorem Invariant.file (h : Invariant ids s) {id : α} {d : Document α} (hd : s.rows.get id = some d)
    (hfile : d.isFile) :
    ∃ o, s.given.get id = some o ∧ o.kind = .file ∧ d.containerId = o.containerId ∧
      d.name = .text o.name := by
  obtain ⟨o, ho, hdescribes⟩ := h.rows id d hd
  rw [hdescribes.isFile, decide_eq_true_eq] at hfile
  exact ⟨o, ho, hfile, hdescribes.containerId, hdescribes.name⟩

omit [DecidableEq α] in
theorem objectRow_some {id : α} {d : Document α} {row : ObjectRow α}
    (h : objectRow id d = some row) :
    row.id = id ∧ row.cid = d.containerId ∧ row.name = d.name := by
  unfold objectRow at h
  split at h
  · obtain rfl := Option.some.inj h
    exact ⟨rfl, rfl, rfl⟩
  · cases h

theorem readObject_invariant {id : α} (h : Invariant ids s)
    (he : enabled ids s (.readObject id)) : Invariant ids (next ids s (.readObject id)) := by
  refine ⟨h.unique, h.named, h.rows, h.journal, h.first, h.requests, fun reading hreading => ?_,
    h.snapshots, h.known⟩
  obtain ⟨reading', hreading', rfl⟩ := Option.map_eq_some_iff.mp hreading
  obtain ⟨hnodup, hstaged⟩ := h.reading reading' hreading'
  simp only [enabled, hreading', Option.any_some, decide_eq_true_eq,
    Option.any_eq_true_iff_get] at he
  obtain ⟨hnew, hrow, hfile, hsome⟩ := he
  obtain ⟨d, hd⟩ := Option.isSome_iff_exists.mp hrow
  simp only [hd, Option.get_some] at hfile hsome
  obtain ⟨row, hrow'⟩ := Option.isSome_iff_exists.mp hsome
  obtain ⟨hid, hcid, hname⟩ := objectRow_some hrow'
  simp only [stagedIds, hd, Option.bind_some, hrow', Option.toList_some, List.map_append,
    List.map_singleton]
  refine ⟨?_, fun o ho => ?_⟩
  · rw [← List.concat_eq_append]
    exact hnodup.concat (hid ▸ hnew)
  · rcases List.mem_append.mp ho with ho | ho
    · exact hstaged o ho
    · rw [List.mem_singleton.mp ho]
      obtain ⟨origin, horigin, hkind, hcid', hname'⟩ := h.file hd hfile
      exact ⟨origin, hid ▸ horigin, hkind, hcid.trans hcid', hname.trans hname'⟩

theorem mem_listAllContainers {rows : Collection α} {c : ContainerRow α} :
    c ∈ listAllContainers rows ↔
      ∃ d, rows.get c.id = some d ∧ d.isContainer ∧ c = containerRow c.id d := by
  simp only [listAllContainers, List.mem_map, List.mem_filter]
  constructor
  · rintro ⟨e, ⟨he, hcontainer⟩, rfl⟩
    exact ⟨e.2, get_eq_some_iff.mpr he, hcontainer, rfl⟩
  · rintro ⟨d, hd, hcontainer, heq⟩
    exact ⟨(c.id, d), ⟨get_eq_some_iff.mp hd, hcontainer⟩, heq.symm⟩

theorem finishSnapshot_fits {reading : Reading α} (h : Invariant ids s)
    (hreading : s.reading = some reading) :
    Snapshot.Fits s.given ⟨listAllContainers s.rows, reading.staged, s.closes⟩ := by
  obtain ⟨hnodup, hstaged⟩ := h.reading reading hreading
  refine ⟨?_, hnodup, fun c hc => ?_, hstaged, fun c hc hcid f hf => ?_,
    fun id hid hkind f hf => ?_⟩
  · simp only [Snapshot.containerIds, listAllContainers, List.map_map]
    exact s.rows.nodup.sublist (List.filter_sublist.map _)
  · obtain ⟨d, hd, hcontainer, heq⟩ := mem_listAllContainers.mp hc
    obtain ⟨o, ho, hdescribes⟩ := h.rows c.id d hd
    rw [hdescribes.isContainer, decide_eq_true_eq] at hcontainer
    rw [heq]
    exact ⟨o, ho, hcontainer, hdescribes.containerId, hdescribes.name⟩
  · obtain ⟨d, hd, _, heq⟩ := mem_listAllContainers.mp hc
    have hroot : d.containerId = none := by
      rw [heq] at hcid
      exact hcid
    have hflags : c.flags = d.flags := by
      rw [heq]
      simp [containerRow, hroot]
    simpa [State.closes, State.flags, hd, ← hflags] using hf
  · have hnone : s.rows.get id = none := by
      by_contra hne
      obtain ⟨d, hd⟩ := Option.ne_none_iff_exists'.mp hne
      obtain ⟨o, ho, hdescribes⟩ := h.rows id d hd
      refine hid (List.mem_map.mpr
        ⟨containerRow id d, mem_listAllContainers.mpr ⟨d, hd, ?_, rfl⟩, rfl⟩)
      rw [hdescribes.isContainer, hkind o ho]
      rfl
    simpa [State.closes, State.flags, hnone] using hf

theorem next_invariant {e : Event α} (h : Invariant ids s) (he : enabled ids s e) :
    Invariant ids (next ids s e) := by
  cases e with
  | begin r outcome =>
    rw [enabled, Bool.and_eq_true] at he
    obtain ⟨hgive, hready⟩ := admissible_ready h he.1
    have hrows : (s.give r).rows = s.rows := by cases r <;> rfl
    refine act_invariant hgive hready ?_
    rw [possible_congr hrows]
    exact he.2
  | load u =>
    refine h.setRequests fun r hr => ?_
    rcases List.mem_cons.mp hr with rfl | hr
    · simp only [enabled, decide_eq_true_eq, Option.bind_eq_some_iff] at he
      obtain ⟨d, hd, hu⟩ := he
      obtain ⟨_, hfile, hcid, hname⟩ := ofDocument_some hu
      obtain ⟨⟨kind, cid, name⟩, ho, hkind, hcid', hname'⟩ := h.file hd hfile
      obtain rfl : kind = .file := hkind
      obtain rfl : u.containerId = cid := hcid.trans hcid'
      obtain rfl : u.name = name := Value.text.inj (hname.symm.trans hname')
      exact ho
    · exact h.requests r hr
  | step r outcome =>
    rw [enabled, Bool.and_eq_true] at he
    obtain ⟨hmem, hpossible⟩ := he
    have hr := h.requests r (by simpa using hmem)
    have herase : Invariant ids { s with requests := s.requests.erase r } :=
      h.setRequests fun q hq => h.requests q (List.mem_of_mem_erase hq)
    refine act_invariant herase (ready_of_fits hr) ?_
    have hsame : possible ids { s with requests := s.requests.erase r } r outcome =
        possible ids s r outcome := possible_congr rfl
    rw [hsame]
    exact hpossible
  | beginSnapshot =>
    refine ⟨h.unique, h.named, h.rows, h.journal, h.first, h.requests, fun reading hreading => ?_,
      h.snapshots, h.known⟩
    obtain rfl := Option.some.inj hreading
    exact ⟨List.nodup_nil, by simp⟩
  | readObject id => exact readObject_invariant h he
  | finishSnapshot =>
    simp only [next]
    split
    · exact h
    · next reading hreading =>
      have hfits := finishSnapshot_fits h hreading
      refine ⟨h.unique, h.named, h.rows, h.journal, h.first, h.requests, by simp, fun sn hsn => ?_,
        fun id d hd hcontainer => (h.known id d hd hcontainer).imp_right fun hall sn hsn => ?_⟩
      · rcases List.mem_cons.mp hsn with rfl | hsn
        · exact hfits
        · exact h.snapshots sn hsn
      · rcases List.mem_cons.mp hsn with rfl | hsn
        · exact List.mem_map.mpr
            ⟨containerRow id d, mem_listAllContainers.mpr ⟨d, hd, hcontainer, rfl⟩, rfl⟩
        · exact hall sn hsn
  | abandonSnapshot =>
    exact ⟨h.unique, h.named, h.rows, h.journal, h.first, h.requests, by simp [next], h.snapshots,
      h.known⟩
  | crash =>
    exact ⟨h.unique, h.named, h.rows, h.journal, h.first, by simp [next], by simp [next],
      h.snapshots, h.known⟩

theorem reachable_invariant (h : Reachable (machine ids) s) : Invariant ids s := by
  refine h.invariant (P := Invariant ids) (fun s hs => ?_) fun s e hinv he => next_invariant hinv he
  refine ⟨hs.unique, hs.named, hs.rows, ?_, ?_, ?_, ?_, ?_, fun id d _ _ => .inr ?_⟩
  · simp [hs.journal]
  · simp [hs.journal]
  · simp [hs.requests]
  · simp [hs.reading]
  · simp [hs.snapshots]
  · simp [hs.snapshots]

end Run

/-! ## The journal is read back -/

section ReadBack

variable {parse : Text → SnapshotFile.Parsed}

def Named : Record → Prop
  | .container c => c.name ≠ []
  | .put p => p.name ≠ []
  | .del _ => True
  | .policy _ _ => True

theorem nonEmptyText?_text {t : Text} (h : t ≠ []) : (Value.text t).nonEmptyText? = some t := by
  simp [Value.nonEmptyText?, h]

theorem decode_rawRecord {r : Record} (hid : r.id ≠ []) (hname : Named r) :
    decode (rawRecord r) = some r := by
  cases r <;>
    simp_all [decode, rawRecord, flags?, Record.id, Named, SnapshotWriter.RawRecord.empty,
      nonEmptyText?_text, SnapshotWriter.flag?_ofFlag, SnapshotWriter.parent?_ofParent,
      Value.finite?]

theorem texts_journalLines (segments : List (List Text)) :
    (journalLines segments).map JournalLine.text = segments.flatten := by
  have hlines : ∀ (lines : List Text) (f : Text × ℕ → JournalLine), (∀ e, (f e).text = e.1) →
      (lines.zipIdx.map f).map JournalLine.text = lines := by
    intro lines f hf
    have hfst : lines.zipIdx.map (JournalLine.text ∘ f) = lines.zipIdx.map Prod.fst :=
      List.map_congr_left fun e _ => hf e
    rw [List.map_map, hfst]
    exact List.zipIdx_map_fst 0 lines
  unfold journalLines
  rw [List.map_flatMap, List.flatMap_congr (g := Prod.fst) fun e _ => hlines e.1 _ fun _ => rfl]
  rw [List.flatMap, List.zipIdx_map_fst]

/-- A line that is blank or says something that makes sense. -/
def Readable (parse : Text → SnapshotFile.Parsed) (t : Text) : Prop :=
  t = [] ∨ ∃ x r, parse t = .record x ∧ decode x = some r

theorem replay_readable {segments : List (List Text)}
    (h : ∀ lines ∈ segments, ∀ t ∈ lines, Readable parse t) (ns : Namespace) :
    replay parse segments ns = .ok ((journalRecords parse segments).foldl applyRecord ns) := by
  have hok : ∀ (lines : List JournalLine) (ns : Namespace), (∀ l ∈ lines, Readable parse l.text) →
      ∃ ns', lines.foldlM (replayLine parse) ns = .ok ns' := by
    intro lines
    induction lines with
    | nil => exact fun ns _ => ⟨ns, rfl⟩
    | cons l lines ih =>
      intro ns hlines
      obtain ⟨hl, hlines⟩ := List.forall_mem_cons.mp hlines
      have hline : ∃ ns₁, replayLine parse ns l = .ok ns₁ := by
        unfold replayLine
        rcases hl with hblank | ⟨x, r, hparse, hdecode⟩
        · exact ⟨ns, by rw [hblank]; rfl⟩
        · split
          · exact ⟨ns, rfl⟩
          · exact ⟨applyRecord ns r, by simp only [hparse, hdecode]⟩
      obtain ⟨ns₁, hns₁⟩ := hline
      obtain ⟨ns', hns'⟩ := ih ns₁ hlines
      refine ⟨ns', ?_⟩
      rw [List.foldlM_cons, hns₁]
      exact hns'
  obtain ⟨ns', hns'⟩ := hok (journalLines segments) ns fun l hl => by
    have htext : l.text ∈ segments.flatten := by
      rw [← texts_journalLines]
      exact List.mem_map_of_mem hl
    obtain ⟨lines, hlines, htext⟩ := List.mem_flatten.mp htext
    exact h lines hlines l.text htext
  rw [← replay_eq hns']
  exact hns'

/-- What was journaled is read back from the segments, wherever they end. -/
theorem records_written {chunks : List (List (Text × Record))}
    (hnamed : ∀ e ∈ chunks.flatten, e.2.id ≠ [] ∧ Named e.2)
    (hparse : ∀ e ∈ chunks.flatten, parse e.1 = .record (rawRecord e.2))
    (hempty : parse [] = .unparseable) :
    journalRecords parse (chunks.map segmentLines) = chunks.flatten.map Prod.snd ∧
      ∀ lines ∈ chunks.map segmentLines, ∀ t ∈ lines, Readable parse t := by
  have hrecord : ∀ e ∈ chunks.flatten, e.1 ≠ [] ∧
      (SnapshotFile.recordOf parse e.1).bind decode = some e.2 := by
    intro e he
    refine ⟨fun hblank => ?_, ?_⟩
    · have := hparse e he
      rw [hblank, hempty] at this
      cases this
    · simp [SnapshotFile.recordOf, hparse e he, decode_rawRecord (hnamed e he).1 (hnamed e he).2]
  constructor
  · have hmap : journalRecords parse (chunks.map segmentLines) =
        ((journalLines (chunks.map segmentLines)).map JournalLine.text).filterMap
          fun t => if t.isEmpty then none else (SnapshotFile.recordOf parse t).bind decode := by
      rw [List.filterMap_map]
      rfl
    rw [hmap, texts_journalLines]
    clear hmap hparse hnamed
    induction chunks with
    | nil => rfl
    | cons written chunks ih =>
      simp only [List.flatten_cons, List.mem_append] at hrecord
      rw [List.map_cons, List.flatten_cons, List.filterMap_append, List.flatten_cons,
        List.map_append, ih fun e he => hrecord e (.inr he), segmentLines, List.filterMap_append,
        List.filterMap_map]
      have hwritten : written.filterMap ((fun t => if t.isEmpty then none
          else (SnapshotFile.recordOf parse t).bind decode) ∘ Prod.fst) =
          written.filterMap (some ∘ Prod.snd) := by
        refine List.filterMap_congr fun e he => ?_
        obtain ⟨hne, hread⟩ := hrecord e (.inl he)
        simp [hne, hread]
      rw [hwritten]
      simp
  · intro lines hlines t ht
    obtain ⟨written, hwritten, rfl⟩ := List.mem_map.mp hlines
    rcases List.mem_append.mp ht with ht | ht
    · obtain ⟨e, he, rfl⟩ := List.mem_map.mp ht
      have hmem := List.mem_flatten.mpr ⟨written, hwritten, he⟩
      exact .inr ⟨_, e.2, hparse e hmem, decode_rawRecord (hnamed e hmem).1 (hnamed e hmem).2⟩
    · exact .inl (List.mem_singleton.mp ht)

end ReadBack

section Run

variable {ids} {s : State α}

/-- Everything that a run journals can be read. -/
theorem Invariant.readable (h : Invariant ids s) {r : Record} (hr : r ∈ s.journal) :
    r.id ≠ [] ∧ Named r := by
  have hfits := h.journal r hr
  cases r with
  | container c =>
    obtain ⟨id, o, ho, _, rfl⟩ := hfits
    exact ⟨ids.hex_ne_nil id, h.named id o ho⟩
  | put p =>
    obtain ⟨id, o, ho, _, hid, _, hname⟩ := hfits
    refine ⟨?_, ?_⟩
    · rw [Record.id, hid]
      exact ids.hex_ne_nil id
    · rw [Named, hname]
      exact h.named id o ho
  | del t =>
    obtain ⟨id, o, ho, rfl⟩ := hfits
    exact ⟨ids.hex_ne_nil id, trivial⟩
  | policy t flags => exact ⟨hfits, trivial⟩

theorem fits_named {sn : Snapshot α} (h : Invariant ids s) (hfits : sn.Fits s.given) :
    SnapshotWriter.Named sn.containers sn.objects where
  containers c hc := by
    obtain ⟨o, ho, _, _, hname⟩ := hfits.containers c hc
    simp [hname, Value.isNonEmptyText, h.named _ _ ho]
  objects c hc := by
    obtain ⟨o, ho, _, _, hname⟩ := hfits.objects c hc
    simp [hname, Value.isNonEmptyText, h.named _ _ ho]

end Run

end LiveNamespace
