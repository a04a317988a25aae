import Strubs.InsertionMap
import Strubs.NamespaceRecord

/-! # The content collection

One document for each container and each object, under its id. An id is printed in one way
only, and read from its text whether its digits are large or small. -/
namespace ContentRepository

open InsertionMap NamespaceRecord

structure ObjectIds (α : Type*) where
  hex : α → Text
  ofText : Text → Option α
  ofText_hex : ∀ id, ofText (hex id) = some id
  hex_ne_nil : ∀ id, hex id ≠ []

theorem ObjectIds.hex_injective {α : Type*} (ids : ObjectIds α) : Function.Injective ids.hex := by
  intro a b h
  have hread : ids.ofText (ids.hex a) = ids.ofText (ids.hex b) := by rw [h]
  rw [ids.ofText_hex, ids.ofText_hex] at hread
  exact Option.some.inj hread

structure Document (α : Type*) where
  containerId : Option α
  name : Value
  isContainer : Bool
  isFile : Bool
  bucketId : Option α
  publicRead : Option Bool
  publicWrite : Option Bool
  deleteProtected : Option Bool
  mime : Value
  md5 : Value
  size : Value
  chunkSize : Value
  dataVolumes : List ℕ
  parityVolumes : List ℕ
  deriving DecidableEq

abbrev Collection (α : Type*) := Table α (Document α)

variable {α : Type*}

def Document.flags (d : Document α) : Flags := ⟨d.publicRead, d.publicWrite, d.deleteProtected⟩

/-- A container as the snapshot gets it. -/
structure ContainerRow (α : Type*) where
  id : α
  cid : Option α
  name : Value
  flags : Flags

/-- An object as the snapshot gets it. -/
structure ObjectRow (α : Type*) where
  id : α
  cid : Option α
  name : Value
  mime : Value
  md5 : Value
  size : ℚ
  cs : ℚ

/-- Only a bucket has an access policy. -/
def containerRow (id : α) (d : Document α) : ContainerRow α where
  id := id
  cid := d.containerId
  name := d.name
  flags := if d.containerId.isSome then noFlags else d.flags

def listAllContainers (c : Collection α) : List (ContainerRow α) :=
  (c.entries.filter (·.2.isContainer)).map fun e => containerRow e.1 e.2

def usableSize : Value → Option ℚ
  | .number (some size) => if 0 ≤ size then some size else none
  | _ => none

def usableChunkSize : Value → Option ℚ
  | .number (some size) => if size.den = 1 ∧ 0 < size then some size else none
  | _ => none

/-- An object without a usable geometry is not written into a snapshot. -/
def objectRow (id : α) (d : Document α) : Option (ObjectRow α) :=
  match usableSize d.size, usableChunkSize d.chunkSize with
  | some size, some cs => some ⟨id, d.containerId, d.name, d.mime, d.md5, size, cs⟩
  | _, _ => none

/-- The cursor runs in the order of the ids, which nothing below depends on. -/
def streamAllObjects (c : Collection α) : Option (List (ObjectRow α)) :=
  (c.entries.filter (·.2.isFile)).mapM fun e => objectRow e.1 e.2

/-! ## Writes -/

inductive DatabaseError where
  | invalidId (id : Text)
  | duplicateKey
  deriving DecidableEq, Repr

/-- What an upsert starts from when there is no document. -/
def Document.blank : Document α where
  containerId := none
  name := .undefined
  isContainer := false
  isFile := false
  bucketId := none
  publicRead := none
  publicWrite := none
  deleteProtected := none
  mime := .undefined
  md5 := .undefined
  size := .undefined
  chunkSize := .undefined
  dataVolumes := []
  parityVolumes := []

variable [DecidableEq α]

/-- The unique index over the parent and the name. -/
def conflicts (c : Collection α) (id : α) (d : Document α) : Bool :=
  c.entries.any fun e => e.1 ≠ id ∧ e.2.containerId = d.containerId ∧ e.2.name = d.name

def upsert (c : Collection α) (id : α) (update : Document α → Document α) :
    Except DatabaseError (Collection α) :=
  let d := update ((c.get id).getD Document.blank)
  if conflicts c id d then .error .duplicateKey else .ok (c.set id d)

def insertOne (c : Collection α) (id : α) (d : Document α) : Except DatabaseError (Collection α) :=
  if (c.get id).isSome ∨ conflicts c id d then .error .duplicateKey else .ok (c.set id d)

variable (ids : ObjectIds α)

def toId (t : Text) : Except DatabaseError α :=
  match ids.ofText t with
  | some id => .ok id
  | none => .error (.invalidId t)

/-- No id is the same as an empty one. -/
def toId? : Option Text → Except DatabaseError (Option α)
  | none => .ok none
  | some t => if t.isEmpty then .ok none else (toId ids t).map some

/-- A container as the restore hands it over. -/
structure ContainerRestore where
  container : Container
  bucketId : Option Text
  deriving DecidableEq

/-- An object as the restore hands it over. -/
structure ObjectRestore where
  id : Text
  containerId : Option Text
  bucketId : Option Text
  name : Text
  mime : Value
  md5 : Value
  size : ℚ
  chunkSize : ℚ
  dataVolumes : List ℕ
  parityVolumes : List ℕ
  deriving DecidableEq

/-- A flag that is not in the record is taken out of the document, too. -/
def restoreContainer (c : Collection α) (r : ContainerRestore) :
    Except DatabaseError (Collection α) := do
  let id ← toId ids r.container.id
  let containerId ← toId? ids r.container.cid
  let bucketId ← toId? ids r.bucketId
  upsert c id fun d =>
    { d with
      name := .text r.container.name
      containerId := containerId
      isContainer := true
      bucketId := some (bucketId.getD id)
      publicRead := r.container.flags.pr
      publicWrite := r.container.flags.pw
      deleteProtected := r.container.flags.dp }

/-- The checksum is kept as its hexadecimal text. -/
def restoreObject (c : Collection α) (r : ObjectRestore) : Except DatabaseError (Collection α) := do
  let id ← toId ids r.id
  let containerId ← toId? ids r.containerId
  let bucketId ← toId? ids r.bucketId
  upsert c id fun d =>
    { d with
      containerId := containerId
      bucketId := bucketId
      name := .text r.name
      mime := r.mime
      md5 := if r.md5.isNonEmptyText then r.md5 else d.md5
      size := .number (some r.size)
      chunkSize := .number (some r.chunkSize)
      dataVolumes := r.dataVolumes
      parityVolumes := r.parityVolumes
      isFile := true }

def isKept (keep : List Text) (e : α × Document α) : Bool := ids.hex e.1 ∈ keep

def pruneOutsideNamespace (c : Collection α) (keep : List Text) : Collection α × ℕ :=
  (⟨c.entries.filter (isKept ids keep), c.nodup.sublist (List.filter_sublist.map _)⟩,
    c.entries.countP (!isKept ids keep ·))

/-- Only the document of a bucket is changed, and only in the flags that are given. -/
def setBucketPolicy (c : Collection α) (id : Text) (policy : Flags) : Collection α × Bool :=
  match (ids.ofText id).bind fun id => (c.get id).map fun d => (id, d) with
  | none => (c, false)
  | some (id, d) =>
    if policy = noFlags ∨ d.containerId.isSome ∨ !d.isContainer then (c, false)
    else
      (c.set id { d with
        publicRead := policy.pr.or d.publicRead
        publicWrite := policy.pw.or d.publicWrite
        deleteProtected := policy.dp.or d.deleteProtected }, true)

variable {ids}

theorem upsert_ok {c c' : Collection α} {id : α} {update : Document α → Document α}
    (h : upsert c id update = .ok c') :
    c' = c.set id (update ((c.get id).getD Document.blank)) := by
  unfold upsert at h
  dsimp only at h
  split at h
  · cases h
  · exact (Except.ok.inj h).symm

/-- The row of a restored container has the flags of its record and no other ones. -/
theorem restoreContainer_flags {c c' : Collection α} {r : ContainerRestore}
    (h : restoreContainer ids c r = .ok c') :
    ∃ id d, ids.ofText r.container.id = some id ∧ c'.get id = some d ∧ d.flags = r.container.flags ∧
      ∀ k, k ≠ id → c'.get k = c.get k := by
  unfold restoreContainer toId at h
  cases hid : ids.ofText r.container.id with
  | none => simp [hid, bind, Except.bind] at h
  | some id =>
    simp only [hid, bind, Except.bind] at h
    split at h
    · cases h
    · split at h
      · cases h
      · rw [upsert_ok h]
        exact ⟨id, _, rfl, get_set_self _ _ _, rfl, fun k hk => get_set_ne _ _ hk⟩

theorem restoreContainer_keys {c c' : Collection α} {r : ContainerRestore}
    (h : restoreContainer ids c r = .ok c') :
    ∃ id, ids.ofText r.container.id = some id ∧ ∀ k, k ∈ c'.keys ↔ k = id ∨ k ∈ c.keys := by
  obtain ⟨id, d, hid, hget, _, hother⟩ := restoreContainer_flags h
  refine ⟨id, hid, fun k => ?_⟩
  rw [mem_keys_iff, mem_keys_iff]
  by_cases hk : k = id
  · simp [hk, hget]
  · simp [hk, hother k hk]

theorem restoreObject_keys {c c' : Collection α} {r : ObjectRestore}
    (h : restoreObject ids c r = .ok c') :
    ∃ id, ids.ofText r.id = some id ∧ ∀ k, k ∈ c'.keys ↔ k = id ∨ k ∈ c.keys := by
  unfold restoreObject toId at h
  cases hid : ids.ofText r.id with
  | none => simp [hid, bind, Except.bind] at h
  | some id =>
    simp only [hid, bind, Except.bind] at h
    split at h
    · cases h
    · split at h
      · cases h
      · rw [upsert_ok h]
        refine ⟨id, rfl, fun k => ?_⟩
        rw [mem_keys_iff, mem_keys_iff, get_set]
        by_cases hk : k = id <;> simp [hk]

omit [DecidableEq α] in
theorem mem_keys_prune {c : Collection α} {keep : List Text} {k : α} :
    k ∈ (pruneOutsideNamespace ids c keep).1.keys ↔ k ∈ c.keys ∧ ids.hex k ∈ keep := by
  simp only [pruneOutsideNamespace, Table.keys, List.mem_map, List.mem_filter, isKept,
    decide_eq_true_eq]
  constructor
  · rintro ⟨e, ⟨he, hkeep⟩, rfl⟩
    exact ⟨⟨e, he, rfl⟩, hkeep⟩
  · rintro ⟨⟨e, he, rfl⟩, hkeep⟩
    exact ⟨e, ⟨he, hkeep⟩, rfl⟩

end ContentRepository
