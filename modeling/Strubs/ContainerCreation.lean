import Strubs.EffectLog
import Strubs.NotificationService
import Strubs.ObjectAuthz

/-! # Making the containers of a path

The components of a path are resolved from the top down, from the cache, from the database,
and by making what is missing. A container is journaled before it is inserted, and what the
database does not take is taken back in the journal. -/
namespace ContainerCreation

open EffectLog InsertionMap ContentRepository
open NamespaceRecord (Text)
open ObjectAuthz (Reply RequestError Cache Live findOne isBucket)

variable {α : Type*}

/-- What is done to the journal and to the database, in order. A record is `journaled` when it
is durable, and a row is `inserted` when it is there, whether or not that is answered. -/
inductive Effect (α : Type*) where
  | journaled (id : α) (cid : Option α) (name : Text)
  | journalFailed (id : α)
  | inserted (id : α) (d : Document α)
  | insertFailed (id : α)
  | removed (id : α)
  | removeFailed (id : α)
  | notified (m : NotificationService.Message)
  deriving DecidableEq

inductive ContainerPath where
  | text (path : Text)
  | components (names : List Text)
  deriving DecidableEq, Repr

def ContainerPath.toComponents : ContainerPath → List Text
  | .text path => (path.splitOn '/').filter (· ≠ [])
  | .components names => names

/-- What one component meets: what the cache has dropped by then, the id a new container would
get, and what becomes of each call. -/
structure Circumstances (α : Type*) where
  dropped : Text → Option α → Bool
  lookupFails : Bool
  newId : α
  journalFails : Bool
  insert : Reply
  removeFails : Bool

structure Walk (α : Type*) where
  collection : Collection α
  cache : Cache α
  containerId : Option α
  bucketId : Option α
  shouldSkipLookup : Bool
  log : List (Effect α)

variable [DecidableEq α]

def Walk.drop (w : Walk α) (dropped : Text → Option α → Bool) : Walk α :=
  { w with cache := fun name parent => if dropped name parent then none else w.cache name parent }

def Walk.remember (w : Walk α) (id : α) (name : Text) : Walk α :=
  { w with cache := fun n parent =>
      if n = name ∧ parent = w.containerId then some id else w.cache n parent }

/-- The first container on the way is the bucket. -/
def Walk.enter (w : Walk α) (id : α) : Walk α :=
  { w with containerId := some id, bucketId := w.bucketId.or (some id) }

def Walk.record (w : Walk α) (effects : List (Effect α)) : Walk α :=
  { w with log := w.log ++ effects }

variable (ids : ObjectIds α)

def inconsistencyNotice (id : α) (name : Text) : NotificationService.Message where
  severity := .warning
  title := "STRUBS namespace journal is inconsistent"
  body := "Container " ++ String.ofList (ids.hex id) ++ " (\"" ++ String.ofList name ++
    "\") was written to the namespace journal, its Mongo insert then failed, and the " ++
    "compensating delete could not be written either. If the journal is ever replayed it " ++
    "will recreate this container as an empty folder that never really existed. No data is " ++
    "at risk; the folder can simply be deleted."
  dedupeKey := some ("journal:container:inconsistent:" ++ String.ofList (ids.hex id))

/-- A top-level container is its own bucket. -/
def insertDoc (w : Walk α) (id : α) (name : Text) : Document α :=
  { (Document.blank : Document α) with
    containerId := w.containerId
    name := .text name
    isContainer := true
    bucketId := w.bucketId.or (some id) }

def insertRow (env : Circumstances α) (w : Walk α) (name : Text) :
    Except RequestError Unit × Walk α :=
  let d := insertDoc w env.newId name
  match env.insert, insertOne w.collection env.newId d with
  | .refused, _ => (.error .unavailable, w)
  | .lost, .ok c =>
    (.error .unavailable, { w with collection := c }.record [.inserted env.newId d])
  | .done, .ok c => (.ok (), { w with collection := c }.record [.inserted env.newId d])
  | _, .error _ => (.error .duplicate, w)

/-- A `del` for the id. When that cannot be written either, somebody is told. -/
def compensate (env : Circumstances α) (name : Text) : List (Effect α) :=
  if env.removeFails then
    [.removeFailed env.newId, .notified (inconsistencyNotice ids env.newId name)]
  else [.removed env.newId]

def createContainer (env : Circumstances α) (w : Walk α) (name : Text) :
    Except RequestError Unit × Walk α :=
  let w := { w with shouldSkipLookup := true }
  if env.journalFails then (.error .unavailable, w.record [.journalFailed env.newId])
  else
    match insertRow env (w.record [.journaled env.newId w.containerId name]) name with
    | (.error e, w) =>
      (.error e, w.record (.insertFailed env.newId :: compensate ids env name))
    | (.ok _, w) => (.ok (), (w.remember env.newId name).enter env.newId)

def resolveComponent (shouldCreateIfNotExists : Bool) (env : Circumstances α) (w : Walk α)
    (name : Text) : Except RequestError Unit × Walk α :=
  if name = [] then (.ok (), w)
  else
    let w := w.drop env.dropped
    match w.cache name w.containerId with
    | some id => (.ok (), w.enter id)
    | none =>
      if !w.shouldSkipLookup && env.lookupFails then (.error .unavailable, w)
      else
        match if w.shouldSkipLookup then none else findOne w.collection w.containerId name with
        | some (id, d) =>
          if d.isContainer then (.ok (), (w.remember id name).enter id)
          else (.error .notDirectory, w)
        | none =>
          if shouldCreateIfNotExists then createContainer ids env w name
          else (.error .notFound, w)

/-- What the components meet is numbered from the first one on. -/
def resolveComponents (shouldCreateIfNotExists : Bool) (env : ℕ → Circumstances α) :
    ℕ → List Text → Walk α → Except RequestError Unit × Walk α
  | _, [], w => (.ok (), w)
  | n, name :: rest, w =>
    match resolveComponent ids shouldCreateIfNotExists (env n) w name with
    | (.error e, w) => (.error e, w)
    | (.ok _, w) => resolveComponents shouldCreateIfNotExists env (n + 1) rest w

/-- The answer, and the walk with all that was done on it. -/
def resolveContainerWithBucket (env : ℕ → Circumstances α) (c : Collection α) (cache : Cache α)
    (path : ContainerPath) (shouldCreateIfNotExists : Bool) :
    Except RequestError (Option α × Option α) × Walk α :=
  match resolveComponents ids shouldCreateIfNotExists env 0 path.toComponents
      ⟨c, cache, none, none, false, []⟩ with
  | (.error e, w) => (.error e, w)
  | (.ok _, w) => (.ok (w.containerId, w.bucketId), w)

/-! ## What a walk leaves behind -/

def IsContainer (c : Collection α) (id : α) : Prop := ∃ d, c.get id = some d ∧ d.isContainer

/-- A child is journaled after its parent is there, as it was all along or as it was journaled
and inserted, and a row comes after its journal record. -/
def ParentFirst (c : Collection α) (before : List (Effect α)) : Effect α → Prop
  | .journaled _ cid _ => ∀ p, cid = some p → IsContainer c p ∨
      (∃ cid' name', .journaled p cid' name' ∈ before) ∧ ∃ d, .inserted p d ∈ before
  | .inserted id d => ∃ name, d.name = .text name ∧ .journaled id d.containerId name ∈ before
  | .insertFailed id => ∃ cid name, .journaled id cid name ∈ before
  | _ => True

/-- Every failed insert is followed by a `del` in the journal. -/
def Compensated (log : List (Effect α)) : Prop :=
  ∀ before id after, log = before ++ .insertFailed id :: after → .removed id ∈ after

/-- What a failed insert is followed by: the `del`, or the report that it failed, too. -/
def Answered (log : List (Effect α)) : Prop :=
  ∀ before id after, log = before ++ .insertFailed id :: after →
    after = [.removed id] ∨
      ∃ name, after = [.removeFailed id, .notified (inconsistencyNotice ids id name)]

/-- The container of a name at the top. -/
def IsBucketOf (c : Collection α) (name : Text) (b : α) : Prop :=
  ∃ d, c.get b = some d ∧ isBucket d ∧ d.name = .text name

variable {ids} {c : Collection α} {w : Walk α}

/-- What holds of the rows and of the log at any time. -/
structure Recorded (c : Collection α) (w : Walk α) : Prop where
  kept : ∀ id d, c.get id = some d → w.collection.get id = some d
  inserted : ∀ id d, .inserted id d ∈ w.log → w.collection.get id = some d
  grown : ∀ id d, w.collection.get id = some d → c.get id = some d ∨ .inserted id d ∈ w.log
  ordered : Orderly (ParentFirst c) w.log

/-- What holds as long as nothing has gone wrong. -/
structure OnTheWay (c : Collection α) (first : Option Text) (w : Walk α) : Prop
    extends Recorded c w where
  live : Live w.collection w.cache
  parent : ∀ p, w.containerId = some p → IsContainer w.collection p
  noFailure : ∀ id, .insertFailed id ∉ w.log ∧ .removeFailed id ∉ w.log
  stamped : ∀ id d, .inserted id d ∈ w.log → d.bucketId = w.bucketId
  bucket : ∀ b, w.bucketId = some b → ∃ name, first = some name ∧ IsBucketOf w.collection name b
  start : w.bucketId = none → w.containerId = none ∧ w.log = []

/-- What holds when something has. -/
structure Failed (ids : ObjectIds α) (c : Collection α) (env : Circumstances α) (w : Walk α) :
    Prop extends Recorded c w where
  answered : Answered ids w.log
  told : ∀ id, .removeFailed id ∈ w.log → env.removeFails ∧ env.newId = id

/-- Where a container comes from. -/
theorem Recorded.origin (h : Recorded c w) {p : α} (hp : IsContainer w.collection p) :
    IsContainer c p ∨ (∃ cid name, .journaled p cid name ∈ w.log) ∧ ∃ d, .inserted p d ∈ w.log := by
  obtain ⟨d, hd, hcontainer⟩ := hp
  rcases h.grown p d hd with hd | hinserted
  · exact Or.inl ⟨d, hd, hcontainer⟩
  · right
    obtain ⟨before, after, hlog⟩ := List.append_of_mem hinserted
    obtain ⟨name, -, hjournaled⟩ := h.ordered.split hlog
    exact ⟨⟨_, name, by rw [hlog]; exact List.mem_append_left _ hjournaled⟩, d, hinserted⟩

variable {first : Option Text}

/-- What ends before anything is inserted. -/
theorem Recorded.failed (h : Recorded c w) (env : Circumstances α)
    (hnone : ∀ id, .insertFailed id ∉ w.log ∧ .removeFailed id ∉ w.log) :
    Failed ids c env w where
  toRecorded := h
  answered before id after heq := absurd (by simp [heq]) (hnone id).1
  told id hid := absurd hid (hnone id).2

theorem OnTheWay.drop (h : OnTheWay c first w) (dropped : Text → Option α → Bool) :
    OnTheWay c first (w.drop dropped) where
  toRecorded := ⟨h.kept, h.inserted, h.grown, h.ordered⟩
  live name parent id hget := by
    simp only [Walk.drop] at hget
    split at hget
    · cases hget
    · exact h.live name parent id hget
  parent := h.parent
  noFailure := h.noFailure
  stamped := h.stamped
  bucket := h.bucket
  start := h.start

/-- The container of a name below where the walk stands. -/
def IsChild (w : Walk α) (name : Text) (id : α) : Prop :=
  ∃ d, w.collection.get id = some d ∧ d.isContainer ∧ d.containerId = w.containerId ∧
    d.name = .text name

theorem OnTheWay.remember (h : OnTheWay c first w) {name : Text} {id : α}
    (hid : IsChild w name id) : OnTheWay c first (w.remember id name) where
  toRecorded := ⟨h.kept, h.inserted, h.grown, h.ordered⟩
  live n parent id' hget := by
    simp only [Walk.remember] at hget
    split at hget
    · rename_i heq
      obtain ⟨rfl, rfl⟩ := heq
      cases hget
      exact hid
    · exact h.live n parent id' hget
  parent := h.parent
  noFailure := h.noFailure
  stamped := h.stamped
  bucket := h.bucket
  start := h.start

theorem OnTheWay.enter (h : OnTheWay c first w) {name : Text} {id : α} (hid : IsChild w name id)
    (hfirst : w.bucketId = none → first = some name) : OnTheWay c first (w.enter id) := by
  obtain ⟨d, hd, hcontainer, hparent, hname⟩ := hid
  refine ⟨⟨h.kept, h.inserted, h.grown, h.ordered⟩, h.live, ?_, h.noFailure, ?_, ?_, ?_⟩
  · rintro p hp
    cases hp
    exact ⟨d, hd, hcontainer⟩
  · intro id' d' hinserted
    have hstamped := h.stamped id' d' hinserted
    cases hb : w.bucketId with
    | none => simp [Walk.enter, (h.start hb).2] at hinserted
    | some b => rw [hstamped, Walk.enter, hb]; rfl
  · intro b hb
    cases hbucket : w.bucketId with
    | none =>
      have : id = b := by simpa [Walk.enter, hbucket] using hb
      subst this
      refine ⟨name, hfirst hbucket, d, hd, ?_, hname⟩
      simp [isBucket, hparent, (h.start hbucket).1, hcontainer]
    | some b' =>
      have : b' = b := by simpa [Walk.enter, hbucket] using hb
      subst this
      exact h.bucket b' hbucket
  · intro hnone
    simp [Walk.enter] at hnone

/-! ## New containers -/

omit [DecidableEq α] in
theorem record_cons (w : Walk α) (e : Effect α) (effects : List (Effect α)) :
    w.record (e :: effects) = (w.record [e]).record effects := by
  simp [Walk.record]

theorem Recorded.record (h : Recorded c w) {e : Effect α} (hafter : ParentFirst c w.log e)
    (hrow : ∀ id d, e ≠ .inserted id d) : Recorded c (w.record [e]) where
  kept := h.kept
  inserted id d hinserted := by
    rcases List.mem_append.1 hinserted with hold | hnew
    · exact h.inserted id d hold
    · exact absurd (List.mem_singleton.1 hnew).symm (hrow id d)
  grown id d hd := (h.grown id d hd).imp_right (List.mem_append_left _)
  ordered := orderly_concat.2 ⟨h.ordered, hafter⟩

theorem Recorded.insert (h : Recorded c w) {id : α} {name : Text} {c' : Collection α}
    (hjournaled : .journaled id w.containerId name ∈ w.log)
    (hok : insertOne w.collection id (insertDoc w id name) = .ok c') :
    Recorded c ({ w with collection := c' }.record [.inserted id (insertDoc w id name)]) ∧
      c' = w.collection.set id (insertDoc w id name) ∧
      ∀ i d, w.collection.get i = some d → c'.get i = some d := by
  obtain ⟨rfl, hfree⟩ := ObjectAuthz.insertOne_ok hok
  have hkept (i : α) (d : Document α) (hd : w.collection.get i = some d) :
      (w.collection.set id (insertDoc w id name)).get i = some d := by
    have hne : i ≠ id := by
      rintro rfl
      rw [hfree] at hd
      cases hd
    rwa [get_set_ne _ _ hne]
  refine ⟨⟨fun i d hd => hkept i d (h.kept i d hd), ?_, ?_, ?_⟩, rfl, hkept⟩
  · intro i d hinserted
    rcases List.mem_append.1 hinserted with hold | hnew
    · exact hkept i d (h.inserted i d hold)
    · cases List.mem_singleton.1 hnew
      exact get_set_self _ _ _
  · intro i d hd
    have hd : (w.collection.set id (insertDoc w id name)).get i = some d := hd
    by_cases hi : i = id
    · subst hi
      rw [get_set_self] at hd
      cases hd
      exact Or.inr (List.mem_append_right _ (List.mem_singleton_self _))
    · rw [get_set_ne _ _ hi] at hd
      exact (h.grown i d hd).imp_right (List.mem_append_left _)
  · exact orderly_concat.2 ⟨h.ordered, name, rfl, hjournaled⟩

/-- The row is there or it is not, and it is when that is answered. -/
theorem insertRow_cases (env : Circumstances α) (w : Walk α) (name : Text) :
    (∃ e, insertRow env w name = (.error e, w)) ∨
      ∃ c', insertOne w.collection env.newId (insertDoc w env.newId name) = .ok c' ∧
        ∃ answer, insertRow env w name = (answer, { w with collection := c' }.record
          [.inserted env.newId (insertDoc w env.newId name)]) := by
  unfold insertRow
  dsimp only
  split
  · exact Or.inl ⟨_, rfl⟩
  · exact Or.inr ⟨_, by assumption, _, rfl⟩
  · exact Or.inr ⟨_, by assumption, _, rfl⟩
  · exact Or.inl ⟨_, rfl⟩

theorem OnTheWay.journaled (h : OnTheWay c first w) (id : α) (name : Text) :
    Recorded c ({ w with shouldSkipLookup := true }.record
      [.journaled id w.containerId name]) := by
  have h' : Recorded c { w with shouldSkipLookup := true } :=
    ⟨h.kept, h.inserted, h.grown, h.ordered⟩
  apply h'.record
  · intro p hp
    exact h.toRecorded.origin (h.parent p hp)
  · intro id' d heq
    cases heq

/-- What follows a failed insert, when nothing has failed before. -/
theorem Recorded.compensated (h : Recorded c w) {env : Circumstances α} {name : Text}
    {cid : Option α} (hjournaled : .journaled env.newId cid name ∈ w.log)
    (hnone : ∀ id, .insertFailed id ∉ w.log ∧ .removeFailed id ∉ w.log) :
    Failed ids c env (w.record (.insertFailed env.newId :: compensate ids env name)) := by
  have hfailed : Recorded c (w.record [.insertFailed env.newId]) :=
    h.record ⟨cid, name, hjournaled⟩ (by simp)
  have hlast : Recorded c (w.record (.insertFailed env.newId :: compensate ids env name)) := by
    rw [record_cons]
    unfold compensate
    split
    · rw [record_cons]
      have hremove : Recorded c ((w.record [.insertFailed env.newId]).record
          [.removeFailed env.newId]) := hfailed.record trivial (by simp)
      exact hremove.record (e := .notified _) trivial (by simp)
    · exact hfailed.record (e := .removed _) trivial (by simp)
  refine ⟨hlast, ?_, ?_⟩
  · intro before id after heq
    have hcompensate : ∀ e ∈ compensate ids env name, ¬∃ i, e = .insertFailed i := by
      unfold compensate
      split <;> simp
    obtain ⟨hid, rfl⟩ := split_unique (p := fun e => ∃ i, e = .insertFailed i)
      (fun e he ⟨i, hi⟩ => (hnone i).1 (hi ▸ he)) hcompensate ⟨id, rfl⟩ heq
    cases hid
    unfold compensate
    split
    · exact Or.inr ⟨name, rfl⟩
    · exact Or.inl rfl
  · intro id hid
    rcases List.mem_append.1 hid with hold | hnew
    · exact absurd hold (hnone id).2
    · unfold compensate at hnew
      split at hnew
      · simp only [List.mem_cons, reduceCtorEq, List.not_mem_nil, or_false, false_or,
          Effect.removeFailed.injEq] at hnew
        exact ⟨by assumption, hnew.symm⟩
      · simp at hnew

/-- The walk once a container is journaled and inserted. -/
def Walk.made (w : Walk α) (id : α) (name : Text) (c' : Collection α) : Walk α :=
  { { w with shouldSkipLookup := true }.record [.journaled id w.containerId name] with
    collection := c' }.record [.inserted id (insertDoc w id name)]

theorem OnTheWay.made (h : OnTheWay c first w) {id : α} {name : Text} {c' : Collection α}
    (hok : insertOne w.collection id (insertDoc w id name) = .ok c') :
    Recorded c (w.made id name c') ∧ c' = w.collection.set id (insertDoc w id name) ∧
      ∀ i d, w.collection.get i = some d → c'.get i = some d :=
  (h.journaled id name).insert (List.mem_append_right _ (List.mem_singleton_self _)) hok

/-- A new container is where the walk goes on, and what it is in is its bucket. -/
theorem OnTheWay.created (h : OnTheWay c first w) {id : α} {name : Text} {c' : Collection α}
    (hok : insertOne w.collection id (insertDoc w id name) = .ok c')
    (hfirst : w.bucketId = none → first = some name) :
    OnTheWay c first (((w.made id name c').remember id name).enter id) := by
  obtain ⟨hrecorded, hset, hkept⟩ := h.made hok
  have hnew : c'.get id = some (insertDoc w id name) := by
    rw [hset, get_set_self]
  have hlog : (w.made id name c').log =
      w.log ++ [.journaled id w.containerId name] ++ [.inserted id (insertDoc w id name)] := rfl
  refine ⟨⟨hrecorded.kept, hrecorded.inserted, hrecorded.grown, hrecorded.ordered⟩,
    ?_, ?_, ?_, ?_, ?_, ?_⟩
  · intro n parent i hget
    simp only [Walk.enter, Walk.remember] at hget
    split at hget
    · rename_i heq
      obtain ⟨rfl, rfl⟩ := heq
      cases hget
      exact ⟨_, hnew, rfl, rfl, rfl⟩
    · obtain ⟨d, hd, hrest⟩ := h.live n parent i hget
      exact ⟨d, hkept i d hd, hrest⟩
  · intro p hp
    cases hp
    exact ⟨_, hnew, rfl⟩
  · intro i
    have := h.noFailure i
    simp only [Walk.enter, Walk.remember, hlog, List.mem_append, List.mem_singleton,
      reduceCtorEq, or_false]
    exact this
  · intro i d hinserted
    simp only [Walk.enter, Walk.remember, hlog, List.mem_append, List.mem_singleton,
      reduceCtorEq, or_false, Effect.inserted.injEq] at hinserted
    rcases hinserted with hold | ⟨-, rfl⟩
    · have hstamped := h.stamped i d hold
      cases hb : w.bucketId with
      | none => simp [(h.start hb).2] at hold
      | some b => simp [hstamped, Walk.enter, Walk.remember, Walk.made, Walk.record, hb]
    · rfl
  · intro b hb
    cases hbucket : w.bucketId with
    | none =>
      have : id = b := by
        simpa [Walk.enter, Walk.remember, Walk.made, Walk.record, hbucket] using hb
      subst this
      refine ⟨name, hfirst hbucket, _, hnew, ?_, rfl⟩
      simp [isBucket, insertDoc, (h.start hbucket).1]
    | some b' =>
      have : b' = b := by
        simpa [Walk.enter, Walk.remember, Walk.made, Walk.record, hbucket] using hb
      subst this
      obtain ⟨n, hn, d, hd, hrest⟩ := h.bucket b' hbucket
      exact ⟨n, hn, d, hkept b' d hd, hrest⟩
  · intro hnone
    simp [Walk.enter] at hnone

/-- What a component leaves: the walk goes on, or it has ended. -/
def Resolved (ids : ObjectIds α) (c : Collection α) (first : Option Text) (env : Circumstances α)
    (r : Except RequestError Unit × Walk α) : Prop :=
  match r.1 with
  | .ok _ => OnTheWay c first r.2
  | .error _ => Failed ids c env r.2

theorem createContainer_spec (h : OnTheWay c first w) (env : Circumstances α) {name : Text}
    (hfirst : w.bucketId = none → first = some name) :
    Resolved ids c first env (createContainer ids env w name) := by
  have hjournaled := h.journaled env.newId name
  have hmem : .journaled env.newId w.containerId name ∈
      ({ w with shouldSkipLookup := true }.record [.journaled env.newId w.containerId name]).log :=
    List.mem_append_right _ (List.mem_singleton_self _)
  have hnone (e : Effect α) (he : ∀ id, e ≠ .insertFailed id ∧ e ≠ .removeFailed id) (id : α) :
      .insertFailed id ∉ w.log ++ [e] ∧ .removeFailed id ∉ w.log ++ [e] := by
    simp only [List.mem_append, List.mem_singleton, not_or]
    exact ⟨⟨(h.noFailure id).1, fun heq => (he id).1 heq.symm⟩,
      (h.noFailure id).2, fun heq => (he id).2 heq.symm⟩
  unfold createContainer
  dsimp only
  split
  · have hrecorded : Recorded c { w with shouldSkipLookup := true } :=
      ⟨h.kept, h.inserted, h.grown, h.ordered⟩
    exact (hrecorded.record (e := .journalFailed env.newId) trivial (by simp)).failed env
      (hnone _ (by simp))
  · rcases insertRow_cases env ({ w with shouldSkipLookup := true }.record
        [.journaled env.newId w.containerId name]) name with ⟨e, hrow⟩ | ⟨c', hok, answer, hrow⟩
    · rw [hrow]
      exact hjournaled.compensated hmem (hnone _ (by simp))
    · rw [hrow]
      cases answer with
      | ok _ => exact h.created hok hfirst
      | error e =>
        have hmade := (h.made hok).1
        refine hmade.compensated (List.mem_append_left _ hmem) fun id => ?_
        have := hnone (.journaled env.newId w.containerId name) (by simp) id
        simpa [Walk.made, Walk.record] using this

/-! ## Whole walks -/

theorem resolveComponent_spec (h : OnTheWay c first w) (create : Bool) (env : Circumstances α)
    {name : Text} (hfirst : w.bucketId = none → name ≠ [] → first = some name) :
    Resolved ids c first env (resolveComponent ids create env w name) := by
  unfold resolveComponent
  split
  · exact h
  · rename_i hname
    have hdrop := h.drop env.dropped
    have hfirst (hbucket : (w.drop env.dropped).bucketId = none) : first = some name :=
      hfirst hbucket hname
    dsimp only
    split
    · rename_i id hcached
      exact hdrop.enter (hdrop.live _ _ _ hcached) hfirst
    · split
      · exact hdrop.toRecorded.failed env hdrop.noFailure
      · split
        · rename_i id d hfound
          split
          · rename_i hcontainer
            split at hfound
            · cases hfound
            · obtain ⟨hd, hparent, hname⟩ := ObjectAuthz.findOne_spec hfound
              have hid : IsChild (w.drop env.dropped) name id := ⟨d, hd, hcontainer, hparent, hname⟩
              exact (hdrop.remember hid).enter hid hfirst
          · exact hdrop.toRecorded.failed env hdrop.noFailure
        · split
          · exact createContainer_spec hdrop env hfirst
          · exact hdrop.toRecorded.failed env hdrop.noFailure

/-- A component that is not empty leads into a bucket. -/
theorem resolveComponent_enters {create : Bool} {env : Circumstances α} {name : Text}
    {w' : Walk α} (hok : resolveComponent ids create env w name = (.ok (), w'))
    (hbucket : w'.bucketId = none) : name = [] ∧ w' = w := by
  have henter (v : Walk α) (id : α)
      (h : ((.ok (), v.enter id) : Except RequestError Unit × Walk α) = (.ok (), w')) : False := by
    cases h
    simp [Walk.enter] at hbucket
  unfold resolveComponent at hok
  split at hok
  · rename_i hname
    cases hok
    exact ⟨hname, rfl⟩
  · exfalso
    dsimp only at hok
    split at hok
    · exact henter _ _ hok
    · split at hok
      · cases hok
      · split at hok
        · split at hok
          · exact henter _ _ hok
          · cases hok
        · split at hok
          · unfold createContainer at hok
            dsimp only at hok
            split at hok
            · cases hok
            · split at hok
              · cases hok
              · exact henter _ _ hok
          · cases hok

variable (ids) in
theorem resolveComponents_spec (h : OnTheWay c first w) (create : Bool)
    (env : ℕ → Circumstances α) (n : ℕ) {names : List Text}
    (hfirst : w.bucketId = none → (names.filter (· ≠ [])).head? = first) :
    match resolveComponents ids create env n names w with
    | (.ok _, w') => OnTheWay c first w' ∧ (w'.bucketId = none → first = none)
    | (.error _, w') => ∃ m, Failed ids c (env m) w' := by
  induction names generalizing n w with
  | nil => exact ⟨h, fun hbucket => (hfirst hbucket).symm⟩
  | cons name rest ih =>
    have hstep : Resolved ids c first (env n) (resolveComponent ids create (env n) w name) := by
      apply resolveComponent_spec h
      intro hbucket hname
      simpa [hname] using (hfirst hbucket).symm
    unfold resolveComponents
    cases hr : resolveComponent ids create (env n) w name with
    | mk answer w' =>
      rw [hr] at hstep
      cases answer with
      | error e => exact ⟨n, hstep⟩
      | ok _ =>
        apply ih hstep
        intro hbucket
        obtain ⟨rfl, rfl⟩ := resolveComponent_enters hr hbucket
        simpa using hfirst hbucket

/-- What is done for a path, in order, and what it leaves. -/
structure CreatedInOrder (ids : ObjectIds α) (env : ℕ → Circumstances α) (c : Collection α)
    (path : ContainerPath) (r : Except RequestError (Option α × Option α) × Walk α) : Prop where
  ordered : Orderly (ParentFirst c) r.2.log
  answered : Answered ids r.2.log
  told : ∀ id, .removeFailed id ∈ r.2.log → ∃ n, (env n).removeFails ∧ (env n).newId = id
  thrown : ∀ id, .insertFailed id ∈ r.2.log → ∃ e, r.1 = .error e
  kept : ∀ id d, c.get id = some d ∨ .inserted id d ∈ r.2.log → r.2.collection.get id = some d
  bucket : ∀ containerId bucketId, r.1 = .ok (containerId, bucketId) →
    match (path.toComponents.filter (· ≠ [])).head? with
    | none => bucketId = none ∧ r.2.log = []
    | some name => ∃ b, bucketId = some b ∧ IsBucketOf r.2.collection name b ∧
        ∀ id d, .inserted id d ∈ r.2.log → d.bucketId = some b

/-- **Main result.** Containers are journaled and inserted from the top down into the bucket of
the first component, and whatever fails, what was made before is left as it is. -/
theorem created_parent_first (ids : ObjectIds α) (env : ℕ → Circumstances α) {c : Collection α}
    {cache : Cache α} (hlive : Live c cache) (path : ContainerPath) (create : Bool) :
    CreatedInOrder ids env c path (resolveContainerWithBucket ids env c cache path create) := by
  have hstart : OnTheWay c (path.toComponents.filter (· ≠ [])).head?
      ⟨c, cache, none, none, false, []⟩ := by
    refine ⟨⟨fun _ _ hd => hd, ?_, fun _ _ => Or.inl, orderly_nil⟩, hlive, ?_, ?_, ?_, ?_, ?_⟩ <;>
      simp
  have hwalk := resolveComponents_spec ids hstart create env 0 fun _ => rfl
  unfold resolveContainerWithBucket
  cases hr : resolveComponents ids create env 0 path.toComponents
      ⟨c, cache, none, none, false, []⟩ with
  | mk answer w =>
    rw [hr] at hwalk
    cases answer with
    | error e =>
      obtain ⟨m, hfailed⟩ := hwalk
      refine ⟨hfailed.ordered, hfailed.answered, fun id hid => ⟨m, hfailed.told id hid⟩,
        fun _ _ => ⟨e, rfl⟩, ?_, ?_⟩
      · rintro id d (hd | hd)
        · exact hfailed.kept id d hd
        · exact hfailed.inserted id d hd
      · intro _ _ heq
        cases heq
    | ok _ =>
      obtain ⟨hway, hnone⟩ := hwalk
      refine ⟨hway.ordered, ?_, fun id hid => absurd hid (hway.noFailure id).2,
        fun id hid => absurd hid (hway.noFailure id).1, ?_, ?_⟩
      · intro before id after heq
        have hlog : w.log = before ++ .insertFailed id :: after := heq
        exact absurd (by simp [hlog]) (hway.noFailure id).1
      · rintro id d (hd | hd)
        · exact hway.kept id d hd
        · exact hway.inserted id d hd
      · intro containerId bucketId heq
        cases heq
        cases hbucket : w.bucketId with
        | none =>
          rw [hnone hbucket]
          exact ⟨rfl, (hway.start hbucket).2⟩
        | some b =>
          obtain ⟨name, hname, hb⟩ := hway.bucket b hbucket
          rw [hname]
          exact ⟨b, rfl, hb, fun id d hd => (hway.stamped id d hd).trans hbucket⟩

def allGoes (n : ℕ) : Circumstances Bool := ⟨fun _ _ => false, false, n = 1, false, .done, false⟩

def noCollection : Collection Bool := ⟨[], by decide⟩

def holidays : ContainerPath := .text "/photos/2024".toList

theorem created_parent_first_twice :
    CreatedInOrder ObjectAuthz.twoIds allGoes noCollection holidays
      (resolveContainerWithBucket ObjectAuthz.twoIds allGoes noCollection (fun _ _ => none)
        holidays true) :=
  created_parent_first ObjectAuthz.twoIds allGoes (fun _ _ _ h => by cases h) holidays true

/-- The second insert fails, and so does what is to take its record back. -/
def nothingMoreGoes (n : ℕ) : Circumstances Bool :=
  if n = 1 then ⟨fun _ _ => false, false, true, false, .refused, true⟩ else allGoes n

/-- The record of a container that was never made stays without a `del`. -/
theorem record_not_taken_back :
    ¬Compensated (resolveContainerWithBucket ObjectAuthz.twoIds nothingMoreGoes noCollection
      (fun _ _ => none) holidays true).2.log := by
  intro h
  set log := (resolveContainerWithBucket ObjectAuthz.twoIds nothingMoreGoes noCollection
    (fun _ _ => none) holidays true).2.log with hlog
  have hsplit : log = log.take 3 ++ .insertFailed true :: log.drop 4 := by
    rw [hlog]
    decide +kernel
  have hremoved : .removed true ∉ log.drop 4 := by
    rw [hlog]
    decide +kernel
  exact hremoved (h _ _ _ hsplit)

end ContainerCreation
