import Strubs.ContentRepository
import Strubs.CredentialCache
import Mathlib.Data.List.TakeWhile

/-! # Who may reach an object

A request is authorised on the bucket its path names, or on the bucket of the object its path
names by id. The handler then resolves the same path again, with functions of its own, and a
`PUT` makes the containers that are missing on the way. -/
namespace ObjectAuthz

open InsertionMap ContentRepository
open NamespaceRecord (Text Value)
open CredentialCache (Grant Identity)

/-! ## Paths -/

def validateUrl (url : Text) : Bool :=
  url.take 1 = ['/'] ∧ ¬['/', '/'] <:+: url ∧ ¬['/', '.', '/'] <:+: url ∧
    ¬['/', '.', '.', '/'] <:+: url

/-- The path of a URL is what comes before its query. -/
def parseUrl (url : Text) : Text := url.takeWhile (· ≠ '?')

def isHexDigit (c : Char) : Bool :=
  c.isDigit || ('a' ≤ c && c ≤ 'f') || ('A' ≤ c && c ≤ 'F')

/-- `/^\/\$[0-9a-f]{24}$/i`. -/
def isIdForm : Text → Bool
  | '/' :: '$' :: id => id.length = 24 && id.all isHexDigit
  | _ => false

def isAlphanumeric (c : Char) : Bool := c.isDigit || c.isLower

/-- `/^[a-z0-9](?:[a-z0-9-]{1,61}[a-z0-9])$/`. -/
def isValidBucketName (name : Text) : Bool :=
  3 ≤ name.length && name.length ≤ 63 && name.all (fun c => isAlphanumeric c || c == '-') &&
    name.head?.all isAlphanumeric && name.getLast?.all isAlphanumeric

inductive BucketRef where
  | id
  | path (bucket : Text)
  | none
  deriving DecidableEq, Repr

/-- All leading slashes are dropped, and nothing is decoded. -/
def bucketRefFromPath (rawUrl : Text) : BucketRef :=
  let path := rawUrl.takeWhile (· ≠ '?')
  if isIdForm path then .id
  else
    match ((path.dropWhile (· = '/')).splitOn '/').headD [] with
    | [] => .none
    | first => .path first

/-- The handlers also look at the length. -/
def addressesId (path : Text) : Bool := path.length = 26 && isIdForm path

/-- The components before the last one, and the last one. -/
def extractPathComponents (path : Text) : List Text × Text :=
  let components := path.splitOn '/'
  (components.dropLast, components.getLastD [])

/-! ## Lookups -/

inductive RequestError where
  | notFound
  | notDirectory
  | invalid
  | duplicate
  | unavailable
  deriving DecidableEq, Repr

variable {α : Type*} [DecidableEq α]

def findOne (c : Collection α) (containerId : Option α) (name : Text) :
    Option (α × Document α) :=
  c.entries.find? fun e => e.2.containerId = containerId ∧ e.2.name = .text name

/-- A bucket is a container at the top. -/
def isBucket (d : Document α) : Bool := d.containerId = none ∧ d.isContainer

def getBucketByName (c : Collection α) (name : Text) : Option (α × Document α) :=
  c.entries.find? fun e => isBucket e.2 ∧ e.2.name = .text name

def getBucketById (c : Collection α) (id : α) : Option (α × Document α) :=
  (c.entries.find? (·.1 = id)).filter fun e => isBucket e.2

variable (ids : ObjectIds α)

def getObjectById (c : Collection α) (id : Text) : Except RequestError (α × Document α) :=
  match ids.ofText id with
  | none => .error .invalid
  | some id =>
    match c.get id with
    | none => .error .notFound
    | some d => .ok (id, d)

/-! ## Authorisation -/

inductive Method where
  | get
  | head
  | options
  | put
  | delete
  | other
  deriving DecidableEq, Repr

def Method.isWrite : Method → Bool
  | .get | .head | .options => false
  | _ => true

structure ResolvedBucket where
  name : Value
  publicRead : Option Bool
  publicWrite : Option Bool
  deriving DecidableEq

def toResolved (d : Document α) : ResolvedBucket := ⟨d.name, d.publicRead, d.publicWrite⟩

def resolveBucket (c : Collection α) (rawUrl : Text) :
    Except RequestError (Option (α × ResolvedBucket)) :=
  match bucketRefFromPath rawUrl with
  | .none => .ok none
  | .id =>
    match getObjectById ids c ((rawUrl.takeWhile (· ≠ '?')).drop 2) with
    | .error .notFound => .ok none
    | .error e => .error e
    | .ok (_, d) =>
      .ok ((d.bucketId.bind (getBucketById c)).map fun e => (e.1, toResolved e.2))
  | .path bucket =>
    if isValidBucketName bucket then
      .ok ((getBucketByName c bucket).map fun e => (e.1, toResolved e.2))
    else .ok none

/-- What a request presents, and what verifying it says. `lookupFails` when the database does
not answer. -/
structure Access where
  isEnforced : Bool
  identity : Option Identity
  verifyCredential : Identity → Option (List Grant)
  lookupFails : Bool

inductive Decision where
  | allow
  | deny (status : ℕ) (message : String)
  deriving DecidableEq, Repr

/-- A grant names its bucket, or all of them. -/
def permits (g : Grant) (bucket : ResolvedBucket) (method : Method) : Bool :=
  (bucket.name = .text g.bucket ∨ g.bucket = ['*']) && if method.isWrite then g.write else g.read

def ResolvedBucket.isPublic (bucket : ResolvedBucket) (method : Method) : Bool :=
  if method.isWrite then bucket.publicWrite = some true else bucket.publicRead = some true

def authorizeObjectRequest (a : Access) (c : Collection α) (rawUrl : Text) (method : Method) :
    Decision :=
  if !a.isEnforced then .allow
  else if a.lookupFails then .deny 503 "authorization temporarily unavailable"
  else
    match resolveBucket ids c rawUrl, a.identity with
    | .error _, _ => .deny 503 "authorization temporarily unavailable"
    | .ok none, some _ => .deny 403 "unknown or unauthorized bucket"
    | .ok none, none => .deny 401 "authentication required"
    | .ok (some (_, bucket)), none =>
      if bucket.isPublic method then .allow else .deny 401 "authentication required"
    | .ok (some (_, bucket)), some identity =>
      match a.verifyCredential identity with
      | none => .deny 401 "invalid credentials"
      | some grants =>
        if grants.any (permits · bucket method) then .allow
        else .deny 403 "not permitted for this bucket"

/-! ## Containers -/

/-- The ids the container cache still has, by name and parent. -/
abbrev Cache (α : Type*) := Text → Option α → Option α

/-- What becomes of a write: it is answered, its answer is lost, or it never happens. -/
inductive Reply where
  | done
  | lost
  | refused
  deriving DecidableEq, Repr

def written (reply : Reply) (c : Collection α) (result : Except DatabaseError (Collection α)) :
    Except RequestError Unit × Collection α :=
  match reply, result with
  | .refused, _ => (.error .unavailable, c)
  | _, .error _ => (.error .duplicate, c)
  | .done, .ok c' => (.ok (), c')
  | .lost, .ok c' => (.error .unavailable, c')

/-- The new containers of a request: their ids, and whether journal and database take them. -/
structure Supply (α : Type*) where
  newId : ℕ → α
  journalContainer : ℕ → Bool
  insert : ℕ → Reply

/-- Where a walk along the components of a path has come to. -/
structure Walk (α : Type*) where
  collection : Collection α
  containerId : Option α
  bucketId : Option α
  shouldSkipLookup : Bool
  created : ℕ

/-- The first container on the way is the bucket. -/
def Walk.enter (w : Walk α) (id : α) : Walk α :=
  { w with containerId := some id, bucketId := w.bucketId.or (some id) }

variable (cache : Cache α) (supply : Option (Supply α))

/-- A new top-level container is its own bucket. -/
def createContainer (w : Walk α) (name : Text) (supply : Supply α) :
    Except RequestError Unit × Walk α :=
  let n := w.created
  let id := supply.newId n
  let d : Document α := { (Document.blank : Document α) with
    containerId := w.containerId
    name := .text name
    isContainer := true
    bucketId := w.bucketId.or (some id) }
  let w := { w with shouldSkipLookup := true, created := n + 1 }
  if !supply.journalContainer n then (.error .unavailable, w)
  else
    match written (supply.insert n) w.collection (insertOne w.collection id d) with
    | (.error e, c) => (.error e, { w with collection := c })
    | (.ok _, c) => (.ok (), Walk.enter { w with collection := c } id)

/-- One component. Without a supply nothing is created. -/
def resolveComponent (w : Walk α) (name : Text) : Except RequestError Unit × Walk α :=
  if name = [] then (.ok (), w)
  else
    match cache name w.containerId with
    | some id => (.ok (), w.enter id)
    | none =>
      match if w.shouldSkipLookup then none else findOne w.collection w.containerId name with
      | some (id, d) => if d.isContainer then (.ok (), w.enter id) else (.error .notDirectory, w)
      | none =>
        match supply with
        | none => (.error .notFound, w)
        | some supply => createContainer w name supply

def resolveComponents : List Text → Walk α → Except RequestError Unit × Walk α
  | [], w => (.ok (), w)
  | name :: rest, w =>
    match resolveComponent cache supply w name with
    | (.error e, w) => (.error e, w)
    | (.ok _, w) => resolveComponents rest w

def resolveContainerWithBucket (c : Collection α) (components : List Text) :
    Except RequestError Unit × Walk α :=
  resolveComponents cache supply components ⟨c, none, none, false, 0⟩

/-- `String.prototype.trim` takes these away. -/
def isSpace (c : Char) : Bool :=
  c ∈ [' ', '\t', '\n', '\r', '\x0b', '\x0c', '\u00a0']

def getObjectByPath (c : Collection α) (path : Text) : Except RequestError (α × Document α) :=
  let (components, objectName) := extractPathComponents path
  if path.all isSpace ∨ objectName = [] then .error .notFound
  else
    match resolveContainerWithBucket cache none c components with
    | (.error e, _) => .error e
    | (.ok _, w) =>
      match findOne c w.containerId objectName with
      | none => .error .notFound
      | some e => .ok e

def getObjectMeta (c : Collection α) (path : Text) :
    Except RequestError (Option (α × Document α)) :=
  let found := if addressesId path then getObjectById ids c (path.drop 2)
    else getObjectByPath cache c (path.drop 1)
  match found with
  | .ok e => .ok (some e)
  | .error .notFound => .ok none
  | .error e => .error e

/-! ## Handlers -/

/-- A request for an object and what happens to it. The container cache changes between the
lookup of the object and, for a `PUT`, that of its container. `received` is the record of a
complete upload, without its place, or what an incomplete one is answered. -/
structure Request (α : Type*) where
  url : Text
  method : Method
  cache : Cache α
  cacheLater : Cache α
  hasContentLength : Bool
  received : Except ℕ (Document α)
  objectId : α
  supply : Supply α
  commits : Bool
  insert : Reply
  rowDeleted : Bool

inductive Answer (α : Type*) where
  | served (id : α)
  | deleted (id : α)
  | created (id : α)
  | management
  | refused (status : ℕ)
  deriving DecidableEq, Repr

/-- The volume lists of a document are always there. -/
def isFileRecord (d : Document α) : Bool :=
  match d.size, d.chunkSize with
  | .number _, .number _ => true
  | _, _ => false

def withFileRecord (c : Collection α) (r : Request α)
    (handler : α → Document α → Answer α × Collection α) : Answer α × Collection α :=
  match getObjectMeta ids r.cache c (parseUrl r.url) with
  | .error _ => (.refused 500, c)
  | .ok none => (.refused 404, c)
  | .ok (some (id, d)) => if isFileRecord d then handler id d else (.refused 404, c)

/-- The bucket in the path comes before the bucket of the record. -/
def isBucketDeleteProtected (c : Collection α) (url : Text) (bucketId : Option α) : Bool :=
  let bucket := match bucketRefFromPath url with
    | .path bucket =>
      if isValidBucketName bucket then getBucketByName c bucket
      else bucketId.bind (getBucketById c)
    | _ => bucketId.bind (getBucketById c)
  bucket.any fun e => e.2.deleteProtected = some true

def handleDelete (c : Collection α) (r : Request α) : Answer α × Collection α :=
  withFileRecord ids c r fun id d =>
    if isBucketDeleteProtected c (parseUrl r.url) d.bucketId then (.refused 403, c)
    else (.deleted id, if r.rowDeleted then c.erase id else c)

/-- An object in a container must have a bucket. -/
def createObjectRecord (w : Walk α) (r : Request α) (d : Document α) :
    Except RequestError Unit × Collection α :=
  if w.containerId.isSome ∧ w.bucketId = none then (.error .invalid, w.collection)
  else written r.insert w.collection
    (insertOne w.collection r.objectId { d with
      containerId := w.containerId, bucketId := w.bucketId })

def finalizeUpload (c : Collection α) (r : Request α) (d : Document α) :
    Answer α × Collection α :=
  let (containerComponents, fileName) := extractPathComponents ((parseUrl r.url).drop 1)
  if fileName = [] then (.refused 500, c)
  else
    match resolveContainerWithBucket r.cacheLater (some r.supply) c containerComponents with
    | (.error _, w) => (.refused 500, w.collection)
    | (.ok _, w) =>
      if !r.commits then (.refused 500, w.collection)
      else
        match createObjectRecord w r { d with
          name := .text fileName, isFile := true, isContainer := false } with
        | (.error _, c) => (.refused 500, c)
        | (.ok _, c) => (.created r.objectId, c)

def handlePut (c : Collection α) (r : Request α) : Answer α × Collection α :=
  if !r.hasContentLength then (.refused 400, c)
  else if ['/', '$'] <+: parseUrl r.url then (.refused 400, c)
  else
    match getObjectMeta ids r.cache c (parseUrl r.url), r.received with
    | .error _, _ => (.refused 500, c)
    | .ok (some _), _ => (.refused 409, c)
    | .ok none, .error status => (.refused status, c)
    | .ok none, .ok d => finalizeUpload c r d

def handleObjectRequest (c : Collection α) (r : Request α) : Answer α × Collection α :=
  match r.method with
  | .get | .head | .options => withFileRecord ids c r fun id _ => (.served id, c)
  | .put => handlePut ids c r
  | .delete => handleDelete ids c r
  | .other => (.refused 400, c)

inductive Role where
  | object
  | admin
  | all
  deriving DecidableEq, Repr

/-- Only the paths below `/$/` are not objects. On a trusted listener nothing is authorised. -/
def handleHttpRequest (role : Role) (trusted : Bool) (a : Access) (c : Collection α)
    (r : Request α) : Answer α × Collection α :=
  let path := parseUrl r.url
  if !validateUrl r.url then (.refused 400, c)
  else if ['/', '$', '/'] <+: path then
    if role = .object then (.refused 421, c) else (.management, c)
  else if role = .admin then (.refused 404, c)
  else if r.method = .other then (.refused 400, c)
  else if trusted then handleObjectRequest ids c r
  else
    match authorizeObjectRequest ids a c path r.method with
    | .deny status _ => (.refused status, c)
    | .allow => handleObjectRequest ids c r

/-! ## The tree of containers -/

/-- Container `b` is where the chain of parents of `id` ends. -/
inductive TopLevel (c : Collection α) : α → α → Prop where
  | bucket {id : α} {d : Document α} (hd : c.get id = some d) (hb : isBucket d) :
      TopLevel c id id
  | inside {id p b : α} {d : Document α} (hd : c.get id = some d) (hp : d.containerId = some p)
      (hb : TopLevel c p b) : TopLevel c id b

/-- A parent has no two children of one name, and a document's bucket is where it belongs. -/
structure Consistent (c : Collection α) : Prop where
  unique : ∀ i j d e, c.get i = some d → c.get j = some e → d.containerId = e.containerId →
    d.name = e.name → i = j
  bucketed : ∀ id d b, c.get id = some d → d.bucketId = some b → TopLevel c id b

/-- What the cache has are containers that are there. -/
def Live (c : Collection α) (cache : Cache α) : Prop :=
  ∀ name parent id, cache name parent = some id →
    ∃ d, c.get id = some d ∧ d.isContainer ∧ d.containerId = parent ∧ d.name = .text name

/-- The bucket the decision was taken on, and what of it allowed the request. -/
def ReliesOn (a : Access) (c : Collection α) (r : Request α) (b : α) : Prop :=
  ∃ d, c.get b = some d ∧ isBucket d ∧
    resolveBucket ids c (parseUrl r.url) = .ok (some (b, toResolved d)) ∧
    match a.identity with
    | none => (toResolved d).isPublic r.method
    | some identity => ∃ grants, a.verifyCredential identity = some grants ∧
        ∃ g ∈ grants, permits g (toResolved d) r.method

/-- All a request does is in bucket `b`. -/
structure Confined (c : Collection α) (b : α) (result : Answer α × Collection α) : Prop where
  served : ∀ id, result.1 = .served id → TopLevel c id b
  deleted : ∀ id, result.1 = .deleted id → TopLevel c id b
  inserted : ∀ id, c.get id = none → (result.2.get id).isSome → TopLevel result.2 id b
  kept : ∀ id d, c.get id = some d → result.2.get id = some d ∨ result.1 = .deleted id

/-- The two readings of a path agree on what it names, and on the first component. -/
structure SameTarget (path : Text) : Prop where
  id : bucketRefFromPath path = .id ↔ addressesId path
  bucket : ∀ bucket, bucketRefFromPath path = .path bucket →
    ((extractPathComponents (path.drop 1)).1 ++ [(extractPathComponents (path.drop 1)).2]).head? =
      some bucket

/-! The paths. -/

theorem addressesId_eq (path : Text) : addressesId path = isIdForm path := by
  unfold addressesId isIdForm
  split
  · next id =>
    by_cases hlen : id.length = 24 <;> simp [hlen]
  · simp

theorem parseUrl_parseUrl (url : Text) : (parseUrl url).takeWhile (· ≠ '?') = parseUrl url :=
  List.takeWhile_idem

/-- After the first slash of an accepted URL there is no second one. -/
theorem validateUrl_path {url : Text} (h : validateUrl url) :
    ∃ rest, parseUrl url = '/' :: rest ∧ rest.dropWhile (· = '/') = rest := by
  simp only [validateUrl, decide_eq_true_eq] at h
  obtain ⟨hfirst, hdouble, -⟩ := h
  match url with
  | [] => simp at hfirst
  | c :: rest =>
    obtain rfl : c = '/' := by simpa using hfirst
    refine ⟨rest.takeWhile (· ≠ '?'), by simp [parseUrl], ?_⟩
    match rest with
    | [] => rfl
    | c :: tail =>
      have hc : c ≠ '/' := fun hc => hdouble ⟨[], tail, by simp [hc]⟩
      by_cases hq : c = '?' <;> simp [hq, hc]

theorem components_eq (path : Text) :
    (extractPathComponents path).1 ++ [(extractPathComponents path).2] = path.splitOn '/' := by
  unfold extractPathComponents
  rcases List.eq_nil_or_concat (path.splitOn '/') with hnil | ⟨init, last, hlast⟩
  · exact absurd hnil (List.splitOn_ne_nil _ _)
  · simp [hlast]

theorem bucketRefFromPath_eq {url : Text} (h : validateUrl url) :
    bucketRefFromPath (parseUrl url) =
      if isIdForm (parseUrl url) then .id
      else match (((parseUrl url).drop 1).splitOn '/').headD [] with
        | [] => .none
        | first => .path first := by
  obtain ⟨rest, hpath, hdrop⟩ := validateUrl_path h
  simp only [bucketRefFromPath, parseUrl_parseUrl]
  rw [hpath, List.dropWhile_cons_of_pos (by simp), hdrop]
  rfl

theorem sameTarget {url : Text} (h : validateUrl url) : SameTarget (parseUrl url) := by
  constructor
  · rw [bucketRefFromPath_eq h, addressesId_eq]
    split
    · next hid => simp [hid]
    · next hid => split <;> simp [hid]
  · intro bucket hb
    rw [bucketRefFromPath_eq h] at hb
    rw [components_eq]
    split at hb
    · cases hb
    · split at hb
      · cases hb
      · next hne heq =>
        obtain rfl := BucketRef.path.inj hb
        cases hsplit : ((parseUrl url).drop 1).splitOn '/' with
        | nil => exact absurd hsplit (List.splitOn_ne_nil _ _)
        | cons first rest => simp

/-! The tree. -/

variable {ids} {c c' : Collection α} {b : α}

theorem TopLevel.mono (hkept : ∀ id d, c.get id = some d → c'.get id = some d) {id : α}
    (h : TopLevel c id b) : TopLevel c' id b := by
  induction h with
  | bucket hd hb => exact .bucket (hkept _ _ hd) hb
  | inside hd hp _ ih => exact .inside (hkept _ _ hd) hp ih

theorem findOne_spec {parent : Option α} {name : Text} {e : α × Document α}
    (h : findOne c parent name = some e) :
    c.get e.1 = some e.2 ∧ e.2.containerId = parent ∧ e.2.name = .text name := by
  refine ⟨get_eq_some_iff.mpr (List.mem_of_find?_eq_some h), ?_⟩
  simpa using List.find?_some h

/-- What a lookup finds is the only document of that name there. -/
theorem findOne_unique (hc : Consistent c) {id : α} {d : Document α} {name : Text}
    (hd : c.get id = some d) (hname : d.name = .text name) :
    findOne c d.containerId name = some (id, d) := by
  cases hfind : findOne c d.containerId name with
  | none =>
    have hnot := List.find?_eq_none.mp hfind (id, d) (get_eq_some_iff.mp hd)
    simp [hname] at hnot
  | some e =>
    obtain ⟨he, hparent, hname'⟩ := findOne_spec hfind
    have hid : e.1 = id := hc.unique _ _ _ _ he hd hparent (hname'.trans hname.symm)
    obtain ⟨j, e⟩ := e
    subst hid
    rw [hd] at he
    obtain rfl := Option.some.inj he
    rfl

theorem getBucketByName_spec {name : Text} {e : α × Document α}
    (h : getBucketByName c name = some e) :
    c.get e.1 = some e.2 ∧ isBucket e.2 ∧ e.2.name = .text name := by
  refine ⟨get_eq_some_iff.mpr (List.mem_of_find?_eq_some h), ?_⟩
  simpa using List.find?_some h

theorem getBucketById_spec {id : α} {e : α × Document α} (h : getBucketById c id = some e) :
    e.1 = id ∧ c.get id = some e.2 ∧ isBucket e.2 := by
  obtain ⟨hfind, hb⟩ := Option.filter_eq_some_iff.mp h
  have hid : e.1 = id := by simpa using List.find?_some hfind
  exact ⟨hid, hid ▸ get_eq_some_iff.mpr (List.mem_of_find?_eq_some hfind), hb⟩

/-! The walk. -/

/-- The documents of `c` are still there, and whatever has come is in bucket `b`. -/
structure Grown (c : Collection α) (b : α) (c' : Collection α) : Prop where
  kept : ∀ id d, c.get id = some d → c'.get id = some d
  inserted : ∀ id, c.get id = none → (c'.get id).isSome → TopLevel c' id b

theorem Grown.refl (c : Collection α) (b : α) : Grown c b c where
  kept _ _ h := h
  inserted _ hnone hsome := by simp [hnone] at hsome

theorem insertOne_ok {id : α} {d : Document α} (h : insertOne c id d = .ok c') :
    c' = c.set id d ∧ c.get id = none := by
  unfold insertOne at h
  split at h
  · cases h
  · next hfree =>
    cases h
    exact ⟨rfl, by simpa using (not_or.mp hfree).1⟩

/-- A child of a container in the bucket is in the bucket. -/
theorem Grown.insertOne (h : Grown c b c') {p id : α} {d : Document α}
    (hp : TopLevel c' p b) (hd : d.containerId = some p) {c'' : Collection α}
    (hok : ContentRepository.insertOne c' id d = .ok c'') :
    Grown c b c'' ∧ TopLevel c'' id b ∧ ∀ i e, c'.get i = some e → c''.get i = some e := by
  obtain ⟨rfl, hfree⟩ := insertOne_ok hok
  have hkept : ∀ i e, c'.get i = some e → (c'.set id d).get i = some e := by
    intro i e hi
    rwa [get_set_ne _ _ fun heq => by simp [heq, hfree] at hi]
  have hnew : TopLevel (c'.set id d) id b := .inside (get_set_self _ _ _) hd (hp.mono hkept)
  refine ⟨⟨fun i e hi => hkept i e (h.kept i e hi), fun i hnone hsome => ?_⟩, hnew, hkept⟩
  by_cases hi : i = id
  · exact hi ▸ hnew
  · rw [get_set_ne _ _ hi] at hsome
    exact (h.inserted i hnone hsome).mono hkept

/-- The walk has entered the bucket. -/
structure Inside (c : Collection α) (b : α) (w : Walk α) : Prop where
  grown : Grown c b w.collection
  stands : ∃ p, w.containerId = some p ∧ TopLevel w.collection p b
  bucket : w.bucketId = some b

theorem Inside.enter {w : Walk α} (h : Inside c b w) {id : α} (hid : TopLevel w.collection id b) :
    Inside c b (w.enter id) where
  grown := h.grown
  stands := ⟨id, rfl, hid⟩
  bucket := by simp [Walk.enter, h.bucket]

variable {cache : Cache α} {supply : Option (Supply α)}

omit [DecidableEq α] in
theorem written_spec {reply : Reply} {result : Except DatabaseError (Collection α)}
    {answer : Except RequestError Unit} (h : written reply c result = (answer, c')) :
    (c' = c ∨ result = .ok c') ∧ (answer = .ok () → result = .ok c') := by
  unfold written at h
  split at h <;> cases h <;> simp

theorem createContainer_inside {w : Walk α} (h : Inside c b w) (name : Text) (s : Supply α) :
    Inside c b (createContainer w name s).2 := by
  obtain ⟨p, hp, hin⟩ := h.stands
  simp only [createContainer]
  split
  · exact ⟨h.grown, h.stands, h.bucket⟩
  · split
    · next hwritten =>
      rcases (written_spec hwritten).1 with rfl | hok
      · exact ⟨h.grown, h.stands, h.bucket⟩
      · obtain ⟨hgrown, -, hkept⟩ := h.grown.insertOne hin hp hok
        exact ⟨hgrown, ⟨p, hp, hin.mono hkept⟩, h.bucket⟩
    · next hwritten =>
      obtain ⟨hgrown, hnew, -⟩ := h.grown.insertOne hin hp ((written_spec hwritten).2 rfl)
      exact ⟨hgrown, ⟨_, rfl, hnew⟩, by simp [Walk.enter, h.bucket]⟩

/-- Once in the bucket, the walk stays in it. -/
theorem resolveComponent_inside (hlive : Live c cache) {w : Walk α} (h : Inside c b w)
    (name : Text) : Inside c b (resolveComponent cache supply w name).2 := by
  obtain ⟨p, hp, hin⟩ := h.stands
  unfold resolveComponent
  split
  · exact h
  · split
    · next id hcached =>
      obtain ⟨d, hd, -, hparent, -⟩ := hlive _ _ _ hcached
      exact h.enter (.inside (h.grown.kept _ _ hd) (hparent.trans hp) hin)
    · split
      · next id d hfound =>
        split
        · split at hfound
          · cases hfound
          · obtain ⟨hd, hparent, -⟩ := findOne_spec hfound
            exact h.enter (.inside hd (hparent.trans hp) hin)
        · exact h
      · split
        · exact h
        · exact createContainer_inside h name _

theorem resolveComponents_inside (hlive : Live c cache) {w : Walk α} (h : Inside c b w)
    (components : List Text) : Inside c b (resolveComponents cache supply components w).2 := by
  induction components generalizing w with
  | nil => exact h
  | cons name rest ih =>
    have hstep := @resolveComponent_inside _ _ _ _ _ supply hlive w h name
    simp only [resolveComponents]
    generalize resolveComponent cache supply w name = step at hstep
    obtain ⟨result, w'⟩ := step
    cases result with
    | error e => exact hstep
    | ok _ => exact ih hstep

/-- A path whose first component is a bucket leads into that bucket. -/
theorem resolveContainerWithBucket_inside (hc : Consistent c) (hlive : Live c cache)
    {d : Document α} (hd : c.get b = some d) (hb : isBucket d) {first : Text}
    (hname : d.name = .text first) (hfirst : first ≠ []) (rest : List Text) :
    Inside c b (resolveContainerWithBucket cache supply c (first :: rest)).2 := by
  have hroot : d.containerId = none ∧ d.isContainer := by simpa [isBucket] using hb
  have hentered : Inside c b (Walk.enter ⟨c, none, none, false, 0⟩ b) :=
    ⟨.refl c b, ⟨b, rfl, .bucket hd hb⟩, rfl⟩
  have hstep : resolveComponent cache supply ⟨c, none, none, false, 0⟩ first =
      (.ok (), Walk.enter ⟨c, none, none, false, 0⟩ b) := by
    simp only [resolveComponent, if_neg hfirst]
    cases hcached : cache first none with
    | some id =>
      obtain ⟨e, he, -, hparent, hname'⟩ := hlive _ _ _ hcached
      rw [hc.unique id b e d he hd (hparent.trans hroot.1.symm) (hname'.trans hname.symm)]
    | none =>
      have hfind := findOne_unique hc hd hname
      rw [hroot.1] at hfind
      simp [hfind, hroot.2]
  simp only [resolveContainerWithBucket, resolveComponents, hstep]
  exact resolveComponents_inside hlive hentered rest

/-- Without a supply the collection stays as it is. -/
theorem resolveComponents_collection (components : List Text) (w : Walk α) :
    (resolveComponents cache none components w).2.collection = w.collection := by
  induction components generalizing w with
  | nil => rfl
  | cons name rest ih =>
    have hstep : (resolveComponent cache none w name).2.collection = w.collection := by
      unfold resolveComponent
      split
      · rfl
      · split
        · rfl
        · split
          · split <;> rfl
          · rfl
    simp only [resolveComponents]
    generalize resolveComponent cache none w name = step at hstep
    obtain ⟨result, w'⟩ := step
    cases result with
    | error e => exact hstep
    | ok _ => exact (ih w').trans hstep

/-! The handlers. -/

theorem getObjectByPath_inside (hc : Consistent c) (hlive : Live c cache) {d : Document α}
    (hd : c.get b = some d) (hb : isBucket d) {first : Text} (hname : d.name = .text first)
    (hfirst : first ≠ []) {path : Text} (hhead : (path.splitOn '/').head? = some first)
    {e : α × Document α} (h : getObjectByPath cache c path = .ok e) : TopLevel c e.1 b := by
  have hroot : d.containerId = none ∧ d.isContainer := by simpa [isBucket] using hb
  rw [← components_eq] at hhead
  unfold getObjectByPath at h
  generalize extractPathComponents path = parts at hhead h
  obtain ⟨components, objectName⟩ := parts
  simp only at h
  split at h
  · cases h
  · cases components with
    | nil =>
      obtain rfl : objectName = first := by simpa using hhead
      have hfind := findOne_unique hc hd hname
      rw [hroot.1] at hfind
      simp only [resolveContainerWithBucket, resolveComponents, hfind] at h
      obtain rfl := Except.ok.inj h
      exact .bucket hd hb
    | cons name rest =>
      obtain rfl : name = first := by simpa using hhead
      have hin :=
        @resolveContainerWithBucket_inside _ _ _ _ _ none hc hlive _ hd hb _ hname hfirst rest
      have hsame := @resolveComponents_collection _ _ cache (name :: rest)
        ⟨c, none, none, false, 0⟩
      change (resolveContainerWithBucket cache none c (name :: rest)).2.collection = c at hsame
      generalize resolveContainerWithBucket cache none c (name :: rest) = walk at hin hsame h
      obtain ⟨result, w⟩ := walk
      cases result with
      | error e => cases h
      | ok _ =>
        simp only at h hsame
        split at h
        · cases h
        · next found hfound =>
          obtain rfl := Except.ok.inj h
          obtain ⟨p, hp, htop⟩ := hin.stands
          obtain ⟨he, hparent, -⟩ := findOne_spec hfound
          exact .inside he (hparent.trans hp) (hsame ▸ htop)

/-- What the authoriser finds is a bucket: the one the object says it is in, or the one that is
named. -/
theorem resolveBucket_spec {rawUrl : Text} {bucket : ResolvedBucket}
    (h : resolveBucket ids c rawUrl = .ok (some (b, bucket))) :
    ∃ d, c.get b = some d ∧ isBucket d ∧ bucket = toResolved d ∧
      ((bucketRefFromPath rawUrl = .id ∧ ∃ id e,
          getObjectById ids c ((rawUrl.takeWhile (· ≠ '?')).drop 2) = .ok (id, e) ∧
          e.bucketId = some b) ∨
        ∃ first, bucketRefFromPath rawUrl = .path first ∧ isValidBucketName first ∧
          d.name = .text first) := by
  unfold resolveBucket at h
  split at h
  · cases h
  · next href =>
    split at h
    · cases h
    · cases h
    · next id e hget =>
      obtain ⟨found, hfound, heq⟩ := Option.map_eq_some_iff.mp (Except.ok.inj h)
      obtain ⟨bucketId, hbucket, hbyId⟩ := Option.bind_eq_some_iff.mp hfound
      obtain ⟨hid, hd, hb⟩ := getBucketById_spec hbyId
      obtain ⟨rfl, rfl⟩ := Prod.mk.inj heq
      exact ⟨found.2, hid ▸ hd, hb, rfl, .inl ⟨href, id, e, hget, hid ▸ hbucket⟩⟩
  · next first href =>
    split at h
    · next hvalid =>
      obtain ⟨found, hfound, heq⟩ := Option.map_eq_some_iff.mp (Except.ok.inj h)
      obtain ⟨hd, hb, hname⟩ := getBucketByName_spec hfound
      obtain ⟨rfl, rfl⟩ := Prod.mk.inj heq
      exact ⟨found.2, hd, hb, rfl, .inr ⟨first, href, hvalid, hname⟩⟩
    · cases h

theorem authorize_allow {a : Access} {r : Request α} (henforced : a.isEnforced)
    (h : authorizeObjectRequest ids a c (parseUrl r.url) r.method = .allow) :
    ∃ b, ReliesOn ids a c r b := by
  unfold authorizeObjectRequest at h
  simp only [henforced, Bool.not_true, Bool.false_eq_true, ↓reduceIte] at h
  split at h
  · cases h
  · split at h
    · cases h
    · cases h
    · cases h
    · next b bucket hresolve hidentity =>
      split at h
      · next hpublic =>
        obtain ⟨d, hd, hb, rfl, -⟩ := resolveBucket_spec hresolve
        exact ⟨b, d, hd, hb, hresolve, by simpa [hidentity] using hpublic⟩
      · cases h
    · next b bucket identity hresolve hidentity =>
      split at h
      · cases h
      · next grants hgrants =>
        split at h
        · next hany =>
          obtain ⟨d, hd, hb, rfl, -⟩ := resolveBucket_spec hresolve
          refine ⟨b, d, hd, hb, hresolve, ?_⟩
          simpa [hidentity, hgrants] using hany
        · cases h

/-- A bucket name does not consist of spaces. -/
theorem isValidBucketName_spec {name : Text} (h : isValidBucketName name) :
    name ≠ [] ∧ name.all isSpace = false := by
  match name with
  | [] => cases h
  | x :: rest =>
    refine ⟨by simp, ?_⟩
    have hx : isAlphanumeric x := by
      simp only [isValidBucketName, Bool.and_eq_true, List.head?_cons, Option.all_some] at h
      exact h.1.2
    have hspace : isSpace x = false := by
      by_contra hs
      simp only [isSpace, List.mem_cons, List.not_mem_nil, or_false, Bool.not_eq_false,
        decide_eq_true_eq] at hs
      rcases hs with rfl | rfl | rfl | rfl | rfl | rfl | rfl <;> exact absurd hx (by decide)
    simp [hspace]

/-- The path of a bucket alone finds the bucket. -/
theorem getObjectByPath_bucket (hc : Consistent c) {d : Document α} (hd : c.get b = some d)
    (hb : isBucket d) {first : Text} (hname : d.name = .text first)
    (hvalid : isValidBucketName first) {path : Text}
    (hparts : extractPathComponents path = ([], first)) :
    getObjectByPath cache c path = .ok (b, d) := by
  have hroot : d.containerId = none ∧ d.isContainer := by simpa [isBucket] using hb
  obtain ⟨hne, hspace⟩ := isValidBucketName_spec hvalid
  have hpath : path = first := by
    have hjoin : ['/'].intercalate (path.splitOn '/') = path := List.intercalate_splitOn '/'
    rw [← components_eq, hparts] at hjoin
    simpa [List.intercalate] using hjoin.symm
  have hfind := findOne_unique hc hd hname
  rw [hroot.1] at hfind
  subst hpath
  simp [getObjectByPath, hparts, hspace, hne, resolveContainerWithBucket, resolveComponents, hfind]

theorem isIdForm_slash {path : Text} (h : isIdForm path) : ['/', '$'] <+: path := by
  unfold isIdForm at h
  split at h
  · exact ⟨_, rfl⟩
  · cases h

theorem createObjectRecord_grown {w : Walk α} (h : Inside c b w) (r : Request α)
    (d : Document α) : Grown c b (createObjectRecord w r d).2 := by
  obtain ⟨p, hp, hin⟩ := h.stands
  unfold createObjectRecord
  split
  · exact h.grown
  · generalize hwritten : written r.insert w.collection _ = result
    obtain ⟨answer, c'⟩ := result
    rcases (written_spec hwritten).1 with rfl | hok
    · exact h.grown
    · exact (h.grown.insertOne hin hp hok).1

/-- A `PUT` neither serves nor deletes. -/
theorem finalizeUpload_answer (c : Collection α) (r : Request α) (d : Document α) :
    (∃ status, (finalizeUpload c r d).1 = .refused status) ∨
      (finalizeUpload c r d).1 = .created r.objectId := by
  unfold finalizeUpload
  dsimp only
  split
  · exact .inl ⟨_, rfl⟩
  · split
    · exact .inl ⟨_, rfl⟩
    · split
      · exact .inl ⟨_, rfl⟩
      · split
        · exact .inl ⟨_, rfl⟩
        · exact .inr rfl

theorem Confined.of_grown {result : Answer α × Collection α} (h : Grown c b result.2) {id : α}
    (hanswer : (∃ status, result.1 = .refused status) ∨ result.1 = .created id) :
    Confined c b result where
  served i hi := by rcases hanswer with ⟨status, h⟩ | h <;> simp [h] at hi
  deleted i hi := by rcases hanswer with ⟨status, h⟩ | h <;> simp [h] at hi
  inserted := h.inserted
  kept i d hd := .inl (h.kept i d hd)

theorem Confined.erase {id : α} (hid : TopLevel c id b) (rowDeleted : Bool) :
    Confined c b (.deleted id, if rowDeleted then c.erase id else c) where
  served := nofun
  deleted := by rintro _ ⟨⟩; exact hid
  inserted i hnone hsome := by
    cases rowDeleted
    · simp [hnone] at hsome
    · simp [get_erase, hnone] at hsome
  kept i d hd := by
    by_cases hi : i = id
    · exact .inr (by rw [hi])
    · cases rowDeleted
      · exact .inl hd
      · exact .inl (by simpa [get_erase, hi] using hd)

theorem Confined.refused (c : Collection α) (b : α) (status : ℕ) :
    Confined c b (.refused status, c) where
  served := nofun
  deleted := nofun
  inserted := (Grown.refl c b).inserted
  kept _ _ h := .inl h

section Relied

variable {r : Request α} (hc : Consistent c) (hurl : validateUrl r.url) {d : Document α}
  (hd : c.get b = some d) (hb : isBucket d)

include hc hurl hd hb

/-- The object a handler finds is in the bucket the authoriser found. -/
theorem getObjectMeta_inside (hlive : Live c r.cache) {bucket : ResolvedBucket}
    (hresolve : resolveBucket ids c (parseUrl r.url) = .ok (some (b, bucket)))
    {e : α × Document α}
    (h : getObjectMeta ids r.cache c (parseUrl r.url) = .ok (some e)) : TopLevel c e.1 b := by
  have hsame := sameTarget hurl
  obtain ⟨d', hd', -, -, htarget⟩ := resolveBucket_spec hresolve
  obtain rfl := Option.some.inj (hd.symm.trans hd')
  unfold getObjectMeta at h
  rcases htarget with ⟨href, id, found, hget, hbucket⟩ | ⟨first, href, hvalid, hname⟩
  · rw [parseUrl_parseUrl] at hget
    rw [if_pos (hsame.id.mp href), hget] at h
    obtain rfl := Option.some.inj (Except.ok.inj h)
    have hfound : c.get id = some found := by
      unfold getObjectById at hget
      split at hget
      · cases hget
      · split at hget
        · cases hget
        · next hat => cases hget; exact hat
    exact hc.bucketed id found b hfound hbucket
  · have hpath : ¬addressesId (parseUrl r.url) := fun hid => by
      rw [hsame.id.mpr hid] at href
      cases href
    have hhead := hsame.bucket first href
    rw [components_eq] at hhead
    rw [if_neg hpath] at h
    generalize hfound : getObjectByPath r.cache c ((parseUrl r.url).drop 1) = found at h
    cases found with
    | ok found =>
      obtain rfl := Option.some.inj (Except.ok.inj h)
      exact getObjectByPath_inside hc hlive hd hb hname (isValidBucketName_spec hvalid).1 hhead
        hfound
    | error err => cases err <;> cases h

/-- A `PUT` that gets past the conflict makes its rows in the bucket. -/
theorem finalizeUpload_grown (hlater : Live c r.cacheLater) {bucket : ResolvedBucket}
    (hresolve : resolveBucket ids c (parseUrl r.url) = .ok (some (b, bucket)))
    (hid : ¬['/', '$'] <+: parseUrl r.url)
    (hfree : getObjectMeta ids r.cache c (parseUrl r.url) = .ok none) (record : Document α) :
    Grown c b (finalizeUpload c r record).2 := by
  have hsame := sameTarget hurl
  obtain ⟨d', hd', -, -, htarget⟩ := resolveBucket_spec hresolve
  obtain rfl := Option.some.inj (hd.symm.trans hd')
  rcases htarget with ⟨href, -⟩ | ⟨first, href, hvalid, hname⟩
  · exact absurd (isIdForm_slash (addressesId_eq _ ▸ hsame.id.mp href)) hid
  · have hpath : ¬addressesId (parseUrl r.url) := fun hid => by
      rw [hsame.id.mpr hid] at href
      cases href
    have hhead := hsame.bucket first href
    unfold finalizeUpload
    generalize hparts : extractPathComponents ((parseUrl r.url).drop 1) = parts at hhead
    obtain ⟨components, fileName⟩ := parts
    simp only
    split
    · exact .refl c b
    · cases components with
      | nil =>
        -- The bucket itself has this path, so there was a conflict.
        obtain rfl : fileName = first := by simpa using hhead
        rw [getObjectMeta, if_neg hpath,
          getObjectByPath_bucket hc hd hb hname hvalid hparts] at hfree
        cases hfree
      | cons name rest =>
        obtain rfl : name = first := by simpa using hhead
        have hin := @resolveContainerWithBucket_inside _ _ _ _ _ (some r.supply) hc hlater _ hd hb _
          hname (isValidBucketName_spec hvalid).1 rest
        generalize resolveContainerWithBucket r.cacheLater (some r.supply) c (name :: rest) = walk
          at hin
        obtain ⟨result, w⟩ := walk
        cases result with
        | error e => exact hin.grown
        | ok _ =>
          simp only
          split
          · exact hin.grown
          · have hrecord := createObjectRecord_grown hin r { record with
              name := .text fileName, isFile := true, isContainer := false }
            generalize createObjectRecord w r _ = inserted at hrecord ⊢
            obtain ⟨answer, c'⟩ := inserted
            cases answer <;> exact hrecord

theorem withFileRecord_confined (hlive : Live c r.cache) {bucket : ResolvedBucket}
    (hresolve : resolveBucket ids c (parseUrl r.url) = .ok (some (b, bucket)))
    {handler : α → Document α → Answer α × Collection α}
    (hhandler : ∀ id d, TopLevel c id b → Confined c b (handler id d)) :
    Confined c b (withFileRecord ids c r handler) := by
  unfold withFileRecord
  generalize hmeta : getObjectMeta ids r.cache c (parseUrl r.url) = found
  split
  · exact .refused c b _
  · exact .refused c b _
  · split
    · exact hhandler _ _ (getObjectMeta_inside hc hurl hd hb hlive hresolve hmeta)
    · exact .refused c b _

theorem handleObjectRequest_confined (hlive : Live c r.cache) (hlater : Live c r.cacheLater)
    {bucket : ResolvedBucket}
    (hresolve : resolveBucket ids c (parseUrl r.url) = .ok (some (b, bucket))) :
    Confined c b (handleObjectRequest ids c r) := by
  have hserve : Confined c b (withFileRecord ids c r fun id _ => (.served id, c)) :=
    withFileRecord_confined hc hurl hd hb hlive hresolve fun id _ hid => {
      served := by rintro _ ⟨⟩; exact hid
      deleted := nofun
      inserted := (Grown.refl c b).inserted
      kept := fun _ _ h => .inl h }
  unfold handleObjectRequest
  cases r.method with
  | get => exact hserve
  | head => exact hserve
  | options => exact hserve
  | put =>
    simp only [handlePut]
    split
    · exact .refused c b _
    · split
      · exact .refused c b _
      · next hid =>
        split
        · exact .refused c b _
        · exact .refused c b _
        · exact .refused c b _
        · next record hfree _ =>
          exact .of_grown (finalizeUpload_grown hc hurl hd hb hlater hresolve hid hfree record)
            (finalizeUpload_answer c r record)
  | delete =>
    refine withFileRecord_confined hc hurl hd hb hlive hresolve fun id _ hid => ?_
    split
    · exact .refused c b _
    · exact .erase hid r.rowDeleted
  | other => exact .refused c b _

end Relied

/-- A request that enforced authorisation allows was allowed on a bucket, and whatever comes of it
is in that bucket. The id form and the path form are told apart in the same way. -/
theorem no_confused_deputy (hc : Consistent c) {a : Access} {r : Request α}
    (hlive : Live c r.cache) (hlater : Live c r.cacheLater) (hurl : validateUrl r.url)
    (henforced : a.isEnforced)
    (hallow : authorizeObjectRequest ids a c (parseUrl r.url) r.method = .allow) :
    SameTarget (parseUrl r.url) ∧ (∃ b, ReliesOn ids a c r b) ∧
      ∀ b, ReliesOn ids a c r b → Confined c b (handleObjectRequest ids c r) := by
  refine ⟨sameTarget hurl, authorize_allow henforced hallow, ?_⟩
  rintro b ⟨d, hd, hb, hresolve, -⟩
  exact handleObjectRequest_confined hc hurl hd hb hlive hlater hresolve

/-- On a listener that is not trusted, a request is turned down or stays in its bucket. -/
theorem untrusted_confined (hc : Consistent c) {a : Access} {r : Request α}
    (hlive : Live c r.cache) (hlater : Live c r.cacheLater) (henforced : a.isEnforced)
    (role : Role) :
    (∃ status, handleHttpRequest ids role false a c r = (.refused status, c)) ∨
      handleHttpRequest ids role false a c r = (.management, c) ∨
      ∃ b, ReliesOn ids a c r b ∧ Confined c b (handleHttpRequest ids role false a c r) := by
  simp only [handleHttpRequest]
  split
  · exact .inl ⟨_, rfl⟩
  · next hurl =>
    have hvalid : validateUrl r.url := by simpa using hurl
    split
    · split
      · exact .inl ⟨_, rfl⟩
      · exact .inr (.inl rfl)
    · split
      · exact .inl ⟨_, rfl⟩
      · split
        · exact .inl ⟨_, rfl⟩
        · split
          · next htrusted => cases htrusted
          · split
            · exact .inl ⟨_, rfl⟩
            · next hallow =>
              obtain ⟨b, hrelies⟩ := authorize_allow henforced hallow
              obtain ⟨d, hd, hb, hresolve, -⟩ := id hrelies
              exact .inr (.inr ⟨b, hrelies,
                handleObjectRequest_confined hc hvalid hd hb hlive hlater hresolve⟩)

/-! ### A public bucket with one object -/

def hexOf (id : Bool) : Text := List.replicate 23 '0' ++ [if id then '1' else '0']

def twoIds : ObjectIds Bool where
  hex := hexOf
  ofText t := if t = hexOf true then some true else if t = hexOf false then some false else none
  ofText_hex id := by cases id <;> decide
  hex_ne_nil id := by cases id <;> decide

def photos : Document Bool := { (Document.blank : Document Bool) with
  name := .text "photos".toList
  isContainer := true
  bucketId := some false
  publicRead := some true }

def cat : Document Bool := { (Document.blank : Document Bool) with
  containerId := some false
  name := .text "cat".toList
  isFile := true
  bucketId := some false
  size := .number (some 1)
  chunkSize := .number (some 16384) }

def gallery : Collection Bool := ⟨[(false, photos), (true, cat)], by decide⟩

def anonymous : Access := ⟨true, none, fun _ => none, false⟩

def getCat : Request Bool where
  url := "/photos/cat?x=1".toList
  method := .get
  cache := fun _ _ => none
  cacheLater := fun _ _ => none
  hasContentLength := false
  received := .error 400
  objectId := true
  supply := ⟨fun _ => true, fun _ => true, fun _ => .done⟩
  commits := true
  insert := .done
  rowDeleted := true

theorem gallery_consistent : Consistent gallery where
  unique i j d e hi hj hparent hname := by
    rw [get_eq_some_iff] at hi hj
    simp only [gallery, List.mem_cons, Prod.mk.injEq, List.not_mem_nil, or_false] at hi hj
    rcases hi with ⟨rfl, rfl⟩ | ⟨rfl, rfl⟩ <;> rcases hj with ⟨rfl, rfl⟩ | ⟨rfl, rfl⟩
    · rfl
    · exact absurd hparent (by decide)
    · exact absurd hparent (by decide)
    · rfl
  bucketed i d b hi hb := by
    have htop : TopLevel gallery false false := .bucket (d := photos) rfl rfl
    rw [get_eq_some_iff] at hi
    simp only [gallery, List.mem_cons, Prod.mk.injEq, List.not_mem_nil, or_false] at hi
    rcases hi with ⟨rfl, rfl⟩ | ⟨rfl, rfl⟩
    · obtain rfl : false = b := Option.some.inj hb
      exact htop
    · obtain rfl : false = b := Option.some.inj hb
      exact .inside (d := cat) rfl rfl htop

/-- The object is served to a caller without credentials, from the public bucket. -/
theorem no_confused_deputy_public :
    (handleObjectRequest twoIds gallery getCat).1 = .served true ∧
    SameTarget (parseUrl getCat.url) ∧ (∃ b, ReliesOn twoIds anonymous gallery getCat b) ∧
      ∀ b, ReliesOn twoIds anonymous gallery getCat b →
        Confined gallery b (handleObjectRequest twoIds gallery getCat) :=
  ⟨by decide +kernel, no_confused_deputy gallery_consistent nofun nofun (by decide +kernel) rfl
    (by decide +kernel)⟩

end ObjectAuthz
