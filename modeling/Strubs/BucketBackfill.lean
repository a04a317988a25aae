import Strubs.ContentRepository
import Strubs.ParentChains
import Strubs.Tally

/-! # Buckets for the documents that have none

Documents from before there were buckets get theirs in one pass: the container at the end of
their chain of parents. The chains are followed with a cache, and what does not end at a
container without a parent is left as it is. -/
namespace BucketBackfill

open InsertionMap NamespaceRecord ParentChains Relation
open ContentRepository (ObjectIds)

/-- A document of the collection. It may have no `bucketId` at all, or one that is null. -/
structure Document (α ρ : Type*) where
  containerId : Option α
  isContainer : Bool
  bucketId : Option (Option α)
  rest : ρ

abbrev Collection (α ρ : Type*) := Table α (Document α ρ)

variable {α ρ κ : Type*}

/-- A container as it is listed. -/
structure ContainerDoc (α : Type*) where
  id : α
  containerId : Option α
  bucketId : Option (Option α)

def findContainers (c : Collection α ρ) : List (ContainerDoc α) :=
  (c.entries.filter (·.2.isContainer)).map fun e => ⟨e.1, e.2.containerId, e.2.bucketId⟩

/-! ## Following the parents -/

section

variable [DecidableEq κ]

abbrev BucketCache (κ : Type*) := Table κ (Option κ)

def cacheAll (cache : BucketCache κ) (chain : List κ) (bucket : Option κ) : BucketCache κ :=
  chain.foldl (fun cache node => cache.set node bucket) cache

/-- The walk from one container, `chain` behind it. No result is a walk that goes on. -/
def resolveFrom (parentOf : Table κ (Option κ)) :
    ℕ → κ → List κ → BucketCache κ → Option (Option κ × BucketCache κ)
  | 0, _, _, _ => none
  | fuel + 1, current, chain, cache =>
    match cache.get current with
    | some cached => some (cached, cacheAll cache chain cached)
    | none =>
      if current ∈ chain then some (none, cacheAll cache chain none)
      else
        let chain := chain ++ [current]
        match parentOf.get current with
        | none => some (none, cacheAll cache chain none)
        | some none => some (some current, cacheAll cache chain (some current))
        | some (some parent) => resolveFrom parentOf fuel parent chain cache

def resolveBucket (parentOf : Table κ (Option κ)) (fuel : ℕ) (start : κ)
    (cache : BucketCache κ) : Option (Option κ × BucketCache κ) :=
  resolveFrom parentOf fuel start [] cache

end

/-! ## Stamping -/

/-- What an update matches, apart from the documents that have a `bucketId`. -/
inductive Filter (α : Type*) where
  | byId (id : α)
  | childOf (ids : List α)

structure Update (α : Type*) where
  filter : Filter α
  bucketId : α

section

variable [DecidableEq α]

def Filter.matches : Filter α → α → Document α ρ → Bool
  | .byId id, id', _ => id = id'
  | .childOf ids, _, d => d.containerId.any (· ∈ ids)

def Update.applies (u : Update α) (id : α) (d : Document α ρ) : Bool :=
  d.bucketId.isNone && u.filter.matches id d

def Document.stamp (d : Document α ρ) (bucketId : α) : Document α ρ :=
  { d with bucketId := some (some bucketId) }

def mapDocuments (f : α → Document α ρ → Document α ρ) (c : Collection α ρ) : Collection α ρ where
  entries := c.entries.map fun e => (e.1, f e.1 e.2)
  nodup := by
    rw [List.map_map]
    exact c.nodup

/-- The collection, and how many documents have been changed. -/
structure Writes (α ρ : Type*) where
  docs : Collection α ρ
  modifiedCount : ℕ

def Writes.update (w : Writes α ρ) (u : Update α) : Writes α ρ where
  docs := mapDocuments (fun id d => if u.applies id d then d.stamp u.bucketId else d) w.docs
  modifiedCount := w.modifiedCount + w.docs.entries.countP fun e => u.applies e.1 e.2

end

/-- One slice of the items after the other. No result is a loop that goes on. -/
def inBatches {β σ : Type*} (batchSize : ℕ) (items : List β) (write : σ → List β → σ) :
    ℕ → ℕ → σ → Option σ
  | 0, _, _ => none
  | fuel + 1, i, s =>
    if i < items.length then
      inBatches batchSize items write fuel (i + batchSize)
        (write s ((items.drop i).take batchSize))
    else some s

/-! ## The whole pass -/

structure Options where
  apply : Option Bool
  batchSize : Option ℕ

structure Report where
  containersStamped : ℕ
  objectsStamped : ℕ
  skippedContainers : ℕ
  deriving DecidableEq, Repr

structure Grouping (α : Type*) where
  bucketCache : BucketCache Text
  byBucket : Table Text (List α)
  containerBulk : List (Update α)
  skippedContainers : ℕ

variable [DecidableEq α] (ids : ObjectIds α)

def parentMap (containers : List (ContainerDoc α)) : Table Text (Option Text) :=
  Table.ofList (containers.map fun c => (ids.hex c.id, c.containerId.map ids.hex))

def Grouping.skip (g : Grouping α) (bucketCache : BucketCache Text) : Grouping α :=
  { g with bucketCache, skippedContainers := g.skippedContainers + 1 }

def Grouping.add (g : Grouping α) (bucketCache : BucketCache Text) (bucket : Text)
    (c : ContainerDoc α) (bucketOid : α) : Grouping α :=
  { g with
    bucketCache
    byBucket := g.byBucket.set bucket ((g.byBucket.get bucket).getD [] ++ [c.id])
    containerBulk :=
      if c.bucketId.isNone then g.containerBulk ++ [⟨.byId c.id, bucketOid⟩]
      else g.containerBulk }

def groupContainer (fuel : ℕ) (parentOf : Table Text (Option Text)) (g : Grouping α)
    (c : ContainerDoc α) : Option (Grouping α) :=
  match resolveBucket parentOf fuel (ids.hex c.id) g.bucketCache with
  | none => none
  | some (none, bucketCache) | some (some [], bucketCache) => some (g.skip bucketCache)
  | some (some bucket, bucketCache) =>
    (ids.ofText bucket).map fun bucketOid => g.add bucketCache bucket c bucketOid

def groupAll (fuel : ℕ) (containers : List (ContainerDoc α)) : Option (Grouping α) :=
  containers.foldlM (groupContainer ids fuel (parentMap ids containers))
    ⟨Table.empty, Table.empty, [], 0⟩

/-- What a dry run counts under the containers of one bucket. -/
def countChildren (c : Collection α ρ) (containerIds : List α) : ℕ :=
  c.entries.countP fun e =>
    !e.2.isContainer && (Filter.childOf containerIds).matches e.1 e.2 &&
      e.2.bucketId.isNone

def stampChildren (fuel batchSize : ℕ) (w : Writes α ρ) (e : Text × List α) :
    Option (Writes α ρ) :=
  (ids.ofText e.1).bind fun bucketOid =>
    inBatches batchSize e.2 (fun w batch => w.update ⟨.childOf batch, bucketOid⟩) fuel 0 w

def stampContainers (fuel batchSize : ℕ) (c : Collection α ρ) (containerBulk : List (Update α)) :
    Option (Writes α ρ) :=
  inBatches batchSize containerBulk (fun w batch => batch.foldl Writes.update w) fuel 0 ⟨c, 0⟩

/-- The containers are given in the order in which they are listed. -/
def backfillBucketIds (fuel : ℕ) (opts : Options) (c : Collection α ρ)
    (containers : List (ContainerDoc α)) : Option (Collection α ρ × Report) :=
  let batchSize := opts.batchSize.getD 1000
  (groupAll ids fuel containers).bind fun g =>
    if opts.apply = some false then
      let objectsStamped := (g.byBucket.entries.map fun e => countChildren c e.2).sum
      some (c, ⟨g.containerBulk.length, objectsStamped, g.skippedContainers⟩)
    else
      (stampContainers fuel batchSize c g.containerBulk).bind fun stamped =>
        (g.byBucket.entries.foldlM (stampChildren ids fuel batchSize) ⟨stamped.docs, 0⟩).map
          fun written =>
            (written.docs, ⟨stamped.modifiedCount, written.modifiedCount, g.skippedContainers⟩)

/-! ## What the walk answers -/

section

variable [DecidableEq κ] {parentOf : Table κ (Option κ)}

def Parent (parentOf : Table κ (Option κ)) (a b : κ) : Prop := parentOf.get a = some (some b)

def IsRoot (parentOf : Table κ (Option κ)) (a : κ) : Prop := parentOf.get a = some none

/-- The root at the end of the chain, if that is where the chain ends. -/
def Answer (parentOf : Table κ (Option κ)) (a : κ) (bucket : Option κ) : Prop :=
  ∀ b, bucket = some b ↔ ReflTransGen (Parent parentOf) a b ∧ IsRoot parentOf b

def CacheSound (parentOf : Table κ (Option κ)) (cache : BucketCache κ) : Prop :=
  ∀ node bucket, cache.get node = some bucket → Answer parentOf node bucket

theorem parent_unique : Relator.RightUnique (Parent parentOf) := by
  intro a b b' h h'
  exact Option.some.inj (Option.some.inj (h.symm.trans h'))

theorem IsRoot.top {a : κ} (h : IsRoot parentOf a) : Top (Parent parentOf) a := by
  intro b hb
  cases Option.some.inj (h.symm.trans hb)

theorem Answer.below {a b : κ} {bucket : Option κ} (h : Answer parentOf b bucket)
    (hab : ReflTransGen (Parent parentOf) a b) : Answer parentOf a bucket := by
  intro r
  rw [h r]
  constructor
  · exact fun ⟨hreach, hroot⟩ => ⟨hab.trans hreach, hroot⟩
  · exact fun ⟨hreach, hroot⟩ => ⟨(reaches_top_iff parent_unique hroot.top hab).mp hreach, hroot⟩

theorem Answer.unique {a : κ} {bucket bucket' : Option κ} (h : Answer parentOf a bucket)
    (h' : Answer parentOf a bucket') : bucket = bucket' :=
  Option.ext fun b => (h b).trans (h' b).symm

theorem answer_none {a : κ} (h : ∀ b, IsRoot parentOf b → ¬ReflTransGen (Parent parentOf) a b) :
    Answer parentOf a none := by
  intro b
  constructor
  · intro hb
    cases hb
  · exact fun ⟨hreach, hroot⟩ => absurd hreach (h b hroot)

theorem answer_of_onCycle {a : κ} (h : OnCycle (Parent parentOf) a) : Answer parentOf a none :=
  answer_none fun _ hroot => h.not_reaches parent_unique hroot.top

theorem answer_of_missing {a : κ} (h : parentOf.get a = none) : Answer parentOf a none := by
  have htop : Top (Parent parentOf) a := by
    intro b hb
    cases h.symm.trans hb
  refine answer_none fun b hroot hreach => ?_
  obtain rfl := eq_of_top htop hreach
  cases h.symm.trans hroot

theorem answer_of_root {a : κ} (h : IsRoot parentOf a) : Answer parentOf a (some a) := by
  intro b
  rw [Option.some.injEq]
  constructor
  · rintro rfl
    exact ⟨.refl, h⟩
  · exact fun ⟨hreach, _⟩ => eq_of_top h.top hreach

theorem cacheSound_empty : CacheSound parentOf Table.empty := by
  intro node bucket h
  cases h

/-- What is true of the end of a chain is cached for all of it. -/
theorem CacheSound.cacheAll {cache : BucketCache κ} (h : CacheSound parentOf cache)
    {chain : List κ} {bucket : Option κ} (hchain : ∀ node ∈ chain, Answer parentOf node bucket) :
    CacheSound parentOf (cacheAll cache chain bucket) := by
  induction chain generalizing cache with
  | nil => exact h
  | cons node chain ih =>
    obtain ⟨hnode, hchain⟩ := List.forall_mem_cons.mp hchain
    refine ih ?_ hchain
    intro node' bucket' hget
    rw [get_set] at hget
    split at hget
    · next heq =>
      obtain rfl := Option.some.inj hget
      exact heq ▸ hnode
    · exact h node' bucket' hget

/-- The chain is a walk to where the search is, so whatever is met twice is on a cycle, and the
walk is no longer than there are containers. -/
theorem resolveFrom_spec {fuel : ℕ} {current : κ} {chain : List κ} {cache : BucketCache κ}
    (hcache : CacheSound parentOf cache) (hnodup : chain.Nodup) (hkeys : chain ⊆ parentOf.keys)
    (hbelow : ∀ node ∈ chain, TransGen (Parent parentOf) node current)
    (hfuel : parentOf.size < fuel + chain.length) :
    ∃ bucket cache', resolveFrom parentOf fuel current chain cache = some (bucket, cache') ∧
      Answer parentOf current bucket ∧ CacheSound parentOf cache' := by
  induction fuel generalizing current chain with
  | zero =>
    have hlength := (List.subperm_of_subset hnodup hkeys).length_le
    rw [length_keys] at hlength
    omega
  | succ fuel ih =>
    have hend : ∀ {bucket}, Answer parentOf current bucket →
        CacheSound parentOf (cacheAll cache chain bucket) ∧
          CacheSound parentOf (cacheAll cache (chain ++ [current]) bucket) := by
      intro bucket hanswer
      have hchain : ∀ node ∈ chain, Answer parentOf node bucket :=
        fun node hnode => hanswer.below (hbelow node hnode).to_reflTransGen
      refine ⟨hcache.cacheAll hchain, hcache.cacheAll fun node hnode => ?_⟩
      rcases List.mem_append.mp hnode with hnode | hnode
      · exact hchain node hnode
      · exact List.mem_singleton.mp hnode ▸ hanswer
    cases hcached : cache.get current with
    | some bucket =>
      have hanswer := hcache current bucket hcached
      exact ⟨bucket, cacheAll cache chain bucket, by simp [resolveFrom, hcached], hanswer,
        (hend hanswer).1⟩
    | none =>
      by_cases hcycle : current ∈ chain
      · have hanswer := answer_of_onCycle (hbelow current hcycle)
        exact ⟨none, cacheAll cache chain none, by simp [resolveFrom, hcached, hcycle], hanswer,
          (hend hanswer).1⟩
      cases hparent : parentOf.get current with
      | none =>
        have hanswer := answer_of_missing hparent
        exact ⟨none, cacheAll cache (chain ++ [current]) none,
          by simp [resolveFrom, hcached, hcycle, hparent], hanswer, (hend hanswer).2⟩
      | some parent =>
        cases parent with
        | none =>
          have hanswer := answer_of_root hparent
          exact ⟨some current, cacheAll cache (chain ++ [current]) (some current),
            by simp [resolveFrom, hcached, hcycle, hparent], hanswer, (hend hanswer).2⟩
        | some parent =>
          have hstep : Parent parentOf current parent := hparent
          have hmem : current ∈ parentOf.keys := mem_keys_iff.mpr (by rw [hparent]; rfl)
          have hchain : ∀ node ∈ chain ++ [current],
              TransGen (Parent parentOf) node parent := by
            intro node hnode
            rcases List.mem_append.mp hnode with hnode | hnode
            · exact (hbelow node hnode).tail hstep
            · exact List.mem_singleton.mp hnode ▸ .single hstep
          have hnodup' : (chain ++ [current]).Nodup := by
            rw [← List.concat_eq_append]
            exact hnodup.concat hcycle
          obtain ⟨bucket, cache', hresolve, hanswer, hsound⟩ := ih hnodup'
            (List.append_subset.mpr ⟨hkeys, by simpa using hmem⟩) hchain
            (by
              rw [List.length_append, List.length_singleton]
              omega)
          exact ⟨bucket, cache', by simp [resolveFrom, hcached, hcycle, hparent, hresolve],
            hanswer.below (.single hstep), hsound⟩

/-- Whatever has been cached before, the answer is that of the chain. -/
theorem resolveBucket_spec {fuel : ℕ} (hfuel : parentOf.size < fuel) (start : κ)
    {cache : BucketCache κ} (hcache : CacheSound parentOf cache) :
    ∃ bucket cache', resolveBucket parentOf fuel start cache = some (bucket, cache') ∧
      Answer parentOf start bucket ∧ CacheSound parentOf cache' :=
  resolveFrom_spec hcache List.nodup_nil (List.nil_subset _) (by simp) (by simpa using hfuel)

end

/-! ## Buckets of a collection -/

/-- A container and the one it is in. -/
def Up (c : Collection α ρ) (a b : α) : Prop :=
  ∃ d, c.get a = some d ∧ d.isContainer = true ∧ d.containerId = some b

def IsBucket (c : Collection α ρ) (a : α) : Prop :=
  ∃ d, c.get a = some d ∧ d.isContainer = true ∧ d.containerId = none

/-- The chain of parents of a container ends at one that has no parent. -/
def ReachesBucket (c : Collection α ρ) (a b : α) : Prop :=
  ReflTransGen (Up c) a b ∧ IsBucket c b

/-- A container is in the bucket at the end of its own chain, anything else in that of the
container it is in. -/
def BucketOf (c : Collection α ρ) (id : α) (d : Document α ρ) (b : α) : Prop :=
  if d.isContainer then ReachesBucket c id b
  else ∃ p, d.containerId = some p ∧ ReachesBucket c p b

theorem up_unique (c : Collection α ρ) : Relator.RightUnique (Up c) := by
  rintro a b b' ⟨d, hget, -, hb⟩ ⟨d', hget', -, hb'⟩
  obtain rfl := Option.some.inj (hget.symm.trans hget')
  exact Option.some.inj (hb.symm.trans hb')

theorem IsBucket.top {c : Collection α ρ} {a : α} (h : IsBucket c a) : Top (Up c) a := by
  obtain ⟨d, hget, -, hnone⟩ := h
  rintro b ⟨d', hget', -, hb⟩
  obtain rfl := Option.some.inj (hget.symm.trans hget')
  cases hnone.symm.trans hb

theorem reachesBucket_unique {c : Collection α ρ} {a b b' : α} (h : ReachesBucket c a b)
    (h' : ReachesBucket c a b') : b = b' :=
  top_unique (up_unique c) h.2.top h'.2.top h.1 h'.1

open Classical in
noncomputable def bucket? (c : Collection α ρ) (a : α) : Option α :=
  if h : ∃ b, ReachesBucket c a b then some h.choose else none

theorem bucket?_eq_some_iff {c : Collection α ρ} {a b : α} :
    bucket? c a = some b ↔ ReachesBucket c a b := by
  by_cases h : ∃ b, ReachesBucket c a b
  · rw [bucket?, dif_pos h, Option.some.injEq]
    constructor
    · rintro rfl
      exact h.choose_spec
    · exact reachesBucket_unique h.choose_spec
  · rw [bucket?, dif_neg h]
    exact iff_of_false nofun fun hb => h ⟨b, hb⟩

theorem exists_container_of_reaches {c : Collection α ρ} {a b : α} (h : ReachesBucket c a b) :
    ∃ d, c.get a = some d ∧ d.isContainer = true := by
  rcases h.1.cases_head with rfl | ⟨a', ⟨d, hget, hd, -⟩, -⟩
  · obtain ⟨d, hget, hd, -⟩ := h.2
    exact ⟨d, hget, hd⟩
  · exact ⟨d, hget, hd⟩

/-! ## The listing -/

section Listing

variable {ids} {c : Collection α ρ} {containers : List (ContainerDoc α)}

theorem mem_findContainers {r : ContainerDoc α} :
    r ∈ findContainers c ↔ ∃ d, c.get r.id = some d ∧ d.isContainer = true ∧
      d.containerId = r.containerId ∧ d.bucketId = r.bucketId := by
  simp only [findContainers, List.mem_map, List.mem_filter]
  constructor
  · rintro ⟨e, ⟨he, hd⟩, rfl⟩
    exact ⟨e.2, get_eq_some_iff.mpr he, hd, rfl, rfl⟩
  · rintro ⟨d, hget, hd, hparent, hbucket⟩
    exact ⟨(r.id, d), ⟨get_eq_some_iff.mp hget, hd⟩, by rw [hparent, hbucket]⟩

omit [DecidableEq α] in
theorem nodup_ids (hfound : containers.Perm (findContainers c)) :
    (containers.map ContainerDoc.id).Nodup := by
  refine (hfound.map _).nodup_iff.mpr ?_
  rw [findContainers, List.map_map]
  exact c.nodup.sublist (List.filter_sublist.map _)

omit [DecidableEq α] in
theorem size_parentMap : (parentMap ids containers).size ≤ containers.length := by
  rw [parentMap, size_ofList, List.map_map]
  exact (List.dedup_sublist _).length_le.trans_eq (List.length_map _)

theorem get_parentMap (hfound : containers.Perm (findContainers c)) {t : Text}
    {parent : Option Text} :
    (parentMap ids containers).get t = some parent ↔ ∃ a d, t = ids.hex a ∧ c.get a = some d ∧
      d.isContainer = true ∧ parent = d.containerId.map ids.hex := by
  have hkeys : ((containers.map fun r => (ids.hex r.id, r.containerId.map ids.hex)).map
      Prod.fst).Nodup := by
    have h := (nodup_ids hfound).map ids.hex_injective
    rwa [List.map_map] at h ⊢
  rw [parentMap, get_ofList_iff hkeys, List.mem_map]
  constructor
  · rintro ⟨r, hr, heq⟩
    obtain ⟨rfl, rfl⟩ := Prod.mk.inj heq
    obtain ⟨d, hget, hd, hparent, -⟩ := mem_findContainers.mp (hfound.mem_iff.mp hr)
    exact ⟨r.id, d, rfl, hget, hd, by rw [hparent]⟩
  · rintro ⟨a, d, rfl, hget, hd, rfl⟩
    exact ⟨⟨a, d.containerId, d.bucketId⟩,
      hfound.mem_iff.mpr (mem_findContainers.mpr ⟨d, hget, hd, rfl, rfl⟩), rfl⟩

theorem parent_hex_iff (hfound : containers.Perm (findContainers c)) {a : α} {t : Text} :
    Parent (parentMap ids containers) (ids.hex a) t ↔ ∃ b, t = ids.hex b ∧ Up c a b := by
  rw [Parent, get_parentMap hfound]
  constructor
  · rintro ⟨a', d, heq, hget, hd, hparent⟩
    obtain rfl := ids.hex_injective heq
    obtain ⟨b, hb, rfl⟩ := Option.map_eq_some_iff.mp hparent.symm
    exact ⟨b, rfl, d, hget, hd, hb⟩
  · rintro ⟨b, rfl, d, hget, hd, hb⟩
    exact ⟨a, d, rfl, hget, hd, by rw [hb]; rfl⟩

theorem isRoot_hex_iff (hfound : containers.Perm (findContainers c)) {a : α} :
    IsRoot (parentMap ids containers) (ids.hex a) ↔ IsBucket c a := by
  rw [IsRoot, get_parentMap hfound]
  constructor
  · rintro ⟨a', d, heq, hget, hd, hparent⟩
    obtain rfl := ids.hex_injective heq
    exact ⟨d, hget, hd, Option.map_eq_none_iff.mp hparent.symm⟩
  · rintro ⟨d, hget, hd, hnone⟩
    exact ⟨a, d, rfl, hget, hd, by rw [hnone]; rfl⟩

/-- The chain of ids is the chain of the containers. -/
theorem reaches_hex_iff (hfound : containers.Perm (findContainers c)) {a : α} {t : Text} :
    ReflTransGen (Parent (parentMap ids containers)) (ids.hex a) t ↔
      ∃ b, t = ids.hex b ∧ ReflTransGen (Up c) a b := by
  constructor
  · intro h
    induction h with
    | refl => exact ⟨a, rfl, .refl⟩
    | tail _ hstep ih =>
      obtain ⟨b, rfl, hreach⟩ := ih
      obtain ⟨b', rfl, hup⟩ := (parent_hex_iff hfound).mp hstep
      exact ⟨b', rfl, hreach.tail hup⟩
  · rintro ⟨b, rfl, hreach⟩
    exact hreach.lift ids.hex fun x y hup => (parent_hex_iff hfound).mpr ⟨y, rfl, hup⟩

theorem answer_hex (hfound : containers.Perm (findContainers c)) (a : α) :
    Answer (parentMap ids containers) (ids.hex a) ((bucket? c a).map ids.hex) := by
  intro t
  rw [Option.map_eq_some_iff, reaches_hex_iff hfound]
  constructor
  · rintro ⟨b, hb, rfl⟩
    obtain ⟨hreach, hbucket⟩ := bucket?_eq_some_iff.mp hb
    exact ⟨⟨b, rfl, hreach⟩, (isRoot_hex_iff hfound).mpr hbucket⟩
  · rintro ⟨⟨b, rfl, hreach⟩, hroot⟩
    exact ⟨b, bucket?_eq_some_iff.mpr ⟨hreach, (isRoot_hex_iff hfound).mp hroot⟩, rfl⟩

/-! ## Grouping -/

/-- The containers of one bucket, in the order of the listing. -/
noncomputable def listed (c : Collection α ρ) (containers : List (ContainerDoc α)) (b : α) :
    List α :=
  (containers.filter fun r => bucket? c r.id = some b).map ContainerDoc.id

/-- The update of one container that has no bucket yet. -/
noncomputable def containerUpdate (c : Collection α ρ) (r : ContainerDoc α) :
    Option (Update α) :=
  if r.bucketId.isNone then (bucket? c r.id).map fun b => ⟨.byId r.id, b⟩ else none

variable (ids) (c) in
/-- What is known once the containers `done` have been grouped. -/
structure Grouped (containers done : List (ContainerDoc α)) (g : Grouping α) : Prop where
  cache : CacheSound (parentMap ids containers) g.bucketCache
  keys : ∀ t ∈ g.byBucket.keys, ∃ b, t = ids.hex b
  lists : ∀ b, (g.byBucket.get (ids.hex b)).getD [] = listed c done b
  bulk : g.containerBulk = done.filterMap (containerUpdate c)
  skipped : g.skippedContainers = done.countP fun r => (bucket? c r.id).isNone

theorem listed_concat (done : List (ContainerDoc α)) (r : ContainerDoc α) (b : α) :
    listed c (done ++ [r]) b =
      listed c done b ++ if bucket? c r.id = some b then [r.id] else [] := by
  rw [listed, List.filter_append, List.map_append, listed]
  congr 1
  by_cases h : bucket? c r.id = some b <;> simp [h]

theorem mem_listed {a b : α} :
    a ∈ listed c containers b ↔ ∃ r ∈ containers, r.id = a ∧ bucket? c a = some b := by
  simp only [listed, List.mem_map, List.mem_filter, decide_eq_true_eq]
  constructor
  · rintro ⟨r, ⟨hr, hb⟩, rfl⟩
    exact ⟨r, hr, rfl, hb⟩
  · rintro ⟨r, hr, rfl, hb⟩
    exact ⟨r, ⟨hr, hb⟩, rfl⟩

omit [DecidableEq α] in
theorem groupContainer_some {fuel : ℕ} {parentOf : Table Text (Option Text)} {g : Grouping α}
    {r : ContainerDoc α} {b : α} {cache : BucketCache Text}
    (h : resolveBucket parentOf fuel (ids.hex r.id) g.bucketCache =
      some (some (ids.hex b), cache)) :
    groupContainer ids fuel parentOf g r = some (g.add cache (ids.hex b) r b) := by
  have hread := ids.ofText_hex b
  obtain ⟨x, xs, hx⟩ := List.exists_cons_of_ne_nil (ids.hex_ne_nil b)
  rw [hx] at h hread ⊢
  simp only [groupContainer, h, hread, Option.map_some]

omit [DecidableEq α] in
theorem groupContainer_none {fuel : ℕ} {parentOf : Table Text (Option Text)} {g : Grouping α}
    {r : ContainerDoc α} {cache : BucketCache Text}
    (h : resolveBucket parentOf fuel (ids.hex r.id) g.bucketCache = some (none, cache)) :
    groupContainer ids fuel parentOf g r = some (g.skip cache) := by
  rw [groupContainer, h]

theorem groupContainer_spec (hfound : containers.Perm (findContainers c)) {fuel : ℕ}
    (hfuel : containers.length < fuel) {done : List (ContainerDoc α)} {g : Grouping α}
    (h : Grouped ids c containers done g) (r : ContainerDoc α) :
    ∃ g', groupContainer ids fuel (parentMap ids containers) g r = some g' ∧
      Grouped ids c containers (done ++ [r]) g' := by
  obtain ⟨bucket, cache, hresolve, hanswer, hsound⟩ :=
    resolveBucket_spec (lt_of_le_of_lt size_parentMap hfuel) (ids.hex r.id) h.cache
  obtain rfl := hanswer.unique (answer_hex hfound r.id)
  cases hbucket : bucket? c r.id with
  | none =>
    rw [hbucket] at hresolve
    refine ⟨_, groupContainer_none hresolve, hsound, h.keys, fun b => ?_, ?_, ?_⟩
    · rw [listed_concat, hbucket]
      simpa [Grouping.skip] using h.lists b
    · simp [Grouping.skip, h.bulk, containerUpdate, hbucket]
    · simp [Grouping.skip, h.skipped, List.countP_append, hbucket]
  | some b =>
    rw [hbucket] at hresolve
    refine ⟨_, groupContainer_some hresolve, hsound, fun t ht => ?_, fun b' => ?_, ?_, ?_⟩
    · rw [mem_keys_iff, Grouping.add, get_set] at ht
      split at ht
      · next heq => exact ⟨b, heq⟩
      · exact h.keys t (mem_keys_iff.mpr ht)
    · rw [listed_concat, hbucket, Grouping.add, get_set]
      by_cases heq : b' = b
      · simp [heq, h.lists b]
      · have hne : ids.hex b' ≠ ids.hex b := fun hhex => heq (ids.hex_injective hhex)
        simpa [hne, Ne.symm heq] using h.lists b'
    · by_cases habsent : r.bucketId.isNone <;>
        simp [Grouping.add, h.bulk, containerUpdate, hbucket, habsent]
    · simp [Grouping.add, h.skipped, List.countP_append, hbucket]

theorem groupContainers_spec (hfound : containers.Perm (findContainers c)) {fuel : ℕ}
    (hfuel : containers.length < fuel) (done rest : List (ContainerDoc α)) {g : Grouping α}
    (h : Grouped ids c containers done g) :
    ∃ g', rest.foldlM (groupContainer ids fuel (parentMap ids containers)) g = some g' ∧
      Grouped ids c containers (done ++ rest) g' := by
  induction rest generalizing done g with
  | nil => exact ⟨g, rfl, by simpa using h⟩
  | cons r rest ih =>
    obtain ⟨g₁, hgroup, h₁⟩ := groupContainer_spec hfound hfuel h r
    obtain ⟨g₂, hfold, h₂⟩ := ih _ h₁
    rw [List.append_assoc, List.singleton_append] at h₂
    refine ⟨g₂, ?_, h₂⟩
    rw [List.foldlM_cons, hgroup]
    exact hfold

theorem groupAll_spec (hfound : containers.Perm (findContainers c)) {fuel : ℕ}
    (hfuel : containers.length < fuel) :
    ∃ g, groupAll ids fuel containers = some g ∧ Grouped ids c containers containers g :=
  groupContainers_spec hfound hfuel [] containers ⟨cacheSound_empty,
    by simp [Table.empty, Table.keys], fun b => by simp [listed], rfl, rfl⟩

end Listing

/-! ## What updates leave behind -/

section Updates

def Document.fill (d : Document α ρ) (bucket : Option α) : Document α ρ :=
  match d.bucketId, bucket with
  | none, some b => d.stamp b
  | _, _ => d

theorem get_mapDocuments (f : α → Document α ρ → Document α ρ) (c : Collection α ρ) (id : α) :
    (mapDocuments f c).get id = (c.get id).map (f id) := by
  apply Option.ext
  intro d
  simp only [get_eq_some_iff, mapDocuments, List.mem_map, Option.map_eq_some_iff]
  constructor
  · rintro ⟨e, he, heq⟩
    obtain ⟨rfl, rfl⟩ := Prod.mk.inj heq
    exact ⟨e.2, he, rfl⟩
  · rintro ⟨d, hd, rfl⟩
    exact ⟨(id, d), hd, rfl⟩

theorem mapDocuments_congr {f g : α → Document α ρ → Document α ρ} {c : Collection α ρ}
    (h : ∀ id d, c.get id = some d → f id d = g id d) : mapDocuments f c = mapDocuments g c := by
  have hentries : (mapDocuments f c).entries = (mapDocuments g c).entries := by
    refine List.map_congr_left fun e he => ?_
    rw [h e.1 e.2 (get_eq_some_iff.mpr he)]
  simpa only [mapDocuments, Table.mk.injEq] using hentries

omit [DecidableEq α] in
theorem mapDocuments_mapDocuments (f g : α → Document α ρ → Document α ρ)
    (c : Collection α ρ) :
    mapDocuments g (mapDocuments f c) = mapDocuments (fun id d => g id (f id d)) c := by
  simp [mapDocuments]

def stampAll (us : List (Update α)) (id : α) (d : Document α ρ) : Document α ρ :=
  us.foldl (fun d u => if u.applies id d then d.stamp u.bucketId else d) d

theorem docs_foldl_update (us : List (Update α)) (w : Writes α ρ) :
    (us.foldl Writes.update w).docs = mapDocuments (stampAll us) w.docs := by
  induction us generalizing w with
  | nil => simp [stampAll, mapDocuments]
  | cons u us ih =>
    rw [List.foldl_cons, ih, Writes.update, mapDocuments_mapDocuments]
    rfl

theorem stampAll_of_not_applies {us : List (Update α)} {id : α} {d : Document α ρ}
    (h : ∀ u ∈ us, u.applies id d = false) : stampAll us id d = d := by
  induction us with
  | nil => rfl
  | cons u us ih =>
    obtain ⟨hu, hus⟩ := List.forall_mem_cons.mp h
    rw [stampAll, List.foldl_cons, hu]
    exact ih hus

/-- The first update that matches is the last. -/
theorem stampAll_of_applies {us : List (Update α)} {id b : α} {d : Document α ρ}
    (hsound : ∀ u ∈ us, u.applies id d → u.bucketId = b) (h : ∃ u ∈ us, u.applies id d) :
    stampAll us id d = d.stamp b := by
  induction us with
  | nil =>
    obtain ⟨u, hu, -⟩ := h
    cases hu
  | cons u us ih =>
    obtain ⟨hu, hus⟩ := List.forall_mem_cons.mp hsound
    rw [stampAll, List.foldl_cons]
    by_cases happlies : u.applies id d
    · rw [if_pos happlies, hu happlies]
      exact stampAll_of_not_applies fun u' _ => by simp [Update.applies, Document.stamp]
    · rw [if_neg happlies]
      refine ih hus ?_
      obtain ⟨u', hu', happlies'⟩ := h
      rcases List.mem_cons.mp hu' with rfl | hu'
      · exact absurd happlies' happlies
      · exact ⟨u', hu', happlies'⟩

/-- The updates give every document that has no bucket the one that `target` says. -/
structure Stamps (c : Collection α ρ) (us : List (Update α))
    (target : α → Document α ρ → Option α) : Prop where
  sound : ∀ id d, c.get id = some d → ∀ u ∈ us, u.applies id d → target id d = some u.bucketId
  complete : ∀ id d, c.get id = some d → d.bucketId = none → (target id d).isSome →
    ∃ u ∈ us, u.applies id d

theorem Stamps.mapDocuments_stampAll {c : Collection α ρ} {us : List (Update α)}
    {target : α → Document α ρ → Option α} (h : Stamps c us target) :
    mapDocuments (stampAll us) c = mapDocuments (fun id d => d.fill (target id d)) c := by
  refine mapDocuments_congr fun id d hget => ?_
  have hsound := h.sound id d hget
  cases hbucket : d.bucketId with
  | some v =>
    rw [stampAll_of_not_applies fun u _ => by simp [Update.applies, hbucket]]
    simp [Document.fill, hbucket]
  | none =>
    cases htarget : target id d with
    | some b =>
      have hcomplete := h.complete id d hget hbucket (by rw [htarget]; rfl)
      have hsame : ∀ u ∈ us, u.applies id d → u.bucketId = b := fun u hu happlies =>
        Option.some.inj ((hsound u hu happlies).symm.trans htarget)
      rw [stampAll_of_applies hsame hcomplete]
      simp [Document.fill, hbucket]
    | none =>
      have hnone : ∀ u ∈ us, u.applies id d = false := by
        intro u hu
        rw [Bool.eq_false_iff]
        intro happlies
        cases (hsound u hu happlies).symm.trans htarget
      rw [stampAll_of_not_applies hnone]
      simp [Document.fill, hbucket]

/-! ### How many are changed -/

def lacking (c : Collection α ρ) : ℕ := c.entries.countP fun e => e.2.bucketId.isNone

theorem lacking_update (w : Writes α ρ) (u : Update α) :
    lacking (w.update u).docs + (w.update u).modifiedCount = lacking w.docs + w.modifiedCount := by
  have h : lacking (w.update u).docs + w.docs.entries.countP (fun e => u.applies e.1 e.2) =
      lacking w.docs := by
    rw [lacking, Writes.update, mapDocuments, List.countP_map]
    refine Tally.countP_add_countP fun e _ => ?_
    by_cases happlies : u.applies e.1 e.2
    · have hnone : e.2.bucketId.isNone = true := by
        rw [Update.applies, Bool.and_eq_true] at happlies
        exact happlies.1
      simp [happlies, hnone, Document.stamp]
    · simp [happlies]
  have hmodified : (w.update u).modifiedCount =
      w.modifiedCount + w.docs.entries.countP fun e => u.applies e.1 e.2 := rfl
  omega

theorem lacking_foldl_update (us : List (Update α)) (w : Writes α ρ) :
    lacking (us.foldl Writes.update w).docs + (us.foldl Writes.update w).modifiedCount =
      lacking w.docs + w.modifiedCount := by
  induction us generalizing w with
  | nil => rfl
  | cons u us ih => rw [List.foldl_cons, ih, lacking_update]

omit [DecidableEq α] in
theorem lacking_fill (c : Collection α ρ) (target : α → Document α ρ → Option α) :
    lacking (mapDocuments (fun id d => d.fill (target id d)) c) +
        c.entries.countP (fun e => e.2.bucketId.isNone && (target e.1 e.2).isSome) =
      lacking c := by
  rw [lacking, mapDocuments, List.countP_map]
  refine Tally.countP_add_countP fun e _ => ?_
  cases hbucket : e.2.bucketId <;> cases htarget : target e.1 e.2 <;>
    simp [Document.fill, Document.stamp, hbucket, htarget]

/-! ### In batches -/

theorem inBatches_spec {β σ : Type*} {batchSize : ℕ} (hbatch : 0 < batchSize) (items : List β)
    (write : σ → List β → σ) {fuel : ℕ} (i : ℕ) (hfuel : items.length - i < fuel) (s : σ) :
    ∃ batches : List (List β), batches.flatten = items.drop i ∧
      inBatches batchSize items write fuel i s = some (batches.foldl write s) := by
  induction fuel generalizing i s with
  | zero => omega
  | succ fuel ih =>
    rw [inBatches]
    by_cases hi : i < items.length
    · obtain ⟨batches, hflatten, hrun⟩ := ih (i + batchSize) (by omega)
        (write s ((items.drop i).take batchSize))
      refine ⟨(items.drop i).take batchSize :: batches, ?_, by rw [if_pos hi, hrun]; rfl⟩
      rw [List.flatten_cons, hflatten, ← List.drop_drop, List.take_append_drop]
    · exact ⟨[], by simp [List.drop_eq_nil_of_le (Nat.le_of_not_lt hi)], by rw [if_neg hi]; rfl⟩

theorem stampContainers_spec {batchSize : ℕ} (hbatch : 0 < batchSize) {fuel : ℕ}
    (c : Collection α ρ) {us : List (Update α)} (hfuel : us.length < fuel) :
    stampContainers fuel batchSize c us = some (us.foldl Writes.update ⟨c, 0⟩) := by
  obtain ⟨batches, hflatten, hrun⟩ := inBatches_spec hbatch us
    (fun (w : Writes α ρ) batch => batch.foldl Writes.update w) 0 hfuel ⟨c, 0⟩
  rw [List.drop_zero] at hflatten
  rw [stampContainers, hrun, ← hflatten, List.foldl_flatten]

/-- The updates of the children of `containerIds`, a batch at a time. -/
structure Covers (us : List (Update α)) (containerIds : List α) (bucketOid : α) : Prop where
  sound : ∀ u ∈ us, ∃ batch, u = ⟨.childOf batch, bucketOid⟩ ∧ batch ⊆ containerIds
  complete : ∀ a ∈ containerIds, ∃ batch, ⟨.childOf batch, bucketOid⟩ ∈ us ∧ a ∈ batch

theorem stampChildren_spec {batchSize : ℕ} (hbatch : 0 < batchSize) {fuel : ℕ} (b : α)
    {containerIds : List α} (hfuel : containerIds.length < fuel) (w : Writes α ρ) :
    ∃ us, Covers us containerIds b ∧
      stampChildren ids fuel batchSize w (ids.hex b, containerIds) =
        some (us.foldl Writes.update w) := by
  obtain ⟨batches, hflatten, hrun⟩ := inBatches_spec hbatch containerIds
    (fun (w : Writes α ρ) batch => w.update ⟨.childOf batch, b⟩) 0 hfuel w
  rw [List.drop_zero] at hflatten
  refine ⟨batches.map fun batch => ⟨.childOf batch, b⟩, ⟨fun u hu => ?_, fun a ha => ?_⟩, ?_⟩
  · obtain ⟨batch, hmem, rfl⟩ := List.mem_map.mp hu
    exact ⟨batch, rfl, fun a ha => hflatten ▸ List.mem_flatten.mpr ⟨batch, hmem, ha⟩⟩
  · obtain ⟨batch, hmem, ha⟩ := List.mem_flatten.mp (hflatten ▸ ha)
    exact ⟨batch, List.mem_map_of_mem hmem, ha⟩
  · rw [stampChildren, ids.ofText_hex, Option.bind_some, hrun, List.foldl_map]

end Updates

section Pass

variable {ids} {c : Collection α ρ} {containers : List (ContainerDoc α)} {g : Grouping α}

theorem Grouped.entry (h : Grouped ids c containers containers g) {t : Text} {l : List α}
    (he : (t, l) ∈ g.byBucket.entries) : ∃ b, t = ids.hex b ∧ l = listed c containers b := by
  obtain ⟨b, rfl⟩ := h.keys t (List.mem_map_of_mem he)
  have hlist := h.lists b
  rw [get_eq_some_iff.mpr he] at hlist
  exact ⟨b, rfl, hlist⟩

theorem mem_listed_iff (hfound : containers.Perm (findContainers c)) {a b : α} :
    a ∈ listed c containers b ↔ bucket? c a = some b := by
  rw [mem_listed]
  constructor
  · exact fun ⟨_, _, _, hb⟩ => hb
  · intro hb
    obtain ⟨d, hget, hd⟩ := exists_container_of_reaches (bucket?_eq_some_iff.mp hb)
    exact ⟨⟨a, d.containerId, d.bucketId⟩,
      hfound.mem_iff.mpr (mem_findContainers.mpr ⟨d, hget, hd, rfl, rfl⟩), rfl, hb⟩

theorem Grouped.exists_entry (h : Grouped ids c containers containers g)
    (hfound : containers.Perm (findContainers c)) {a b : α} (hb : bucket? c a = some b) :
    (ids.hex b, listed c containers b) ∈ g.byBucket.entries := by
  have hmem := (mem_listed_iff hfound).mpr hb
  rw [← h.lists b] at hmem
  cases hget : g.byBucket.get (ids.hex b) with
  | none =>
    rw [hget] at hmem
    cases hmem
  | some l =>
    have hlist := h.lists b
    rw [hget] at hlist
    obtain rfl : l = listed c containers b := hlist
    exact get_eq_some_iff.mp hget

noncomputable def containerTarget (c : Collection α ρ) (id : α) (d : Document α ρ) : Option α :=
  if d.isContainer then bucket? c id else none

noncomputable def bucketTarget (c : Collection α ρ) (id : α) (d : Document α ρ) : Option α :=
  if d.isContainer then bucket? c id else d.containerId.bind (bucket? c)

theorem bucketTarget_eq_some_iff {id b : α} {d : Document α ρ} :
    bucketTarget c id d = some b ↔ BucketOf c id d b := by
  rw [bucketTarget, BucketOf]
  split
  · exact bucket?_eq_some_iff
  · simp only [Option.bind_eq_some_iff, bucket?_eq_some_iff]

/-- A container is in the bucket of the one it is in. -/
theorem bucketTarget_of_parent {id p b : α} {d : Document α ρ} (hget : c.get id = some d)
    (hp : d.containerId = some p) (hb : bucket? c p = some b) : bucketTarget c id d = some b := by
  rw [bucketTarget]
  split
  · next hd =>
    obtain ⟨hreach, hbucket⟩ := bucket?_eq_some_iff.mp hb
    exact bucket?_eq_some_iff.mpr ⟨hreach.head ⟨d, hget, hd, hp⟩, hbucket⟩
  · rw [hp, Option.bind_some, hb]

theorem bulk_stamps (hfound : containers.Perm (findContainers c)) :
    Stamps c (containers.filterMap (containerUpdate c)) (containerTarget c) where
  sound := by
    intro id d hget u hu happlies
    obtain ⟨r, hr, hupdate⟩ := List.mem_filterMap.mp hu
    rw [containerUpdate] at hupdate
    split at hupdate
    · obtain ⟨b, hb, rfl⟩ := Option.map_eq_some_iff.mp hupdate
      obtain ⟨d', hget', hd, -⟩ := mem_findContainers.mp (hfound.mem_iff.mp hr)
      obtain rfl : r.id = id := by
        simpa [Update.applies, Filter.matches] using (Bool.and_eq_true_iff.mp happlies).2
      obtain rfl := Option.some.inj (hget.symm.trans hget')
      rw [containerTarget, if_pos hd, hb]
    · cases hupdate
  complete := by
    intro id d hget habsent htarget
    rw [containerTarget] at htarget
    split at htarget
    · next hd =>
      obtain ⟨b, hb⟩ := Option.isSome_iff_exists.mp htarget
      refine ⟨⟨.byId id, b⟩, List.mem_filterMap.mpr ⟨⟨id, d.containerId, d.bucketId⟩,
        hfound.mem_iff.mpr (mem_findContainers.mpr ⟨d, hget, hd, rfl, rfl⟩), ?_⟩, ?_⟩
      · simp [containerUpdate, habsent, hb]
      · simp [Update.applies, Filter.matches, habsent]
    · cases htarget

/-- The updates of the second half, for all of the buckets. -/
structure ChildUpdates (c : Collection α ρ) (us : List (Update α)) : Prop where
  sound : ∀ u ∈ us, ∃ batch b, u = ⟨.childOf batch, b⟩ ∧ ∀ a ∈ batch, bucket? c a = some b
  complete : ∀ a b, bucket? c a = some b → ∃ batch, ⟨.childOf batch, b⟩ ∈ us ∧ a ∈ batch

/-- The buckets are taken one after the other, and what has been updated stays. -/
theorem stampBuckets_spec (hfound : containers.Perm (findContainers c))
    (h : Grouped ids c containers containers g) {batchSize : ℕ} (hbatch : 0 < batchSize)
    {fuel : ℕ} (hfuel : containers.length < fuel) {es : List (Text × List α)}
    (hes : es ⊆ g.byBucket.entries) (w : Writes α ρ) :
    ∃ us : List (Update α),
      es.foldlM (stampChildren ids fuel batchSize) w = some (us.foldl Writes.update w) ∧
      (∀ u ∈ us, ∃ batch b, u = ⟨.childOf batch, b⟩ ∧ ∀ a ∈ batch, bucket? c a = some b) ∧
      ∀ b, (ids.hex b, listed c containers b) ∈ es → ∀ a ∈ listed c containers b,
        ∃ batch, ⟨.childOf batch, b⟩ ∈ us ∧ a ∈ batch := by
  induction es generalizing w with
  | nil => exact ⟨[], rfl, by simp, by simp⟩
  | cons e es ih =>
    obtain ⟨he, hrest⟩ := List.cons_subset.mp hes
    obtain ⟨b, ht, hl⟩ := h.entry (t := e.1) (l := e.2) he
    obtain rfl : e = (ids.hex b, listed c containers b) := Prod.ext ht hl
    have hlength : (listed c containers b).length < fuel := by
      rw [listed, List.length_map]
      exact lt_of_le_of_lt (List.length_filter_le _ _) hfuel
    obtain ⟨us, hcovers, hstamp⟩ := stampChildren_spec ids hbatch b hlength w
    obtain ⟨us', hfold, hsound, hcomplete⟩ := ih hrest (us.foldl Writes.update w)
    refine ⟨us ++ us', ?_, ?_, ?_⟩
    · rw [List.foldlM_cons, hstamp, List.foldl_append]
      exact hfold
    · intro u hu
      rcases List.mem_append.mp hu with hu | hu
      · obtain ⟨batch, rfl, hsubset⟩ := hcovers.sound u hu
        exact ⟨batch, b, rfl, fun a ha => (mem_listed_iff hfound).mp (hsubset ha)⟩
      · exact hsound u hu
    · intro b' hb' a ha
      rcases List.mem_cons.mp hb' with heq | hb'
      · obtain rfl := ids.hex_injective (Prod.mk.inj heq).1
        obtain ⟨batch, hmem, hbatch⟩ := hcovers.complete a ha
        exact ⟨batch, List.mem_append_left _ hmem, hbatch⟩
      · obtain ⟨batch, hmem, hbatch⟩ := hcomplete b' hb' a ha
        exact ⟨batch, List.mem_append_right _ hmem, hbatch⟩

theorem exists_childUpdates (hfound : containers.Perm (findContainers c))
    (h : Grouped ids c containers containers g) {batchSize : ℕ} (hbatch : 0 < batchSize)
    {fuel : ℕ} (hfuel : containers.length < fuel) (w : Writes α ρ) :
    ∃ us, ChildUpdates c us ∧
      g.byBucket.entries.foldlM (stampChildren ids fuel batchSize) w =
        some (us.foldl Writes.update w) := by
  obtain ⟨us, hfold, hsound, hcomplete⟩ :=
    stampBuckets_spec hfound h hbatch hfuel (List.Subset.refl _) w
  exact ⟨us, ⟨hsound, fun a b hb => hcomplete b (h.exists_entry hfound hb) a
    ((mem_listed_iff hfound).mpr hb)⟩, hfold⟩

/-- The two halves together give every document the bucket it is in. -/
theorem pass_stamps (hfound : containers.Perm (findContainers c)) {us : List (Update α)}
    (h : ChildUpdates c us) :
    Stamps c (containers.filterMap (containerUpdate c) ++ us) (bucketTarget c) where
  sound := by
    intro id d hget u hu happlies
    rcases List.mem_append.mp hu with hu | hu
    · have htarget := (bulk_stamps hfound).sound id d hget u hu happlies
      rw [containerTarget] at htarget
      split at htarget
      · next hd => rw [bucketTarget, if_pos hd, htarget]
      · cases htarget
    · obtain ⟨batch, b, rfl, hbatch⟩ := h.sound u hu
      have hmatches := (Bool.and_eq_true_iff.mp happlies).2
      simp only [Filter.matches, Option.any_eq_true, decide_eq_true_eq] at hmatches
      obtain ⟨p, hp, hmem⟩ := hmatches
      exact bucketTarget_of_parent hget hp (hbatch p hmem)
  complete := by
    intro id d hget habsent htarget
    rw [bucketTarget] at htarget
    split at htarget
    · next hd =>
      obtain ⟨u, hu, happlies⟩ := (bulk_stamps hfound).complete id d hget habsent
        (by rwa [containerTarget, if_pos hd])
      exact ⟨u, List.mem_append_left _ hu, happlies⟩
    · obtain ⟨b, hb⟩ := Option.isSome_iff_exists.mp htarget
      obtain ⟨p, hp, hb⟩ := Option.bind_eq_some_iff.mp hb
      obtain ⟨batch, hmem, hbatch⟩ := h.complete p b hb
      refine ⟨_, List.mem_append_right _ hmem, ?_⟩
      simp [Update.applies, Filter.matches, habsent, hp, hbatch]

/-! ### The report -/

noncomputable def expectedReport (c : Collection α ρ) : Report where
  containersStamped :=
    c.entries.countP fun e => e.2.bucketId.isNone && (containerTarget c e.1 e.2).isSome
  objectsStamped := c.entries.countP fun e =>
    !e.2.isContainer && e.2.bucketId.isNone && (bucketTarget c e.1 e.2).isSome
  skippedContainers := c.entries.countP fun e => (bucket? c e.1).isNone && e.2.isContainer

omit [DecidableEq α] in
theorem countP_containers (hfound : containers.Perm (findContainers c))
    (p : ContainerDoc α → Bool) :
    containers.countP p = c.entries.countP fun e =>
      p ⟨e.1, e.2.containerId, e.2.bucketId⟩ && e.2.isContainer := by
  rw [hfound.countP_eq, findContainers, List.countP_map, List.countP_filter]
  rfl

theorem Grouped.length_bulk (h : Grouped ids c containers containers g)
    (hfound : containers.Perm (findContainers c)) :
    g.containerBulk.length = (expectedReport c).containersStamped := by
  rw [h.bulk, List.length_filterMap_eq_countP, countP_containers hfound]
  refine List.countP_congr fun e _ => ?_
  by_cases habsent : e.2.bucketId = none <;> cases hd : e.2.isContainer <;>
    simp [containerUpdate, containerTarget, habsent, hd]

theorem Grouped.skipped_eq (h : Grouped ids c containers containers g)
    (hfound : containers.Perm (findContainers c)) :
    g.skippedContainers = (expectedReport c).skippedContainers := by
  rw [h.skipped, countP_containers hfound]
  rfl

/-- One bucket at most has the container that a document is in. -/
theorem Grouped.countP_entries (h : Grouped ids c containers containers g)
    (hfound : containers.Perm (findContainers c)) (a : α) :
    g.byBucket.entries.countP (fun e => decide (a ∈ e.2)) =
      if (bucket? c a).isSome then 1 else 0 := by
  cases hb : bucket? c a with
  | none =>
    rw [Option.isSome_none, if_neg Bool.false_ne_true, List.countP_eq_zero]
    intro e he hmem
    obtain ⟨b, -, hl⟩ := h.entry (t := e.1) (l := e.2) he
    rw [hl, decide_eq_true_eq, mem_listed_iff hfound, hb] at hmem
    cases hmem
  | some b =>
    have hkey : ∀ e ∈ g.byBucket.entries,
        (decide (a ∈ e.2) = true ↔ (e.1 == ids.hex b) = true) := by
      intro e he
      obtain ⟨b', ht, hl⟩ := h.entry (t := e.1) (l := e.2) he
      rw [hl, decide_eq_true_eq, mem_listed_iff hfound, hb, ht, beq_iff_eq,
        ids.hex_injective.eq_iff, Option.some.injEq, eq_comm]
    have hmem : ids.hex b ∈ g.byBucket.keys := List.mem_map_of_mem (h.exists_entry hfound hb)
    rw [List.countP_congr hkey, Option.isSome_some, if_pos rfl]
    have hcount := List.count_eq_one_of_mem g.byBucket.nodup hmem
    rwa [List.count, List.countP_map] at hcount

theorem Grouped.sum_countChildren (h : Grouped ids c containers containers g)
    (hfound : containers.Perm (findContainers c)) :
    (g.byBucket.entries.map fun e => countChildren c e.2).sum =
      (expectedReport c).objectsStamped := by
  have hcomm := Tally.total_countP_comm (fun (e : Text × List α) (d : α × Document α ρ) =>
    !d.2.isContainer && (Filter.childOf e.2).matches d.1 d.2 && d.2.bucketId.isNone)
    g.byBucket.entries c.entries
  have hsum : (g.byBucket.entries.map fun e => countChildren c e.2).sum =
      Tally.total (fun e => countChildren c e.2) g.byBucket.entries := rfl
  rw [hsum]
  refine hcomm.trans (Eq.trans (Tally.total_congr fun d _ => ?_) (Tally.total_ite _ _))
  cases hd : d.2.isContainer with
  | true => simp
  | false =>
    cases habsent : d.2.bucketId with
    | some v => simp
    | none =>
      cases hp : d.2.containerId with
      | none => simp [Filter.matches, bucketTarget, hd, hp]
      | some p => simp [Filter.matches, bucketTarget, hd, hp, h.countP_entries hfound]

/-! ### The collection -/

theorem pass_docs (hfound : containers.Perm (findContainers c)) {us : List (Update α)}
    (h : ChildUpdates c us) :
    (us.foldl Writes.update
        ⟨((containers.filterMap (containerUpdate c)).foldl Writes.update ⟨c, 0⟩).docs, 0⟩).docs =
      mapDocuments (fun id d => d.fill (bucketTarget c id d)) c := by
  rw [docs_foldl_update, docs_foldl_update, mapDocuments_mapDocuments,
    ← (pass_stamps hfound h).mapDocuments_stampAll]
  refine mapDocuments_congr fun id d _ => ?_
  rw [stampAll, stampAll, stampAll, List.foldl_append]

theorem modifiedCount_containers (hfound : containers.Perm (findContainers c)) :
    ((containers.filterMap (containerUpdate c)).foldl Writes.update ⟨c, 0⟩).modifiedCount =
      (expectedReport c).containersStamped := by
  have hrun := lacking_foldl_update (containers.filterMap (containerUpdate c)) ⟨c, 0⟩
  have hfill := lacking_fill c (containerTarget c)
  rw [docs_foldl_update, (bulk_stamps hfound).mapDocuments_stampAll] at hrun
  simp only [expectedReport] at hrun hfill ⊢
  omega

theorem modifiedCount_children (hfound : containers.Perm (findContainers c))
    {us : List (Update α)} (h : ChildUpdates c us) :
    (us.foldl Writes.update ⟨((containers.filterMap (containerUpdate c)).foldl Writes.update
        ⟨c, 0⟩).docs, 0⟩).modifiedCount = (expectedReport c).objectsStamped := by
  have hchildren := lacking_foldl_update us
    ⟨((containers.filterMap (containerUpdate c)).foldl Writes.update ⟨c, 0⟩).docs, 0⟩
  have hcontainers := lacking_foldl_update (containers.filterMap (containerUpdate c)) ⟨c, 0⟩
  have hfill := lacking_fill c (bucketTarget c)
  have hmodified := modifiedCount_containers hfound
  rw [pass_docs hfound h] at hchildren
  have hsplit : (expectedReport c).containersStamped + (expectedReport c).objectsStamped =
      c.entries.countP fun e => e.2.bucketId.isNone && (bucketTarget c e.1 e.2).isSome := by
    refine Tally.countP_add_countP fun e _ => ?_
    cases hd : e.2.isContainer <;> cases e.2.bucketId <;>
      simp [containerTarget, bucketTarget, hd]
  dsimp only at hchildren hcontainers
  omega

/-! ## The result -/

/-- Its parent is not among the containers. -/
def Orphaned (c : Collection α ρ) (a : α) : Prop :=
  ∃ p, Up c a p ∧ ∀ d, c.get p = some d → d.isContainer = false

/-- In a cycle or below one, or an orphan or below one. -/
def Broken (c : Collection α ρ) (a : α) : Prop :=
  ∃ b, ReflTransGen (Up c) a b ∧ (OnCycle (Up c) b ∨ Orphaned c b)

def InBroken (c : Collection α ρ) (id : α) (d : Document α ρ) : Prop :=
  if d.isContainer then Broken c id else ∃ p, d.containerId = some p ∧ Broken c p

structure Backfilled (c c' : Collection α ρ) : Prop where
  keys : c'.keys = c.keys
  stamped : ∀ id d b, c.get id = some d → d.bucketId = none → BucketOf c id d b →
    c'.get id = some (d.stamp b)
  unstamped : ∀ id d, c.get id = some d → (∀ b, ¬BucketOf c id d b) → c'.get id = some d
  kept : ∀ id d, c.get id = some d → d.bucketId ≠ none → c'.get id = some d
  broken : ∀ id d, c.get id = some d → InBroken c id d → c'.get id = some d

theorem Broken.not_reaches {a b : α} (h : Broken c a) : ¬ReachesBucket c a b := by
  rintro ⟨hreach, hbucket⟩
  obtain ⟨x, hx, hbroken⟩ := h
  have hreach := (reaches_top_iff (up_unique c) hbucket.top hx).mp hreach
  rcases hbroken with hcycle | ⟨p, hp, hnone⟩
  · exact hcycle.not_reaches (up_unique c) hbucket.top hreach
  · rcases hreach.cases_head with rfl | ⟨p', hp', hreach⟩
    · exact hbucket.top p hp
    · obtain rfl := up_unique c hp hp'
      obtain ⟨d, hget, hd⟩ := exists_container_of_reaches ⟨hreach, hbucket⟩
      cases hd.symm.trans (hnone d hget)

theorem InBroken.not_bucketOf {id b : α} {d : Document α ρ} (h : InBroken c id d) :
    ¬BucketOf c id d b := by
  rw [InBroken] at h
  rw [BucketOf]
  split at h
  · next hd =>
    rw [if_pos hd]
    exact h.not_reaches
  · next hd =>
    rw [if_neg hd]
    rintro ⟨p, hp, hreach⟩
    obtain ⟨p', hp', hbroken⟩ := h
    obtain rfl := Option.some.inj (hp.symm.trans hp')
    exact hbroken.not_reaches hreach

theorem backfilled_fill (c : Collection α ρ) :
    Backfilled c (mapDocuments (fun id d => d.fill (bucketTarget c id d)) c) := by
  have hget : ∀ {id d}, c.get id = some d →
      (mapDocuments (fun id d => d.fill (bucketTarget c id d)) c).get id =
        some (d.fill (bucketTarget c id d)) := by
    intro id d hd
    rw [get_mapDocuments, hd, Option.map_some]
  have hunstamped : ∀ id d, c.get id = some d → (∀ b, ¬BucketOf c id d b) →
      (mapDocuments (fun id d => d.fill (bucketTarget c id d)) c).get id = some d := by
    intro id d hd hno
    have htarget : bucketTarget c id d = none :=
      Option.eq_none_iff_forall_ne_some.mpr fun b hb => hno b (bucketTarget_eq_some_iff.mp hb)
    rw [hget hd, htarget]
    cases hbucket : d.bucketId <;> simp [Document.fill, hbucket]
  refine ⟨?_, fun id d b hd habsent hb => ?_, hunstamped, fun id d hd hpresent => ?_,
    fun id d hd hbroken => hunstamped id d hd fun b => hbroken.not_bucketOf⟩
  · simp [mapDocuments, Table.keys]
  · rw [hget hd, bucketTarget_eq_some_iff.mpr hb]
    simp [Document.fill, habsent]
  · obtain ⟨v, hv⟩ := Option.ne_none_iff_exists'.mp hpresent
    rw [hget hd]
    simp [Document.fill, hv]

/-- The walks of earlier queries. -/
def resolveAll (parentOf : Table Text (Option Text)) (fuel : ℕ) (starts : List Text) :
    Option (BucketCache Text) :=
  starts.foldlM (fun cache start => (resolveBucket parentOf fuel start cache).map Prod.snd)
    Table.empty

/-- A query is answered as if it were the first. -/
def AnswersAlike (parentOf : Table Text (Option Text)) (fuel : ℕ) : Prop :=
  ∀ earlier start, ∃ cache bucket, resolveAll parentOf fuel earlier = some cache ∧
    (resolveBucket parentOf fuel start cache).map Prod.fst = some bucket ∧
    (resolveBucket parentOf fuel start Table.empty).map Prod.fst = some bucket

theorem resolveAll_spec {parentOf : Table Text (Option Text)} {fuel : ℕ}
    (hfuel : parentOf.size < fuel) (starts : List Text) {cache : BucketCache Text}
    (h : CacheSound parentOf cache) :
    ∃ cache', starts.foldlM
        (fun cache start => (resolveBucket parentOf fuel start cache).map Prod.snd) cache =
          some cache' ∧ CacheSound parentOf cache' := by
  induction starts generalizing cache with
  | nil => exact ⟨cache, rfl, h⟩
  | cons start starts ih =>
    obtain ⟨bucket, cache₁, hresolve, -, h₁⟩ := resolveBucket_spec hfuel start h
    obtain ⟨cache₂, hfold, h₂⟩ := ih h₁
    refine ⟨cache₂, ?_, h₂⟩
    rw [List.foldlM_cons, hresolve]
    exact hfold

theorem answersAlike {parentOf : Table Text (Option Text)} {fuel : ℕ}
    (hfuel : parentOf.size < fuel) : AnswersAlike parentOf fuel := by
  intro earlier start
  obtain ⟨cache, hcache, hsound⟩ := resolveAll_spec hfuel earlier cacheSound_empty
  obtain ⟨bucket, _, hresolve, hanswer, -⟩ := resolveBucket_spec hfuel start hsound
  obtain ⟨bucket', _, hfirst, hanswer', -⟩ := resolveBucket_spec hfuel start cacheSound_empty
  obtain rfl := hanswer.unique hanswer'
  exact ⟨cache, bucket, hcache, by rw [hresolve]; rfl, by rw [hfirst]; rfl⟩

variable (ids) in
theorem backfillBucketIds_eq {batchSize : Option ℕ} (hbatch : 0 < batchSize.getD 1000)
    (hfound : containers.Perm (findContainers c)) {fuel : ℕ} (hfuel : containers.length < fuel)
    (apply : Option Bool) :
    backfillBucketIds ids fuel ⟨apply, batchSize⟩ c containers =
      some (if apply = some false then c
        else mapDocuments (fun id d => d.fill (bucketTarget c id d)) c, expectedReport c) := by
  obtain ⟨g, hgroup, hgrouped⟩ := groupAll_spec hfound hfuel
  rw [backfillBucketIds, hgroup, Option.bind_some]
  by_cases hdry : apply = some false
  · simp only [hdry, if_true]
    rw [hgrouped.length_bulk hfound, hgrouped.skipped_eq hfound,
      hgrouped.sum_countChildren hfound]
  · have hbulk : g.containerBulk.length < fuel := by
      rw [hgrouped.bulk]
      exact lt_of_le_of_lt (List.length_filterMap_le _ _) hfuel
    obtain ⟨us, hchildren, hfold⟩ := exists_childUpdates hfound hgrouped hbatch hfuel
      ⟨(g.containerBulk.foldl Writes.update ⟨c, 0⟩).docs, 0⟩
    simp only [hdry, if_false]
    rw [stampContainers_spec hbatch c hbulk, Option.bind_some, hfold, Option.map_some,
      hgrouped.bulk, pass_docs hfound hchildren, modifiedCount_containers hfound,
      modifiedCount_children hfound hchildren, hgrouped.skipped_eq hfound]

end Pass

/-- Every document that lacks a bucket gets the container at the end of its chain of parents, and
no other is changed. The report and the collection are the same in whatever order the containers
are listed, and a dry run reports what would be written. -/
theorem backfillBucketIds_stamps {batchSize : Option ℕ} (hbatch : 0 < batchSize.getD 1000)
    (c : Collection α ρ) :
    ∃ c' report, Backfilled c c' ∧ ∀ containers, containers.Perm (findContainers c) →
      ∀ fuel, containers.length < fuel →
        (∀ apply, backfillBucketIds ids fuel ⟨apply, batchSize⟩ c containers =
          some (if apply = some false then c else c', report)) ∧
        AnswersAlike (parentMap ids containers) fuel :=
  ⟨_, expectedReport c, backfilled_fill c, fun _ hfound _ hfuel =>
    ⟨backfillBucketIds_eq ids hbatch hfound hfuel,
      answersAlike (lt_of_le_of_lt size_parentMap hfuel)⟩⟩

def unaryIds : ObjectIds ℕ where
  hex n := List.replicate (n + 1) 'a'
  ofText t := some (t.length - 1)
  ofText_hex n := by simp
  hex_ne_nil n := by simp

/-- A bucket with a container and two files, an orphan with a file, a cycle with a container
below it. -/
def legacyTree : Collection ℕ Unit :=
  Table.ofList [
    (1, ⟨some 0, true, none, ()⟩), (0, ⟨none, true, none, ()⟩),
    (2, ⟨some 1, false, none, ()⟩), (3, ⟨some 0, false, some none, ()⟩),
    (4, ⟨some 9, true, none, ()⟩), (5, ⟨some 4, false, none, ()⟩),
    (6, ⟨some 7, true, none, ()⟩), (7, ⟨some 6, true, none, ()⟩),
    (8, ⟨some 6, true, none, ()⟩)]

theorem backfillBucketIds_legacyTree : 0 < (none : Option ℕ).getD 1000 ∧
    ∃ c' report, Backfilled legacyTree c' ∧
      ∀ containers, containers.Perm (findContainers legacyTree) →
        ∀ fuel, containers.length < fuel →
          (∀ apply, backfillBucketIds unaryIds fuel ⟨apply, none⟩ legacyTree containers =
            some (if apply = some false then legacyTree else c', report)) ∧
          AnswersAlike (parentMap unaryIds containers) fuel := by
  have hbatch : 0 < (none : Option ℕ).getD 1000 := by decide
  exact ⟨hbatch, backfillBucketIds_stamps unaryIds hbatch legacyTree⟩

example : (backfillBucketIds unaryIds 7 ⟨none, none⟩ legacyTree (findContainers legacyTree)).map
    (fun r => (r.1.entries.map fun e => e.2.bucketId, r.2)) =
      some ([some (some 0), some (some 0), some (some 0), some none, none, none, none, none, none],
        ⟨2, 1, 4⟩) := by
  decide

end BucketBackfill
