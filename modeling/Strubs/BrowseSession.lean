import Strubs.CursorPaging
import Strubs.ObjectAuthz
import Strubs.StateMachine
import Mathlib.Data.Char
import Mathlib.Data.List.Lex

/-! # Browsing a folder

The admin page shows a folder a page at a time, while the operator clicks on and the collection
changes. The server walks the path anew for every page, with one lookup for each component, so
that a page may be answered from several states of the collection. An answer counts only if
no other page has been asked for when its headers arrive; whether one is asked for before its
body is there makes no difference any more. -/
namespace BrowseSession

open ContentRepository CursorPaging InsertionMap NamespaceRecord ObjectAuthz StateMachine

/-! ## The server -/

/-- An entry as it is sent, without its name. -/
structure BrowseEntry (α : Type*) where
  id : α
  isContainer : Bool
  isFile : Bool
  size : Value
  mime : Value
  deriving DecidableEq

abbrev Listing (α : Type*) := List (Text × BrowseEntry α)

variable {α : Type*}

/-- A value that is not there is sent as null. -/
def sent : Value → Value
  | .undefined => .null
  | v => v

def browseEntry (id : α) (d : Document α) : BrowseEntry α where
  id := id
  isContainer := d.isContainer
  isFile := d.isFile
  size := sent d.size
  mime := sent d.mime

variable [DecidableEq α]

def children (c : Collection α) (containerId : Option α) : Listing α :=
  c.entries.filterMap fun e =>
    match e.2.name with
    | .text name =>
      if e.2.containerId = containerId then some (name, browseEntry e.1 e.2) else none
    | _ => none

/-- One more is fetched, to know whether there is another page. -/
def listContainerEntries (c : Collection α) (containerId : Option α) (limit : Option ℕ)
    (after : Option Text) : Listing α × Bool :=
  let limit := min (max (limit.getD 200) 1) 1000
  let docs := page (limit + 1) after (children c containerId)
  (docs.take limit, limit < docs.length)

/-- Slashes before, behind and between the components do not count. -/
def components (path : Text) : List Text := (path.splitOn '/').filter (· ≠ [])

inductive Response (α : Type*) where
  | status (code : ℕ)
  | thrown (message : Text)
  | ok (entries : Listing α) (hasMore : Bool)

/-- How far `resolveContainerStrict` has come, or what was answered in the end. -/
inductive Progress (α : Type*) where
  | walking (containerId : Option α) (rest : List Text)
  | replied (response : Response α)

structure Call (α : Type*) where
  token : ℕ
  path : Text
  after : Option Text
  progress : Progress α
  accepted : Bool

def BROWSE_PAGE : ℕ := 500

/-- One read of `handleBrowseRequest`. -/
def Call.serve (c : Collection α) (r : Call α) : Call α :=
  match r.progress with
  | .replied _ => r
  | .walking containerId [] =>
    let listed := listContainerEntries c containerId (some BROWSE_PAGE) r.after
    { r with progress := .replied (.ok listed.1 listed.2) }
  | .walking containerId (name :: rest) =>
    match findOne c containerId name with
    | none => { r with progress := .replied (.status 404) }
    | some (id, d) =>
      if d.isContainer then { r with progress := .walking (some id) rest }
      else { r with progress := .replied (.status 404) }

/-! ## The page -/

/-- The history is not kept by the source: the collections there have been since the first
page was asked for. -/
structure State (α : Type*) where
  browsePath : Text
  browseEntries : Listing α
  browseHasMore : Bool
  browseLoading : Bool
  browseError : Option Text
  bucketError : Option Text
  browseRequest : ℕ
  starting : ℕ
  inFlight : List (Call α)
  collection : Collection α
  history : List (Collection α)

def ask (s : State α) (after : Option Text) : State α :=
  { s with
    browseRequest := s.browseRequest + 1
    browseLoading := true
    inFlight := s.inFlight ++
      [⟨s.browseRequest + 1, s.browsePath, after, .walking none (components s.browsePath),
        false⟩] }

def loadBrowse (s : State α) : State α :=
  if s.browsePath = [] then { s with browseEntries := [], browseHasMore := false }
  else ask { s with browseError := none, history := [s.collection] } none

def openPath (s : State α) (path : Text) : State α :=
  loadBrowse { s with bucketError := none, browsePath := path }

def onHashChange (s : State α) (path : Text) : State α :=
  if path = s.browsePath then s else loadBrowse { s with browsePath := path }

/-- The last name shown. An empty one is as good as none. -/
def cursor (entries : Listing α) : Option Text :=
  (entries.getLast?.map Prod.fst).filter (· ≠ [])

def loadMoreBrowse (s : State α) : State α :=
  if !s.browseHasMore || s.browseLoading then s
  else
    match cursor s.browseEntries with
    | none => s
    | some after => ask s (some after)

/-- The path is set at once, and loaded when the buckets have been fetched. -/
def startApp (s : State α) (path : Text) : State α :=
  { s with browsePath := path, starting := s.starting + 1 }

def bucketsFetched (s : State α) : State α :=
  let s := { s with starting := s.starting - 1 }
  if s.browsePath = [] then s else loadBrowse s

def httpError (code : ℕ) : Text := "HTTP ".toList ++ Nat.toDigits 10 code

/-- More of a folder that has been left is not wanted either. -/
def superseded (s : State α) (r : Call α) : Bool :=
  r.token ≠ s.browseRequest || (r.after ≠ none && r.path ≠ s.browsePath)

def settled (s : State α) (r : Call α) : State α :=
  if r.token = s.browseRequest then { s with browseLoading := false } else s

def failed (s : State α) (r : Call α) (message : Text) : State α :=
  if r.token ≠ s.browseRequest then s
  else
    { s with
      browseLoading := false
      browseError := some message
      browseEntries := if r.after = none then [] else s.browseEntries }

def gone (s : State α) (r : Call α) : State α :=
  { s with
    bucketError := some ("That path no longer exists: /".toList ++ r.path)
    browseEntries := []
    browsePath := [] }

def State.drop (s : State α) (n : ℕ) : State α := { s with inFlight := s.inFlight.eraseIdx n }

def Call.accept (r : Call α) : Call α := { r with accepted := true }

/-- Of a good answer the body is still to come. -/
def headers (s : State α) (n : ℕ) (r : Call α) : Response α → State α
  | .thrown message => (failed s r message).drop n
  | .status code =>
    if superseded s r then (settled s r).drop n
    else if code = 404 ∧ r.after = none then (settled (gone s r) r).drop n
    else (failed s r (httpError code)).drop n
  | .ok _ _ =>
    if superseded s r then (settled s r).drop n
    else { s with inFlight := s.inFlight.modify n Call.accept }

/-- It is shown without another look at the token. -/
def body (s : State α) (n : ℕ) (r : Call α) : Response α → State α
  | .thrown message => (failed s r message).drop n
  | .status code => (failed s r (httpError code)).drop n
  | .ok entries hasMore =>
    let s := { s with
      browseEntries := if r.after = none then entries else s.browseEntries ++ entries
      browseHasMore := hasMore }
    (settled s r).drop n

/-! ## Runs -/

inductive Event (α : Type*) where
  | openPath (path : Text)
  | onHashChange (path : Text)
  | loadMoreBrowse
  | startApp (path : Text)
  | bucketsFetched
  | serve (n : ℕ)
  | fail (n : ℕ) (response : Response α)
  | headers (n : ℕ)
  | body (n : ℕ)
  | change (c : Collection α)

def isText : Value → Bool
  | .text _ => true
  | _ => false

/-- What may become of an answer, and of one that was good as far as its headers go. -/
def Response.isError (accepted : Bool) : Response α → Bool
  | .ok _ _ => false
  | .status _ => !accepted
  | .thrown _ => true

/-- What the unique index over the parent and the name allows, of documents that have names. -/
def Indexed (c : Collection α) : Prop :=
  (∀ e ∈ c.entries, isText e.2.name) ∧ c.entries.Pairwise fun a b =>
    ¬(a.2.containerId = b.2.containerId ∧ a.2.name = b.2.name)

instance (c : Collection α) : Decidable (Indexed c) := by
  unfold Indexed
  infer_instance

def Progress.reply : Progress α → Option (Response α)
  | .walking _ _ => none
  | .replied response => some response

def replyOf (s : State α) (n : ℕ) : Option (Call α × Response α) :=
  s.inFlight[n]?.bind fun r => r.progress.reply.map fun response => (r, response)

/-- The button for more is part of a folder's view. -/
def Enabled (s : State α) : Event α → Prop
  | .openPath _ | .onHashChange _ | .startApp _ => True
  | .loadMoreBrowse => s.browsePath ≠ []
  | .bucketsFetched => 0 < s.starting
  | .serve n => n < s.inFlight.length
  | .fail n response => s.inFlight[n]?.any fun r => response.isError r.accepted
  | .headers n => (replyOf s n).any fun reply => !reply.1.accepted
  | .body n => (replyOf s n).any fun reply => reply.1.accepted
  | .change c => Indexed c

instance (s : State α) (e : Event α) : Decidable (Enabled s e) := by
  cases e <;> simp only [Enabled] <;> infer_instance

def next (s : State α) : Event α → State α
  | .openPath path => openPath s path
  | .onHashChange path => onHashChange s path
  | .loadMoreBrowse => loadMoreBrowse s
  | .startApp path => startApp s path
  | .bucketsFetched => bucketsFetched s
  | .serve n => { s with inFlight := s.inFlight.modify n (Call.serve s.collection) }
  | .fail n response =>
    { s with inFlight := s.inFlight.modify n fun r => { r with progress := .replied response } }
  | .headers n =>
    match replyOf s n with
    | none => s
    | some (r, response) => headers s n r response
  | .body n =>
    match replyOf s n with
    | none => s
    | some (r, response) => body s n r response
  | .change c => { s with collection := c, history := s.history ++ [c] }

structure Initial (s : State α) : Prop where
  browsePath : s.browsePath = []
  browseRequest : s.browseRequest = 0
  inFlight : s.inFlight = []
  history : s.history = [s.collection]
  indexed : Indexed s.collection

def machine : Machine (State α) (Event α) := ⟨Initial, Enabled, next⟩

instance (s : State α) (e : Event α) : Decidable (machine.Enabled s e) :=
  inferInstanceAs (Decidable (Enabled s e))

/-- The page asks for a folder. -/
def loads (s : State α) : Event α → Prop
  | .openPath path => path ≠ []
  | .onHashChange path => path ≠ [] ∧ path ≠ s.browsePath
  | .bucketsFetched => s.browsePath ≠ []
  | _ => False

instance (s : State α) (e : Event α) : Decidable (loads s e) := by
  cases e <;> simp only [loads] <;> infer_instance

/-- No folder is asked for while the body of an answer is on its way. -/
def Careful (s : State α) (e : Event α) : Prop :=
  loads s e → ∀ r ∈ s.inFlight, r.accepted = false

instance (s : State α) (e : Event α) : Decidable (Careful s e) := by
  unfold Careful
  infer_instance

def carefulMachine : Machine (State α) (Event α) where
  Initial := Initial
  Enabled s e := machine.Enabled s e ∧ Careful s e
  next := next

instance (s : State α) (e : Event α) : Decidable (carefulMachine.Enabled s e) :=
  inferInstanceAs (Decidable (machine.Enabled s e ∧ Careful s e))

/-! ## What a folder holds over a stretch of history -/

/-- A walk each of whose lookups was right at some time. -/
def Led (history : List (Collection α)) : Option α → List Text → Option α → Prop
  | parent, [], id => parent = id
  | parent, name :: rest, id => ∃ c ∈ history, ∃ k d,
      findOne c parent name = some (k, d) ∧ d.isContainer ∧ Led history (some k) rest id

/-- A walk whose lookups would all have been right at any time. -/
def Held (history : List (Collection α)) : Option α → List Text → Option α → Prop
  | parent, [], id => parent = id
  | parent, name :: rest, id => ∃ k, (∀ c ∈ history, ∃ d,
      findOne c parent name = some (k, d) ∧ d.isContainer) ∧ Held history (some k) rest id

/-- The name is in the folder all the time, and the folder is the same all the time. -/
def Kept (history : List (Collection α)) (path name : Text) : Prop :=
  ∃ id, Held history none (components path) id ∧
    ∀ c ∈ history, name ∈ (children c id).map Prod.fst

/-- The entry was in a folder to which the path led. -/
def Listed (history : List (Collection α)) (path : Text) (e : Text × BrowseEntry α) : Prop :=
  ∃ id, Led history none (components path) id ∧ ∃ c ∈ history, e ∈ children c id

/-- What the page shows of the folder, in which `partly` says that there may be more. -/
structure Shows (history : List (Collection α)) (path : Text) (entries : Listing α)
    (partly : Prop) : Prop where
  ascending : entries.Pairwise fun a b => a.1 < b.1
  listed : ∀ e ∈ entries, Listed history path e
  kept : ∀ name, Kept history path name → name ∈ entries.map Prod.fst ∨
    partly ∧ ∀ e ∈ entries, e.1 < name

section Histories

variable {history history' : List (Collection α)} {path : Text} {entries shown : Listing α}
  {parent id : Option α} {names rest : List Text}

theorem led_mono (hsub : history ⊆ history') (h : Led history parent names id) :
    Led history' parent names id := by
  induction names generalizing parent with
  | nil => exact h
  | cons name names ih =>
    obtain ⟨c, hc, k, d, hfind, hcontainer, hrest⟩ := h
    exact ⟨c, hsub hc, k, d, hfind, hcontainer, ih hrest⟩

theorem held_anti (hsub : history ⊆ history') (h : Held history' parent names id) :
    Held history parent names id := by
  induction names generalizing parent with
  | nil => exact h
  | cons name names ih =>
    obtain ⟨k, hall, hrest⟩ := h
    exact ⟨k, fun c hc => hall c (hsub hc), ih hrest⟩

theorem led_append {mid : Option α} (h : Led history parent names mid)
    (hrest : Led history mid rest id) : Led history parent (names ++ rest) id := by
  induction names generalizing parent with
  | nil =>
    subst h
    exact hrest
  | cons name names ih =>
    obtain ⟨c, hc, k, d, hfind, hcontainer, htail⟩ := h
    exact ⟨c, hc, k, d, hfind, hcontainer, ih htail⟩

theorem held_append (h : Held history parent (names ++ rest) id) :
    ∃ mid, Held history parent names mid ∧ Held history mid rest id := by
  induction names generalizing parent with
  | nil => exact ⟨parent, rfl, h⟩
  | cons name names ih =>
    obtain ⟨k, hall, htail⟩ := h
    obtain ⟨mid, hmid, hlast⟩ := ih htail
    exact ⟨mid, ⟨k, hall, hmid⟩, hlast⟩

/-- The walk has come to `id`, which is where a walk that is right all the time comes. -/
def Walked (history : List (Collection α)) (path : Text) (id : Option α) (rest : List Text) :
    Prop :=
  ∃ done, components path = done ++ rest ∧ Led history none done id ∧
    ∀ k, Held history none done k → k = id

theorem walked_start (history : List (Collection α)) (path : Text) :
    Walked history path none (components path) :=
  ⟨[], rfl, rfl, fun _ h => h.symm⟩

theorem walked_mono (hsub : history ⊆ history') (h : Walked history path id rest) :
    Walked history' path id rest := by
  obtain ⟨done, hpath, hled, hheld⟩ := h
  exact ⟨done, hpath, led_mono hsub hled, fun k hk => hheld k (held_anti hsub hk)⟩

theorem walked_step {c : Collection α} {name : Text} {k : α} {d : Document α}
    (h : Walked history path id (name :: rest)) (hc : c ∈ history)
    (hfind : findOne c id name = some (k, d)) (hd : d.isContainer) :
    Walked history path (some k) rest := by
  obtain ⟨done, hpath, hled, hheld⟩ := h
  refine ⟨done ++ [name], by simp [hpath], ?_, ?_⟩
  · exact led_append hled ⟨c, hc, k, d, hfind, hd, rfl⟩
  · intro k' hk'
    obtain ⟨mid, hmid, k'', hall, hlast⟩ := held_append hk'
    obtain ⟨d', hfind', -⟩ := hall c hc
    rw [hheld mid hmid, hfind] at hfind'
    cases hfind'
    exact hlast.symm

/-- A page that was listed, in some state, where the walk had come to. -/
def PageOf (history : List (Collection α)) (path : Text) (after : Option Text)
    (page : Listing α) (hasMore : Bool) : Prop :=
  ∃ id, Walked history path id [] ∧ ∃ c ∈ history,
    listContainerEntries c id (some BROWSE_PAGE) after = (page, hasMore)

theorem children_nodup {c : Collection α} (hc : Indexed c) (containerId : Option α) :
    ((children c containerId).map Prod.fst).Nodup := by
  rw [List.Nodup, List.pairwise_map, children, List.pairwise_filterMap]
  refine hc.2.imp fun {a b} hne x hx y hy heq => hne ?_
  have hfrom : ∀ {e : α × Document α} {z : Text × BrowseEntry α},
      (match e.2.name with
        | .text name =>
          if e.2.containerId = containerId then some (name, browseEntry e.1 e.2) else none
        | _ => none) = some z → e.2.containerId = containerId ∧ e.2.name = .text z.1 := by
    intro e z hz
    split at hz
    · next name hname =>
      by_cases hcontainer : e.2.containerId = containerId
      · rw [if_pos hcontainer, Option.some.injEq] at hz
        subst hz
        exact ⟨hcontainer, hname⟩
      · rw [if_neg hcontainer] at hz
        cases hz
    · cases hz
  obtain ⟨hacontainer, haname⟩ := hfrom hx
  obtain ⟨hbcontainer, hbname⟩ := hfrom hy
  exact ⟨hacontainer.trans hbcontainer.symm, by rw [haname, hbname, heq]⟩

/-- What is sent is a page of the listing, and whether the listing goes on behind it. -/
theorem listContainerEntries_eq (c : Collection α) (containerId : Option α)
    (after : Option Text) :
    listContainerEntries c containerId (some BROWSE_PAGE) after =
      (page BROWSE_PAGE after (children c containerId),
        decide (BROWSE_PAGE < (behind after (children c containerId)).length)) := by
  have hlimit : min (max ((some BROWSE_PAGE).getD 200) 1) 1000 = BROWSE_PAGE := by decide
  have hpos : BROWSE_PAGE ≠ 0 := by decide
  simp only [listContainerEntries, hlimit, page, hpos, if_false, Nat.succ_ne_zero,
    List.take_take, List.length_take, Prod.mk.injEq]
  constructor
  · rw [min_eq_left (Nat.le_succ _)]
  · rw [decide_eq_decide]
    omega

theorem shows_nil (history : List (Collection α)) (path : Text) {partly : Prop} (h : partly) :
    Shows history path [] partly :=
  ⟨List.Pairwise.nil, by simp, fun _ _ => .inr ⟨h, by simp⟩⟩

theorem Shows.mono {partly partly' : Prop} (h : Shows history path entries partly)
    (hsub : history ⊆ history') (hpartly : partly → partly') :
    Shows history' path entries partly' := by
  refine ⟨h.ascending, fun e he => ?_, fun name hname => ?_⟩
  · obtain ⟨id, hled, c, hc, hmem⟩ := h.listed e he
    exact ⟨id, led_mono hsub hled, c, hsub hc, hmem⟩
  · obtain ⟨id, hheld, hall⟩ := hname
    rcases h.kept name ⟨id, held_anti hsub hheld, fun c hc => hall c (hsub hc)⟩ with hmem | hmore
    · exact .inl hmem
    · exact .inr ⟨hpartly hmore.1, hmore.2⟩

omit [DecidableEq α] in
/-- What is behind the last name is behind all of them. -/
theorem le_cursor {after : Text} (hup : entries.Pairwise fun a b => a.1 < b.1)
    (hcursor : cursor entries = some after) {e : Text × BrowseEntry α} (he : e ∈ entries) :
    e.1 ≤ after := by
  have hne : entries ≠ [] := List.ne_nil_of_mem he
  rw [cursor, List.getLast?_eq_some_getLast hne, Option.map_some, Option.filter_eq_some_iff,
    Option.some.injEq] at hcursor
  rw [← hcursor.1]
  exact le_getLast hup hne he

/-- The next page goes behind what is shown. -/
theorem Shows.append {partly : Prop} {after : Option Text} {hasMore : Bool}
    (h : Shows history path entries partly) (hindexed : ∀ c ∈ history, Indexed c)
    (hafter : (after = none ∧ entries = []) ∨ (after ≠ none ∧ cursor entries = after))
    (hpage : PageOf history path after shown hasMore) :
    Shows history path (entries ++ shown) (hasMore = true) := by
  obtain ⟨id, ⟨done, hpath, hled, hheld⟩, c, hc, hlisted⟩ := hpage
  rw [List.append_nil] at hpath
  rw [listContainerEntries_eq, Prod.mk.injEq] at hlisted
  obtain ⟨rfl, rfl⟩ := hlisted
  have hnodup := children_nodup (hindexed c hc) id
  have hbelow : ∀ {name : Text}, (∀ a ∈ after, a < name) → ∀ e ∈ entries, e.1 < name := by
    intro name hname e he
    rcases hafter with ⟨-, rfl⟩ | ⟨hsome, hcursor⟩
    · cases he
    · obtain ⟨a, rfl⟩ := Option.ne_none_iff_exists'.mp hsome
      exact lt_of_le_of_lt (le_cursor h.ascending hcursor he) (hname a rfl)
  constructor
  · rw [List.pairwise_append]
    refine ⟨h.ascending, ?_, fun e he e' he' => ?_⟩
    · exact (behind_keys after hnodup).sublist (page_sublist _ _ _)
    · exact hbelow (cursor_lt_of_mem_page he') e he
  · intro e he
    rcases List.mem_append.mp he with he | he
    · exact h.listed e he
    · exact ⟨id, hpath ▸ hled, c, hc, (mem_page he).1⟩
  · intro name hname
    obtain ⟨k, hk, hall⟩ := hname
    have hid : k = id := hheld k (hpath ▸ hk)
    subst hid
    rw [List.map_append, List.mem_append]
    by_cases hmem : name ∈ entries.map Prod.fst
    · exact .inl (.inl hmem)
    · obtain ⟨e, he, rfl⟩ := List.mem_map.mp (hall c hc)
      have hbehind : ∀ a ∈ after, a < e.1 := by
        rintro a rfl
        rcases hafter with ⟨hnone, -⟩ | ⟨-, hcursor⟩
        · cases hnone
        · have hlast : ∃ l ∈ entries, l.1 = a := by
            rw [cursor, Option.filter_eq_some_iff, Option.map_eq_some_iff] at hcursor
            obtain ⟨⟨l, hl, hla⟩, -⟩ := hcursor
            exact ⟨l, List.mem_of_getLast? hl, hla⟩
          obtain ⟨l, hl, rfl⟩ := hlast
          rcases h.kept e.1 ⟨k, hk, hall⟩ with hshown | ⟨-, hlt⟩
          · exact absurd hshown hmem
          · exact hlt l hl
      have hpos : BROWSE_PAGE ≠ 0 := by decide
      rcases page_or_more hpos hnodup he hbehind with hpage | ⟨hmore, hlt⟩
      · exact .inl (.inr (List.mem_map_of_mem hpage))
      · refine .inr ⟨decide_eq_true hmore, fun e' he' => ?_⟩
        rcases List.mem_append.mp he' with he' | he'
        · exact hbelow hbehind e' he'
        · exact hlt e' he'

end Histories

/-! ## The calls -/

/-- What has been read for the newest call is what the history says. -/
def Answerable (history : List (Collection α)) (r : Call α) : Prop :=
  match r.progress with
  | .walking id rest => Walked history r.path id rest
  | .replied (.ok entries hasMore) => PageOf history r.path r.after entries hasMore
  | .replied _ => True

theorem pageOf_mono {history history' : List (Collection α)} {path : Text}
    {after : Option Text} {shown : Listing α} {hasMore : Bool} (hsub : history ⊆ history')
    (h : PageOf history path after shown hasMore) : PageOf history' path after shown hasMore := by
  obtain ⟨id, hwalked, c, hc, hlisted⟩ := h
  exact ⟨id, walked_mono hsub hwalked, c, hsub hc, hlisted⟩

theorem answerable_mono {history history' : List (Collection α)} {r : Call α}
    (hsub : history ⊆ history') (h : Answerable history r) : Answerable history' r := by
  rw [Answerable] at h ⊢
  split at h
  · exact walked_mono hsub h
  · exact pageOf_mono hsub h
  · trivial

theorem answerable_error {history : List (Collection α)} {r : Call α} {response : Response α}
    {accepted : Bool} (h : response.isError accepted) :
    Answerable history { r with progress := .replied response } := by
  cases response with
  | status code => trivial
  | thrown message => trivial
  | ok entries hasMore => cases h

/-- Nothing of a call but its progress changes, and that according to the state it is read
from. -/
theorem serve_spec (c : Collection α) (r : Call α) :
    (r.serve c).token = r.token ∧ (r.serve c).path = r.path ∧ (r.serve c).after = r.after ∧
      (r.serve c).accepted = r.accepted ∧ ∀ history, c ∈ history →
        Answerable history r → Answerable history (r.serve c) := by
  obtain ⟨token, path, after, progress, accepted⟩ := r
  cases progress with
  | replied response => exact ⟨rfl, rfl, rfl, rfl, fun _ _ h => h⟩
  | walking id rest =>
    cases rest with
    | nil => exact ⟨rfl, rfl, rfl, rfl, fun _ hc h => ⟨id, h, c, hc, rfl⟩⟩
    | cons name rest =>
      cases hfind : findOne c id name with
      | none =>
        simp only [Call.serve, hfind]
        exact ⟨trivial, trivial, trivial, trivial, fun _ _ _ => trivial⟩
      | some e =>
        obtain ⟨k, d⟩ := e
        by_cases hd : d.isContainer
        · simp only [Call.serve, hfind, hd, if_true]
          exact ⟨trivial, trivial, trivial, trivial, fun _ hc h => walked_step h hc hfind hd⟩
        · simp only [Call.serve, hfind, hd]
          exact ⟨rfl, rfl, rfl, rfl, fun _ _ _ => trivial⟩

/-- What does not depend on where the page is. -/
structure Calls (s : State α) : Prop where
  indexed : ∀ c ∈ s.history, Indexed c
  current : s.collection ∈ s.history
  sorted : (s.inFlight.map Call.token).Pairwise (· < ·)
  tokens : ∀ r ∈ s.inFlight, r.token ≤ s.browseRequest
  idle : s.browseLoading = false → ∀ r ∈ s.inFlight, r.token ≠ s.browseRequest
  answerable : ∀ r ∈ s.inFlight, r.token = s.browseRequest → Answerable s.history r
  accepted : ∀ r ∈ s.inFlight, r.accepted → r.token = s.browseRequest

/-- The newest call is for the path, and to be shown behind what is shown, unless the operator
has left the folder or the page starts anew. -/
structure Invariant (s : State α) : Prop extends Calls s where
  path : ∀ r ∈ s.inFlight, r.token = s.browseRequest →
    s.browsePath = [] ∨ 0 < s.starting ∨ r.path = s.browsePath
  behind : ∀ r ∈ s.inFlight, r.token = s.browseRequest → r.after ≠ none →
    s.browsePath ≠ [] → s.starting = 0 → cursor s.browseEntries = r.after
  shows : s.browsePath ≠ [] → s.starting = 0 →
    (∀ r ∈ s.inFlight, r.token = s.browseRequest → r.after ≠ none) →
    Shows s.history s.browsePath s.browseEntries
      (s.browseHasMore = true ∨ s.browseError.isSome)

section Steps

variable {s s' : State α} {r : Call α} {n : ℕ}

/-- The path and what is shown do not matter to the calls. -/
theorem Calls.congr (h : Calls s) (hhistory : s'.history = s.history)
    (hcollection : s'.collection = s.collection) (hflight : s'.inFlight = s.inFlight)
    (hrequest : s'.browseRequest = s.browseRequest)
    (hloading : s'.browseLoading = s.browseLoading) : Calls s' := by
  constructor
  · rw [hhistory]
    exact h.indexed
  · rw [hhistory, hcollection]
    exact h.current
  · rw [hflight]
    exact h.sorted
  · rw [hflight, hrequest]
    exact h.tokens
  · rw [hflight, hrequest, hloading]
    exact h.idle
  · rw [hhistory, hflight, hrequest]
    exact h.answerable
  · rw [hflight, hrequest]
    exact h.accepted

theorem Calls.nodup (h : Calls s) : (s.inFlight.map Call.token).Nodup :=
  h.sorted.imp fun hlt => hlt.ne

theorem invariant_initial (h : Initial s) : Invariant s := by
  have hnone : ∀ r, r ∉ s.inFlight := by simp [h.inFlight]
  refine ⟨⟨?_, ?_, ?_, fun r hr => absurd hr (hnone r), fun _ r hr => absurd hr (hnone r),
    fun r hr => absurd hr (hnone r), fun r hr => absurd hr (hnone r)⟩,
    fun r hr => absurd hr (hnone r),
    fun r hr => absurd hr (hnone r), fun hpath => absurd h.browsePath hpath⟩
  · intro c hc
    rw [h.history, List.mem_singleton] at hc
    exact hc ▸ h.indexed
  · rw [h.history]
    exact List.mem_singleton_self _
  · rw [h.inFlight]
    exact List.Pairwise.nil

/-- The call that is made takes the newest token. -/
theorem invariant_ask {after : Option Text} (hindexed : ∀ c ∈ s.history, Indexed c)
    (hcurrent : s.collection ∈ s.history) (hsorted : (s.inFlight.map Call.token).Pairwise (· < ·))
    (htokens : ∀ r ∈ s.inFlight, r.token ≤ s.browseRequest)
    (hnone : ∀ r ∈ s.inFlight, r.accepted = false)
    (hafter : after ≠ none → cursor s.browseEntries = after ∧
      (s.browsePath ≠ [] → s.starting = 0 → Shows s.history s.browsePath s.browseEntries
        (s.browseHasMore = true ∨ s.browseError.isSome))) : Invariant (ask s after) := by
  have hnew : ∀ r ∈ (ask s after).inFlight, r.token = (ask s after).browseRequest →
      r = ⟨s.browseRequest + 1, s.browsePath, after, .walking none (components s.browsePath),
        false⟩ := by
    intro r hr htoken
    rcases List.mem_append.mp hr with hr | hr
    · have := htokens r hr
      simp only [ask] at htoken
      omega
    · exact List.mem_singleton.mp hr
  refine ⟨⟨hindexed, hcurrent, ?_, ?_, fun hidle => ?_, ?_, fun r hr haccepted => ?_⟩, ?_, ?_,
    fun hpath hstart hmore => ?_⟩
  · simp only [ask, List.map_append, List.map_cons, List.map_nil]
    rw [List.pairwise_append]
    refine ⟨hsorted, List.pairwise_singleton _ _, fun a ha b hb => ?_⟩
    obtain ⟨r, hr, rfl⟩ := List.mem_map.mp ha
    rw [List.mem_singleton] at hb
    have := htokens r hr
    omega
  · intro r hr
    rcases List.mem_append.mp hr with hr | hr
    · exact Nat.le_succ_of_le (htokens r hr)
    · rw [List.mem_singleton.mp hr]
      exact le_rfl
  · cases hidle
  · intro r hr htoken
    rw [hnew r hr htoken]
    exact walked_start _ _
  · rcases List.mem_append.mp hr with hr | hr
    · exact absurd (haccepted.symm.trans (hnone r hr)) (by decide)
    · rw [List.mem_singleton.mp hr] at haccepted
      cases haccepted
  · intro r hr htoken
    rw [hnew r hr htoken]
    exact .inr (.inr rfl)
  · intro r hr htoken hsome _ _
    rw [hnew r hr htoken] at hsome ⊢
    exact (hafter hsome).1
  · have hsome : after ≠ none := by
      apply hmore _ (List.mem_append_right _ (List.mem_singleton_self _))
      rfl
    exact (hafter hsome).2 hpath hstart

theorem invariant_loadBrowse (h : Calls s)
    (hnone : s.browsePath ≠ [] → ∀ r ∈ s.inFlight, r.accepted = false) :
    Invariant (loadBrowse s) := by
  rw [loadBrowse]
  by_cases hpath : s.browsePath = []
  · rw [if_pos hpath]
    exact ⟨h.congr rfl rfl rfl rfl rfl, fun _ _ _ => .inl hpath,
      fun _ _ _ _ hne => absurd hpath hne, fun hne => absurd hpath hne⟩
  · rw [if_neg hpath]
    refine invariant_ask ?_ (List.mem_singleton_self _) h.sorted h.tokens (hnone hpath)
      (absurd rfl)
    intro c hc
    rw [List.mem_singleton.mp hc]
    exact h.indexed _ h.current

theorem invariant_loadMore (h : Invariant s) : Invariant (loadMoreBrowse s) := by
  rw [loadMoreBrowse]
  split
  · exact h
  · next hbusy =>
    cases hcursor : cursor s.browseEntries with
    | none => exact h
    | some after =>
      have hidle : s.browseLoading = false := by
        cases hloading : s.browseLoading with
        | false => rfl
        | true => simp [hloading] at hbusy
      have hnone : ∀ r ∈ s.inFlight, r.accepted = false := by
        intro r hr
        rw [← Bool.not_eq_true]
        exact fun haccepted => h.idle hidle r hr (h.accepted r hr haccepted)
      refine invariant_ask h.indexed h.current h.sorted h.tokens hnone fun _ =>
        ⟨hcursor, fun hpath hstart => ?_⟩
      exact h.shows hpath hstart fun r hr htoken => absurd htoken (h.idle hidle r hr)

/-- A call goes on, and is still the same call. -/
theorem invariant_modify {f : Call α → Call α} (h : Invariant s)
    (hf : ∀ r, (f r).token = r.token ∧ (f r).path = r.path ∧ (f r).after = r.after ∧
      (Answerable s.history r → Answerable s.history (f r)))
    (haccepted : ∀ r, s.inFlight[n]? = some r → (f r).accepted → r.token = s.browseRequest) :
    Invariant { s with inFlight := s.inFlight.modify n f } := by
  have hfrom : ∀ r ∈ s.inFlight.modify n f, ∃ r₀ ∈ s.inFlight, r.token = r₀.token ∧
      r.path = r₀.path ∧ r.after = r₀.after ∧
      (Answerable s.history r₀ → Answerable s.history r) ∧
      (r.accepted → r.token = s.browseRequest) := by
    intro r hr
    obtain ⟨k, hk⟩ := List.mem_iff_getElem?.mp hr
    rcases getElem?_modify_iff.mp hk with ⟨-, hk⟩ | ⟨rfl, r₀, hk₀, rfl⟩
    · have hmem := List.mem_of_getElem? hk
      exact ⟨r, hmem, rfl, rfl, rfl, fun h => h, h.accepted r hmem⟩
    · obtain ⟨htoken, hpath, hafter, hans⟩ := hf r₀
      exact ⟨r₀, List.mem_of_getElem? hk₀, htoken, hpath, hafter, hans, fun hnow =>
        htoken.trans (haccepted r₀ hk₀ hnow)⟩
  have htoken : (s.inFlight.modify n f).map Call.token = s.inFlight.map Call.token := by
    rw [← List.filterMap_eq_map]
    exact filterMap_modify fun r => congrArg some (hf r).1
  refine ⟨⟨h.indexed, h.current, htoken ▸ h.sorted, ?_, fun hidle r hr => ?_, ?_, ?_⟩, ?_, ?_,
    fun hpath hstart hmore => ?_⟩
  · intro r hr
    obtain ⟨r₀, hr₀, ht, -⟩ := hfrom r hr
    exact ht ▸ h.tokens r₀ hr₀
  · obtain ⟨r₀, hr₀, ht, -⟩ := hfrom r hr
    exact ht ▸ h.idle hidle r₀ hr₀
  · intro r hr hnow
    obtain ⟨r₀, hr₀, ht, -, -, hans, -⟩ := hfrom r hr
    exact hans (h.answerable r₀ hr₀ (ht ▸ hnow))
  · intro r hr
    obtain ⟨-, -, -, -, -, -, hnow⟩ := hfrom r hr
    exact hnow
  · intro r hr hnow
    obtain ⟨r₀, hr₀, ht, hp, -⟩ := hfrom r hr
    rw [hp]
    exact h.path r₀ hr₀ (ht ▸ hnow)
  · intro r hr hnow hsome hpath hstart
    obtain ⟨r₀, hr₀, ht, -, ha, -⟩ := hfrom r hr
    rw [ha] at hsome ⊢
    exact h.behind r₀ hr₀ (ht ▸ hnow) hsome hpath hstart
  · apply h.shows hpath hstart
    intro r₀ hr₀ hnow
    obtain ⟨k, hk⟩ := List.mem_iff_getElem?.mp hr₀
    by_cases hkn : k = n
    · have hmem : f r₀ ∈ s.inFlight.modify n f :=
        List.mem_of_getElem? (getElem?_modify_iff.mpr (.inr ⟨hkn, r₀, hk, rfl⟩))
      have := hmore (f r₀) hmem ((hf r₀).1.trans hnow)
      rwa [(hf r₀).2.2.1] at this
    · exact hmore r₀ (List.mem_of_getElem? (getElem?_modify_iff.mpr (.inl ⟨hkn, hk⟩))) hnow

theorem invariant_change {c : Collection α} (h : Invariant s) (hc : Indexed c) :
    Invariant { s with collection := c, history := s.history ++ [c] } := by
  have hsub : s.history ⊆ s.history ++ [c] := List.subset_append_left _ _
  refine ⟨⟨?_, ?_, h.sorted, h.tokens, h.idle, ?_, h.accepted⟩, h.path, h.behind,
    fun hpath hstart hmore => (h.shows hpath hstart hmore).mono hsub fun h => h⟩
  · intro c' hc'
    rcases List.mem_append.mp hc' with hc' | hc'
    · exact h.indexed c' hc'
    · rw [List.mem_singleton.mp hc']
      exact hc
  · exact List.mem_append_right _ (List.mem_singleton_self _)
  · intro r hr hnow
    exact answerable_mono hsub (h.answerable r hr hnow)

/-- A call whose answer is there is in its place, and no other one has its token. -/
theorem replyOf_spec {response : Response α} (h : Calls s)
    (hreply : replyOf s n = some (r, response)) :
    s.inFlight[n]? = some r ∧ r.progress = .replied response ∧
      ∀ r' ∈ s.inFlight.eraseIdx n, r' ∈ s.inFlight ∧ r'.token ≠ r.token := by
  rw [replyOf, Option.bind_eq_some_iff] at hreply
  obtain ⟨r₀, hr₀, hreply⟩ := hreply
  rw [Option.map_eq_some_iff] at hreply
  obtain ⟨response₀, hprogress, heq⟩ := hreply
  cases heq
  refine ⟨hr₀, ?_, fun r' hr' => ⟨List.mem_of_mem_eraseIdx hr', ?_⟩⟩
  · cases hwalk : r.progress with
    | walking id rest =>
      rw [hwalk] at hprogress
      cases hprogress
    | replied response' =>
      rw [hwalk] at hprogress
      cases hprogress
      rfl
  · intro htoken
    obtain ⟨k, hk, hr'⟩ := List.mem_eraseIdx_iff_getElem?.mp hr'
    apply hk
    apply (List.getElem?_inj ?_ h.nodup).mp
    · rw [List.getElem?_map, List.getElem?_map, hr', hr₀, Option.map_some, Option.map_some, htoken]
    · rw [List.length_map]
      exact (List.getElem?_eq_some_iff.mp hr').1

/-- A call comes to its end. If it is the newest one, what is shown then has to be right. -/
theorem invariant_drop (h : Invariant s) (hr : s.inFlight[n]? = some r)
    (hothers : ∀ r' ∈ s.inFlight.eraseIdx n, r' ∈ s.inFlight ∧ r'.token ≠ r.token)
    (hframe : s'.inFlight = s.inFlight ∧ s'.browseRequest = s.browseRequest ∧
      s'.collection = s.collection ∧ s'.history = s.history ∧ s'.starting = s.starting)
    (hstale : r.token ≠ s.browseRequest → s' = s)
    (hshows : r.token = s.browseRequest → s'.browsePath ≠ [] → s.starting = 0 →
      Shows s.history s'.browsePath s'.browseEntries
        (s'.browseHasMore = true ∨ s'.browseError.isSome)) : Invariant (s'.drop n) := by
  obtain ⟨hflight, hrequest, hcollection, hhistory, hstarting⟩ := hframe
  have hsorted : ((s.inFlight.eraseIdx n).map Call.token).Pairwise (· < ·) :=
    h.sorted.sublist ((List.eraseIdx_sublist _ _).map _)
  have hfrom : ∀ r' ∈ s.inFlight.eraseIdx n, r' ∈ s.inFlight := fun r' hr' => (hothers r' hr').1
  by_cases hnow : r.token = s.browseRequest
  · have hnone : ∀ r' ∈ s.inFlight.eraseIdx n, r'.token ≠ s.browseRequest := by
      intro r' hr'
      rw [← hnow]
      exact (hothers r' hr').2
    rw [State.drop, hflight]
    constructor
    · constructor <;> simp only [hrequest, hcollection, hhistory]
      · exact h.indexed
      · exact h.current
      · exact hsorted
      · exact fun r' hr' => h.tokens r' (hfrom r' hr')
      · exact fun _ => hnone
      · exact fun r' hr' ht => absurd ht (hnone r' hr')
      · exact fun r' hr' => h.accepted r' (hfrom r' hr')
    · simp only [hrequest]
      exact fun r' hr' ht => absurd ht (hnone r' hr')
    · simp only [hrequest]
      exact fun r' hr' ht => absurd ht (hnone r' hr')
    · simp only [hrequest, hhistory, hstarting]
      exact fun hpath hstart _ => hshows hnow hpath hstart
  · rw [hstale hnow, State.drop]
    refine ⟨⟨h.indexed, h.current, hsorted, fun r' hr' => h.tokens r' (hfrom r' hr'),
      fun hidle r' hr' => h.idle hidle r' (hfrom r' hr'),
      fun r' hr' => h.answerable r' (hfrom r' hr'),
      fun r' hr' => h.accepted r' (hfrom r' hr')⟩, fun r' hr' => h.path r' (hfrom r' hr'),
      fun r' hr' => h.behind r' (hfrom r' hr'), fun hpath hstart hmore => ?_⟩
    apply h.shows hpath hstart
    intro r' hr' hnow'
    apply hmore r' _ hnow'
    obtain ⟨k, hk⟩ := List.mem_iff_getElem?.mp hr'
    refine List.mem_eraseIdx_iff_getElem?.mpr ⟨k, ?_, hk⟩
    rintro rfl
    rw [hr] at hk
    cases hk
    exact hnow hnow'

/-- What was shown before more was asked for. -/
theorem Invariant.shown (h : Invariant s) (hr : s.inFlight[n]? = some r)
    (hnow : r.token = s.browseRequest) (hafter : r.after ≠ none) (hpath : s.browsePath ≠ [])
    (hstart : s.starting = 0) : Shows s.history s.browsePath s.browseEntries
      (s.browseHasMore = true ∨ s.browseError.isSome) := by
  refine h.shows hpath hstart fun r' hr' hnow' => ?_
  have hsame := List.inj_on_of_nodup_map h.nodup hr' (List.mem_of_getElem? hr)
    (hnow'.trans hnow.symm)
  exact hsame ▸ hafter

theorem invariant_failed (h : Invariant s) (hr : s.inFlight[n]? = some r)
    (hothers : ∀ r' ∈ s.inFlight.eraseIdx n, r' ∈ s.inFlight ∧ r'.token ≠ r.token)
    (message : Text) : Invariant ((failed s r message).drop n) := by
  rw [failed]
  split
  · next hstale =>
    exact invariant_drop h hr hothers ⟨rfl, rfl, rfl, rfl, rfl⟩ (fun _ => rfl)
      fun hnow => absurd hnow hstale
  · next hnow =>
    refine invariant_drop h hr hothers ⟨rfl, rfl, rfl, rfl, rfl⟩
      (fun hstale => absurd hstale hnow) fun hnow hpath hstart => ?_
    by_cases hafter : r.after = none
    · simp only [hafter, if_true]
      exact shows_nil _ _ (.inr rfl)
    · simp only [hafter, if_false]
      exact (h.shown hr hnow hafter hpath hstart).mono (List.Subset.refl _) fun _ => .inr rfl

/-- The folder that is shown is no longer waited for more of. -/
theorem invariant_superseded (h : Invariant s) (hr : s.inFlight[n]? = some r)
    (hothers : ∀ r' ∈ s.inFlight.eraseIdx n, r' ∈ s.inFlight ∧ r'.token ≠ r.token)
    (hold : superseded s r) : Invariant ((settled s r).drop n) := by
  rw [settled]
  split
  · next hnow =>
    refine invariant_drop h hr hothers ⟨rfl, rfl, rfl, rfl, rfl⟩
      (fun hstale => absurd hnow hstale) fun _ hpath hstart => h.shown hr hnow ?_ hpath hstart
    simp only [superseded, hnow, ne_eq, not_true_eq_false, decide_false, Bool.false_or,
      Bool.and_eq_true, decide_eq_true_eq] at hold
    exact hold.1
  · next hstale =>
    exact invariant_drop h hr hothers ⟨rfl, rfl, rfl, rfl, rfl⟩ (fun _ => rfl)
      fun hnow => absurd hnow hstale

theorem invariant_gone (h : Invariant s) (hr : s.inFlight[n]? = some r)
    (hothers : ∀ r' ∈ s.inFlight.eraseIdx n, r' ∈ s.inFlight ∧ r'.token ≠ r.token)
    (hnew : ¬superseded s r) : Invariant ((settled (gone s r) r).drop n) := by
  have hnow : r.token = s.browseRequest := by
    by_contra hstale
    simp [superseded, hstale] at hnew
  rw [settled, if_pos (show r.token = (gone s r).browseRequest from hnow)]
  exact invariant_drop h hr hothers ⟨rfl, rfl, rfl, rfl, rfl⟩
    (fun hstale => absurd hnow hstale) fun _ hpath => absurd rfl hpath

theorem invariant_headers {response : Response α} (h : Invariant s)
    (hreply : replyOf s n = some (r, response)) : Invariant (headers s n r response) := by
  obtain ⟨hr, -, hothers⟩ := replyOf_spec h.toCalls hreply
  cases response with
  | thrown message => exact invariant_failed h hr hothers message
  | status code =>
    simp only [headers]
    split
    · next hold => exact invariant_superseded h hr hothers hold
    · next hnew =>
      split
      · exact invariant_gone h hr hothers hnew
      · exact invariant_failed h hr hothers _
  | ok entries hasMore =>
    simp only [headers]
    split
    · next hold => exact invariant_superseded h hr hothers hold
    · next hnew =>
      refine invariant_modify h (fun r => ⟨rfl, rfl, rfl, fun h => h⟩) fun r' hr' _ => ?_
      rw [hr] at hr'
      cases hr'
      by_contra hstale
      simp [superseded, hstale] at hnew

/-- The newest answer is shown, behind what is shown already if it is for more of it. -/
theorem invariant_shown {entries : Listing α} {hasMore : Bool} (h : Invariant s)
    (hr : s.inFlight[n]? = some r)
    (hothers : ∀ r' ∈ s.inFlight.eraseIdx n, r' ∈ s.inFlight ∧ r'.token ≠ r.token)
    (hanswer : r.progress = .replied (.ok entries hasMore)) (haccepted : r.accepted) :
    Invariant (body s n r (.ok entries hasMore)) := by
  have hmem : r ∈ s.inFlight := List.mem_of_getElem? hr
  have hnow := h.accepted r hmem haccepted
  have hans := h.answerable r hmem hnow
  rw [Answerable, hanswer] at hans
  simp only [body, settled, hnow, if_true]
  refine invariant_drop h hr hothers ⟨rfl, hnow.symm ▸ rfl, rfl, rfl, rfl⟩
    (fun hstale => absurd hnow hstale) fun _ hpath hstart => ?_
  have hsame : r.path = s.browsePath := by
    rcases h.path r hmem hnow with hleft | hnew | hsame
    · exact absurd hleft hpath
    · omega
    · exact hsame
  rw [hsame] at hans
  by_cases hafter : r.after = none
  · simp only [hafter, if_true]
    have hfirst := shows_nil s.history s.browsePath trivial
    rw [hafter] at hans
    exact (hfirst.append h.indexed (.inl ⟨rfl, rfl⟩) hans).mono (List.Subset.refl _) .inl
  · simp only [hafter, if_false]
    have hcursor := h.behind r hmem hnow hafter hpath hstart
    exact ((h.shown hr hnow hafter hpath hstart).append h.indexed (.inr ⟨hafter, hcursor⟩)
      hans).mono (List.Subset.refl _) .inl

theorem invariant_body {response : Response α} (h : Invariant s)
    (hreply : replyOf s n = some (r, response)) (haccepted : r.accepted) :
    Invariant (body s n r response) := by
  obtain ⟨hr, hanswer, hothers⟩ := replyOf_spec h.toCalls hreply
  cases response with
  | thrown message => exact invariant_failed h hr hothers message
  | status code => exact invariant_failed h hr hothers _
  | ok entries hasMore => exact invariant_shown h hr hothers hanswer haccepted

theorem invariant_step {e : Event α} (h : Invariant s) (he : Enabled s e) (hc : Careful s e) :
    Invariant (next s e) := by
  cases e with
  | openPath path => exact invariant_loadBrowse (h.toCalls.congr rfl rfl rfl rfl rfl) hc
  | onHashChange path =>
    simp only [next, onHashChange]
    split
    · exact h
    · next hother =>
      exact invariant_loadBrowse (h.toCalls.congr rfl rfl rfl rfl rfl) fun hpath =>
        hc ⟨hpath, hother⟩
  | loadMoreBrowse => exact invariant_loadMore h
  | startApp path =>
    refine ⟨h.toCalls.congr rfl rfl rfl rfl rfl, fun _ _ _ => .inr (.inl (Nat.succ_pos _)),
      fun _ _ _ _ _ hstart => ?_, fun _ hstart => ?_⟩
    · cases hstart
    · cases hstart
  | bucketsFetched =>
    simp only [next, bucketsFetched]
    split
    · next hpath =>
      exact ⟨h.toCalls.congr rfl rfl rfl rfl rfl, fun _ _ _ => .inl hpath,
        fun _ _ _ _ hne => absurd hpath hne, fun hne => absurd hpath hne⟩
    · exact invariant_loadBrowse (h.toCalls.congr rfl rfl rfl rfl rfl) hc
  | serve n =>
    apply invariant_modify h
    · intro r
      obtain ⟨htoken, hpath, hafter, -, hans⟩ := serve_spec s.collection r
      exact ⟨htoken, hpath, hafter, hans s.history h.current⟩
    · intro r hr haccepted
      rw [(serve_spec s.collection r).2.2.2.1] at haccepted
      exact h.accepted r (List.mem_of_getElem? hr) haccepted
  | fail n response =>
    obtain ⟨r, -, herror⟩ := (Option.any_eq_true _ _).mp he
    apply invariant_modify h
    · exact fun r => ⟨rfl, rfl, rfl, fun _ => answerable_error herror⟩
    · exact fun r hr => h.accepted r (List.mem_of_getElem? hr)
  | headers n =>
    obtain ⟨⟨r, response⟩, hreply, -⟩ := (Option.any_eq_true _ _).mp he
    simp only [next, hreply]
    exact invariant_headers h hreply
  | body n =>
    obtain ⟨⟨r, response⟩, hreply, haccepted⟩ := (Option.any_eq_true _ _).mp he
    simp only [next, hreply]
    exact invariant_body h hreply haccepted
  | change c => exact invariant_change h he

theorem invariant_reachable (h : Reachable carefulMachine s) : Invariant s := by
  induction h with
  | initial h => exact invariant_initial h
  | step _ he ih => exact invariant_step ih he.1 he.2

end Steps

/-- **Main result.** In a run that asks for no folder while the body of an answer is on its way,
when nothing is being loaded, the page shows a folder's names in order and each once; each was
in a folder to which the path led; and a name that has been in the folder all the time since the
folder was opened is shown, if the page does not say that there is more or that something went
wrong and it comes behind everything shown. -/
theorem page_shows_folder {s : State α} (h : Reachable carefulMachine s)
    (hpath : s.browsePath ≠ []) (hidle : s.browseLoading = false) (hstart : s.starting = 0) :
    Shows s.history s.browsePath s.browseEntries
      (s.browseHasMore = true ∨ s.browseError.isSome) := by
  have hinv := invariant_reachable h
  exact hinv.shows hpath hstart fun r hr hnow => absurd hnow (hinv.idle hidle r hr)

/-! ### A folder with one picture, or with one folder -/

def opened (c : Collection Bool) : State Bool where
  browsePath := []
  browseEntries := []
  browseHasMore := false
  browseLoading := false
  browseError := none
  bucketError := none
  browseRequest := 0
  starting := 0
  inFlight := []
  collection := c
  history := [c]

/-- The second click is answered before the first one. -/
def twoClicks : List (Event Bool) :=
  [.openPath "photos/cat".toList, .openPath "/photos".toList, .serve 1, .serve 1, .headers 1,
    .serve 0, .serve 0, .body 1, .headers 0]

theorem page_shows_folder_photos :
    (twoClicks.foldl next (opened gallery)).browseEntries.map Prod.fst = ["cat".toList] ∧
      Shows (twoClicks.foldl next (opened gallery)).history
        (twoClicks.foldl next (opened gallery)).browsePath
        (twoClicks.foldl next (opened gallery)).browseEntries
        ((twoClicks.foldl next (opened gallery)).browseHasMore = true ∨
          (twoClicks.foldl next (opened gallery)).browseError.isSome) := by
  refine ⟨by decide, page_shows_folder (Reachable.run (.initial ?_) twoClicks ?_) ?_ ?_ ?_⟩
  · exact ⟨rfl, rfl, rfl, rfl, by decide⟩
  · decide
  · decide
  · decide
  · decide

def nested : Collection Bool :=
  ⟨[(false, photos), (true, { cat with isContainer := true })], by decide⟩

/-- The body of the first answer comes when the folder of the second click is shown. -/
def lateBody : List (Event Bool) :=
  [.openPath "photos".toList, .serve 0, .serve 0, .headers 0, .openPath "photos/cat".toList,
    .serve 1, .serve 1, .serve 1, .headers 1, .body 1, .body 0]

/-- An empty folder seems to hold itself. -/
example : (∀ n (hn : n < lateBody.length),
      machine.Enabled ((lateBody.take n).foldl machine.next (opened nested)) lateBody[n]) ∧
    (lateBody.foldl next (opened nested)).browseLoading = false ∧
    (lateBody.foldl next (opened nested)).browsePath = "photos/cat".toList ∧
    (lateBody.foldl next (opened nested)).browseEntries.map Prod.fst = ["cat".toList] := by
  decide

end BrowseSession
