import Strubs.StateMachine
import Mathlib.Data.Finset.Basic
import Mathlib.Data.List.Infix

/-! # Names that survive a power cut

A slice is committed under a name in a shard of directories that may have to be made first. That a
name survives, every directory above it must have been synced into the one above that. Commits that
meet in a new shard share its creation; commits in neighbouring shards share only what is above. -/
namespace DurableDirectories

open StateMachine

variable {α : Type*}

/-- The paths of a volume are lists of names, from the root on. -/
structure Volume (α : Type*) where
  mount : List α
  ordered : Bool
  syncsDirectories : Bool
  mount_ne : mount ≠ []

inductive Work (α : Type*) where
  | creating
  | made (firstCreated : Option (List α))
  | syncing (rest : List (List α))
  deriving DecidableEq

def Work.isMade : Work α → Bool
  | .made _ => true
  | _ => false

def Work.isSyncing : Work α → Bool
  | .syncing (_ :: _) => true
  | _ => false

inductive Phase where
  | waiting | ready | renamed | committed | failed
  deriving DecidableEq

/-- A `commitTemporaryFile`. -/
structure Call (α : Type*) where
  dir : List α
  file : α
  phase : Phase
  deriving DecidableEq

def Call.path (c : Call α) : List α := c.dir ++ [c.file]

/-- `durable` is what the platter has, and `unsynced` what was made and is in nobody's hands any
more: neither is known to the source. -/
structure State (α : Type*) where
  entries : Finset (List α)
  durable : Finset (List α)
  unsynced : Finset (List α)
  creating : List α → Option (Work α)
  unproven : List α → Option (List α)
  calls : List (Call α)

inductive Outcome where
  | ok | unsupported | failed
  deriving DecidableEq

/-- A `mkdir` that fails may have made the levels down to some depth. -/
inductive Event (α : Type*) where
  | commitTemporaryFile (dir : List α) (file : α)
  | mkdir (dir : List α)
  | mkdirFailed (dir : List α) (depth : ℕ)
  | mkdirReturned (dir : List α)
  | fsyncCreated (dir : List α) (outcome : Outcome)
  | rename (n : ℕ) (ok : Bool)
  | fsyncLeaf (n : ℕ) (outcome : Outcome)
  | restart
  | powerCut

/-! ## Paths -/

theorem dropLast_prefix_dropLast {p q : List α} (h : p <+: q) : p.dropLast <+: q.dropLast := by
  by_cases heq : p = q
  · rw [heq]
  · have hlt : p.length < q.length :=
      Nat.lt_of_le_of_ne h.length_le fun hlen => heq (h.eq_of_length hlen)
    have hp : p <+: q.dropLast := by
      apply List.prefix_of_prefix_length_le h (List.dropLast_prefix q)
      rw [List.length_dropLast]
      omega
    exact (List.dropLast_prefix p).trans hp

theorem inits_concat (p : List α) (a : α) : (p ++ [a]).inits = p.inits ++ [p ++ [a]] := by
  rw [List.inits_append]
  rfl

theorem inits_pairwise (p : List α) : p.inits.Pairwise (· <+: ·) := by
  induction p with
  | nil => exact List.pairwise_singleton _ _
  | cons a p ih =>
    rw [List.inits_cons, List.pairwise_cons, List.pairwise_map]
    exact ⟨fun q _ => List.nil_prefix, ih.imp fun h => List.cons_prefix_cons.mpr ⟨rfl, h⟩⟩

/-! ## The steps of a commit -/

variable [DecidableEq α]

def missing (s : State α) (dir : List α) : List (List α) :=
  dir.inits.filter fun p => p ≠ [] ∧ p ∉ s.entries

/-- From the leaf up to the parent of the first directory that was created. -/
def fsyncCreatedPath (parentOfFirstCreated : List α) : List (List α) → List (List α)
  | [] => []
  | dir :: above =>
    if dir = parentOfFirstCreated ∨ dir.length ≤ 1 then [dir]
    else dir :: fsyncCreatedPath parentOfFirstCreated above

/-- The entries of a directory are on the platter, and in a journal that commits in sequence all
that was done before. -/
def fsyncDirectory (v : Volume α) (s : State α) (dir : List α) : State α :=
  let durable := if v.ordered then s.entries
    else s.durable ∪ s.entries.filter fun p => p.dropLast = dir
  { s with durable, unsynced := s.unsynced \ durable }

def Call.answer (dir : List α) (ok : Bool) (c : Call α) : Call α :=
  if c.dir = dir ∧ c.phase = .waiting then { c with phase := if ok then .ready else .failed }
  else c

def setWork (s : State α) (dir : List α) (work : Option (Work α)) : State α :=
  { s with creating := Function.update s.creating dir work }

def setUnproven (s : State α) (dir : List α) (firstCreated : Option (List α)) : State α :=
  { s with unproven := Function.update s.unproven dir firstCreated }

/-- Everyone who waits for the directory goes on. -/
def settle (s : State α) (dir : List α) (ok : Bool) : State α :=
  { setWork s dir none with calls := s.calls.map (Call.answer dir ok) }

def addEntries (s : State α) (made : Finset (List α)) : State α :=
  { s with entries := s.entries ∪ made, unsynced := s.unsynced ∪ made }

def setPhase (s : State α) (n : ℕ) (phase : Phase) : State α :=
  { s with calls := s.calls.modify n fun c => { c with phase } }

def survives (s : State α) (p : List α) : Bool := p.inits.all fun q => q = [] || q ∈ s.durable

def Enabled (v : Volume α) (s : State α) : Event α → Prop
  | .commitTemporaryFile dir _ => v.mount <+: dir
  | .mkdir dir | .mkdirFailed dir _ => s.creating dir = some .creating
  | .mkdirReturned dir => (s.creating dir).any Work.isMade = true
  | .fsyncCreated dir outcome => (s.creating dir).any Work.isSyncing = true ∧
    (outcome = .unsupported → v.syncsDirectories = false)
  | .rename n _ => (s.calls[n]?).any (fun c => c.phase = .ready) = true
  | .fsyncLeaf n outcome => (s.calls[n]?).any (fun c => c.phase = .renamed) = true ∧
    (outcome = .unsupported → v.syncsDirectories = false)
  | .restart | .powerCut => True

instance (v : Volume α) (s : State α) (e : Event α) : Decidable (Enabled v s e) := by
  cases e <;> simp only [Enabled] <;> infer_instance

def next (v : Volume α) (s : State α) : Event α → State α
  | .commitTemporaryFile dir file =>
    { setWork s dir (some ((s.creating dir).getD .creating)) with
      calls := s.calls ++ [⟨dir, file, .waiting⟩] }
  | .mkdir dir =>
    { setWork s dir (some (.made (missing s dir).head?)) with
      entries := s.entries ∪ (missing s dir).toFinset }
  | .mkdirFailed dir depth =>
    settle (addEntries s ((missing s dir).filter fun p => p.length ≤ depth).toFinset) dir false
  | .mkdirReturned dir =>
    match s.creating dir with
    | some (.made first) =>
      match first <|> s.unproven dir with
      | none => settle s dir true
      | some firstCreated =>
        setUnproven (setWork s dir
          (some (.syncing (fsyncCreatedPath firstCreated.dropLast dir.inits.reverse)))) dir
          (some firstCreated)
    | _ => s
  | .fsyncCreated dir outcome =>
    match s.creating dir with
    | some (.syncing (d :: rest)) =>
      if outcome = .failed then settle s dir false
      else
        let synced := if outcome = .ok then fsyncDirectory v s d else s
        if rest = [] then
          settle (setUnproven synced dir none) dir true
        else setWork synced dir (some (.syncing rest))
    | _ => s
  | .rename n ok =>
    match s.calls[n]? with
    | some c =>
      if ok then setPhase (addEntries s {c.path}) n .renamed else setPhase s n .failed
    | none => s
  | .fsyncLeaf n outcome =>
    match s.calls[n]? with
    | some c =>
      if outcome = .failed then setPhase s n .failed
      else setPhase (if outcome = .ok then fsyncDirectory v s c.dir else s) n .committed
    | none => s
  | .restart =>
    { s with
      unsynced := s.unsynced ∪ (s.entries \ s.durable)
      creating := fun _ => none
      unproven := fun _ => none
      calls := [] }
  | .powerCut =>
    let left := s.entries.filter fun p => survives s p
    ⟨left, left, ∅, fun _ => none, fun _ => none, []⟩

/-- A volume is mounted with what is on its platter. -/
structure Initial (v : Volume α) (s : State α) : Prop where
  durable : s.durable = s.entries
  nonempty : [] ∉ s.entries
  closed : ∀ p ∈ s.entries, ∀ q, q ≠ [] → q <+: p → q ∈ s.entries
  mount : v.mount ∈ s.entries
  creating : ∀ dir, s.creating dir = none
  unproven : ∀ dir, s.unproven dir = none
  calls : s.calls = []

def machine (v : Volume α) : Machine (State α) (Event α) := ⟨Initial v, Enabled v, next v⟩

instance (v : Volume α) (s : State α) (e : Event α) : Decidable ((machine v).Enabled s e) :=
  inferInstanceAs (Decidable (Enabled v s e))

variable {v : Volume α} {s : State α}

/-! ## The walk up -/

/-- The walk up syncs everything between its ends. -/
theorem mem_fsyncCreatedPath {stop dir q : List α} (hstop : stop ≠ []) (hq : stop <+: q)
    (hdir : q <+: dir) : q ∈ fsyncCreatedPath stop dir.inits.reverse := by
  induction dir using List.reverseRecOn with
  | nil =>
    obtain rfl := List.prefix_nil.mp hdir
    exact absurd (List.prefix_nil.mp hq) hstop
  | append_singleton dir a ih =>
    rw [inits_concat, List.reverse_append, List.reverse_singleton, List.singleton_append,
      fsyncCreatedPath]
    rcases List.prefix_concat_iff.mp hdir with rfl | hbelow
    · split
      · exact List.mem_singleton_self _
      · exact List.mem_cons_self
    · have hne : dir ≠ [] := by
        rintro rfl
        obtain rfl := List.prefix_nil.mp hbelow
        exact hstop (List.prefix_nil.mp hq)
      rw [if_neg]
      · exact List.mem_cons_of_mem _ (ih hbelow)
      · rintro (heq | hlen)
        · have := (hq.trans hbelow).length_le
          rw [← heq, List.length_append, List.length_singleton] at this
          omega
        · rw [List.length_append, List.length_singleton] at hlen
          exact hne (List.eq_nil_of_length_eq_zero (by omega))

theorem mem_missing {s : State α} {dir p : List α} :
    p ∈ missing s dir ↔ p <+: dir ∧ p ≠ [] ∧ p ∉ s.entries := by
  simp [missing, List.mem_inits]

/-- The directory that `mkdir` answers with is above all others that it made. -/
theorem missing_head {s : State α} {dir f p : List α} (hf : (missing s dir).head? = some f)
    (hp : p ∈ missing s dir) : f <+: p := by
  have hsorted : (missing s dir).Pairwise (· <+: ·) := (inits_pairwise dir).filter _
  obtain ⟨rest, hrest⟩ := List.head?_eq_some_iff.mp hf
  rw [hrest] at hp hsorted
  rcases List.mem_cons.mp hp with rfl | hmem
  · exact List.prefix_refl _
  · exact List.rel_of_pairwise_cons hsorted hmem

/-! ## What is not on the platter yet -/

/-- The first directory made for a leaf whose way up is not synced yet. -/
def Pending (s : State α) (leaf f : List α) : Prop :=
  s.unproven leaf = some f ∨ s.creating leaf = some (.made (some f))

/-- A leaf that somebody was told is durable. -/
structure Settled (s : State α) (dir : List α) : Prop where
  entry : dir ∈ s.entries
  unproven : s.unproven dir = none
  work : ∀ w, s.creating dir = some w → w = .creating ∨ w = .made none

structure CallInvariant (v : Volume α) (s : State α) (c : Call α) : Prop where
  settled : c.phase = .ready ∨ c.phase = .renamed ∨ c.phase = .committed → Settled s c.dir
  renamed : c.phase = .renamed → c.path ∈ s.entries
  committed : c.phase = .committed → c.path ∈ s.durable
  ordered : c.phase = .committed → v.ordered = true →
    ∀ q, q ≠ [] → q <+: c.path → q ∈ s.durable

omit [DecidableEq α] in
theorem CallInvariant.idle {c : Call α} (h : c.phase = .waiting ∨ c.phase = .failed) :
    CallInvariant v s c := by
  constructor <;> rcases h with h | h <;> simp [h]

structure Invariant (v : Volume α) (s : State α) : Prop where
  durable : s.durable ⊆ s.entries
  nonempty : [] ∉ s.entries
  closed : ∀ p ∈ s.entries, ∀ q, q ≠ [] → q <+: p → q ∈ s.entries
  mount : ∀ q, q ≠ [] → q <+: v.mount → q ∈ s.durable
  under : ∀ dir w, s.creating dir = some w → v.mount <+: dir
  made : ∀ dir first, s.creating dir = some (.made first) → dir ∈ s.entries
  fresh : ∀ dir f, s.creating dir = some (.made (some f)) → s.unproven dir = none
  pending : ∀ leaf f, Pending s leaf f → leaf ∈ s.entries ∧ f <+: leaf ∧ f.dropLast ≠ []
  syncing : ∀ dir rest, s.creating dir = some (.syncing rest) → ∃ f, s.unproven dir = some f ∧
    ∀ p, f <+: p → p <+: dir → p ∈ s.durable ∨ p.dropLast ∈ rest
  exposed : ∀ p ∈ s.entries, p ∉ s.durable → p ∈ s.unsynced ∨
    ∃ leaf f, Pending s leaf f ∧ f <+: p ∧ p <+: leaf
  calls : ∀ c ∈ s.calls, CallInvariant v s c

omit [DecidableEq α] in
theorem invariant_initial {v : Volume α} {s : State α} (h : Initial v s) : Invariant v s where
  durable := by rw [h.durable]
  nonempty := h.nonempty
  closed := h.closed
  mount q hq hmount := by
    rw [h.durable]
    exact h.closed _ h.mount q hq hmount
  under dir w hw := by
    rw [h.creating] at hw
    exact nomatch hw
  made dir first hw := by
    rw [h.creating] at hw
    exact nomatch hw
  fresh dir f hw := h.unproven dir
  pending leaf f hf := by
    rcases hf with hf | hf
    · rw [h.unproven] at hf
      exact nomatch hf
    · rw [h.creating] at hf
      exact nomatch hf
  syncing dir rest hw := by
    rw [h.creating] at hw
    exact nomatch hw
  exposed p hp hnot := by
    rw [h.durable] at hnot
    exact absurd hp hnot
  calls c hc := by
    rw [h.calls] at hc
    exact nomatch hc

/-! ## What each part of a step keeps -/

omit [DecidableEq α] in
theorem CallInvariant.mono {s' : State α} {c : Call α} (h : CallInvariant v s c)
    (hentries : s.entries ⊆ s'.entries) (hdurable : s.durable ⊆ s'.durable)
    (hsettled : Settled s c.dir → Settled s' c.dir) : CallInvariant v s' c where
  settled hphase := hsettled (h.settled hphase)
  renamed hphase := hentries (h.renamed hphase)
  committed hphase := hdurable (h.committed hphase)
  ordered hphase ho q hq hp := hdurable (h.ordered hphase ho q hq hp)

omit [DecidableEq α] in
theorem Settled.congr {s' : State α} {dir : List α} (h : Settled s dir)
    (hentries : s.entries ⊆ s'.entries) (hunproven : s'.unproven dir = s.unproven dir)
    (hcreating : s'.creating dir = s.creating dir) : Settled s' dir :=
  ⟨hentries h.entry, hunproven.trans h.unproven, fun w hw => h.work w (hcreating ▸ hw)⟩

omit [DecidableEq α] in
theorem Invariant.withCalls (h : Invariant v s) {calls : List (Call α)}
    (hcalls : ∀ c ∈ calls, CallInvariant v s c) : Invariant v { s with calls := calls } where
  durable := h.durable
  nonempty := h.nonempty
  closed := h.closed
  mount := h.mount
  under := h.under
  made := h.made
  fresh := h.fresh
  pending := h.pending
  syncing := h.syncing
  exposed := h.exposed
  calls c hc := (hcalls c hc).mono (Finset.Subset.refl _) (Finset.Subset.refl _) fun hs =>
    hs.congr (Finset.Subset.refl _) rfl rfl

theorem pending_setWork {dir leaf f : List α} {work : Option (Work α)}
    (hold : ∀ f, s.creating dir ≠ some (.made (some f)))
    (hnew : ∀ f, work ≠ some (.made (some f))) :
    Pending (setWork s dir work) leaf f ↔ Pending s leaf f := by
  simp only [Pending, setWork]
  by_cases hleaf : leaf = dir
  · subst hleaf
    rw [Function.update_self]
    exact ⟨fun h => h.imp_right fun h => absurd h (hnew f),
      fun h => h.imp_right fun h => absurd h (hold f)⟩
  · rw [Function.update_of_ne hleaf]

theorem Invariant.withWork (h : Invariant v s) {dir : List α} {work : Option (Work α)}
    (hold : ∀ f, s.creating dir ≠ some (.made (some f)))
    (hnew : ∀ first, work ≠ some (.made first))
    (hunder : ∀ w, work = some w → v.mount <+: dir)
    (hsyncing : ∀ rest, work = some (.syncing rest) → ∃ f, s.unproven dir = some f ∧
      ∀ p, f <+: p → p <+: dir → p ∈ s.durable ∨ p.dropLast ∈ rest) :
    Invariant v (setWork s dir work) where
  durable := h.durable
  nonempty := h.nonempty
  closed := h.closed
  mount := h.mount
  under other w hw := by
    simp only [setWork] at hw
    by_cases hother : other = dir
    · subst hother
      rw [Function.update_self] at hw
      exact hunder w hw
    · rw [Function.update_of_ne hother] at hw
      exact h.under other w hw
  made other first hw := by
    simp only [setWork] at hw
    by_cases hother : other = dir
    · subst hother
      rw [Function.update_self] at hw
      exact absurd hw (hnew first)
    · rw [Function.update_of_ne hother] at hw
      exact h.made other first hw
  fresh other f hw := by
    simp only [setWork] at hw
    by_cases hother : other = dir
    · subst hother
      rw [Function.update_self] at hw
      exact absurd hw (hnew _)
    · rw [Function.update_of_ne hother] at hw
      exact h.fresh other f hw
  pending leaf f hf := h.pending leaf f ((pending_setWork hold fun _ => hnew _).mp hf)
  syncing other rest hw := by
    simp only [setWork] at hw
    by_cases hother : other = dir
    · subst hother
      rw [Function.update_self] at hw
      exact hsyncing rest hw
    · rw [Function.update_of_ne hother] at hw
      exact h.syncing other rest hw
  exposed p hp hnot := by
    refine (h.exposed p hp hnot).imp_right ?_
    rintro ⟨leaf, f, hf, hends⟩
    exact ⟨leaf, f, (pending_setWork hold fun _ => hnew _).mpr hf, hends⟩
  calls c hc := (h.calls c hc).mono (Finset.Subset.refl _) (Finset.Subset.refl _) fun hs => by
    refine ⟨hs.entry, hs.unproven, fun w hw => ?_⟩
    simp only [setWork] at hw
    by_cases hdir : c.dir = dir
    · rw [hdir, Function.update_self] at hw
      match w with
      | .creating => exact .inl rfl
      | .made first => exact absurd hw (hnew first)
      | .syncing rest =>
        obtain ⟨f, hf, -⟩ := hsyncing rest hw
        rw [← hdir, hs.unproven] at hf
        exact nomatch hf
    · rw [Function.update_of_ne hdir] at hw
      exact hs.work w hw

theorem Invariant.answer (h : Invariant v s) {dir : List α} {ok : Bool}
    (hok : ok = true → Settled s dir) :
    Invariant v { s with calls := s.calls.map (Call.answer dir ok) } := by
  apply h.withCalls
  intro c hc
  obtain ⟨c, hmem, rfl⟩ := List.mem_map.mp hc
  unfold Call.answer
  by_cases hwaits : c.dir = dir ∧ c.phase = .waiting
  · rw [if_pos hwaits]
    cases ok with
    | true =>
      refine ⟨fun _ => ?_, ?_, ?_, ?_⟩
      · exact hwaits.1 ▸ hok rfl
      all_goals simp
    | false =>
      exact .idle (.inr rfl)
  · rw [if_neg hwaits]
    exact h.calls c hmem

theorem Invariant.settled (h : Invariant v s) {dir : List α} {ok : Bool}
    (hold : ∀ f, s.creating dir ≠ some (.made (some f)))
    (hok : ok = true → dir ∈ s.entries ∧ s.unproven dir = none) :
    Invariant v (settle s dir ok) := by
  have hidle : Invariant v (setWork s dir none) :=
    h.withWork hold (fun _ h => nomatch h) (fun _ h => nomatch h) fun _ h => nomatch h
  apply hidle.answer
  intro htrue
  refine ⟨(hok htrue).1, (hok htrue).2, fun w hw => ?_⟩
  simp only [setWork, Function.update_self] at hw
  exact nomatch hw

theorem durable_fsyncDirectory (v : Volume α) (s : State α) (dir : List α) :
    s.durable ⊆ s.entries → s.durable ⊆ (fsyncDirectory v s dir).durable := by
  intro hsub
  simp only [fsyncDirectory]
  by_cases ho : v.ordered = true
  · rw [if_pos ho]
    exact hsub
  · rw [if_neg ho]
    exact Finset.subset_union_left

theorem mem_fsyncDirectory {dir p : List α} (hp : p ∈ s.entries) (hdir : p.dropLast = dir) :
    p ∈ (fsyncDirectory v s dir).durable := by
  simp only [fsyncDirectory]
  by_cases ho : v.ordered = true
  · rw [if_pos ho]
    exact hp
  · rw [if_neg ho]
    exact Finset.mem_union_right _ (Finset.mem_filter.mpr ⟨hp, hdir⟩)

theorem Invariant.synced (h : Invariant v s) (dir : List α) :
    Invariant v (fsyncDirectory v s dir) where
  durable := by
    simp only [fsyncDirectory]
    by_cases ho : v.ordered = true
    · rw [if_pos ho]
    · rw [if_neg ho]
      exact Finset.union_subset h.durable (Finset.filter_subset _ _)
  nonempty := h.nonempty
  closed := h.closed
  mount q hq hp := durable_fsyncDirectory v s dir h.durable (h.mount q hq hp)
  under := h.under
  made := h.made
  fresh := h.fresh
  pending := h.pending
  syncing other rest hw := by
    obtain ⟨f, hf, hchain⟩ := h.syncing other rest hw
    exact ⟨f, hf, fun p hp hq => (hchain p hp hq).imp_left
      fun hd => durable_fsyncDirectory v s dir h.durable hd⟩
  exposed p hp hnot := by
    refine (h.exposed p hp fun hd => hnot (durable_fsyncDirectory v s dir h.durable hd)).imp_left
      fun hu => ?_
    exact Finset.mem_sdiff.mpr ⟨hu, hnot⟩
  calls c hc := (h.calls c hc).mono (Finset.Subset.refl _)
    (durable_fsyncDirectory v s dir h.durable) fun hs => hs.congr (Finset.Subset.refl _) rfl rfl

/-- What is synced to its end is in nobody's way any more. -/
theorem Invariant.prove (h : Invariant v s) {leaf : List α} (hidle : s.creating leaf = none)
    (hchain : ∀ f, s.unproven leaf = some f → ∀ p, f <+: p → p <+: leaf → p ∈ s.durable) :
    Invariant v (setUnproven s leaf none) where
  durable := h.durable
  nonempty := h.nonempty
  closed := h.closed
  mount := h.mount
  under := h.under
  made := h.made
  fresh dir f hw := by
    by_cases hdir : dir = leaf
    · rw [hdir]
      exact Function.update_self _ _ _
    · exact (Function.update_of_ne hdir _ _).trans (h.fresh dir f hw)
  pending other f hf := by
    apply h.pending
    refine hf.imp_left fun hf => ?_
    simp only [setUnproven] at hf
    by_cases hother : other = leaf
    · subst hother
      rw [Function.update_self] at hf
      exact nomatch hf
    · rwa [Function.update_of_ne hother] at hf
  syncing dir rest hw := by
    obtain ⟨f, hf, hrest⟩ := h.syncing dir rest hw
    have hdir : dir ≠ leaf := by
      rintro rfl
      exact nomatch hidle.symm.trans hw
    exact ⟨f, (Function.update_of_ne hdir _ _).trans hf, hrest⟩
  exposed p hp hnot := by
    refine (h.exposed p hp hnot).imp_right ?_
    rintro ⟨other, f, hf, hfirst, hleaf⟩
    refine ⟨other, f, ?_, hfirst, hleaf⟩
    by_cases hother : other = leaf
    · subst hother
      rcases hf with hf | hf
      · exact absurd (hchain f hf p hfirst hleaf) hnot
      · rw [hidle] at hf
        exact nomatch hf
    · exact hf.imp_left fun hf => (Function.update_of_ne hother _ _).trans hf
  calls c hc := (h.calls c hc).mono (Finset.Subset.refl _) (Finset.Subset.refl _) fun hs => by
    refine ⟨hs.entry, ?_, hs.work⟩
    by_cases hdir : c.dir = leaf
    · rw [hdir]
      exact Function.update_self _ _ _
    · exact (Function.update_of_ne hdir _ _).trans hs.unproven

theorem Invariant.withEntries (h : Invariant v s) {made : Finset (List α)} (hnonempty : [] ∉ made)
    (hclosed : ∀ p ∈ made, ∀ q, q ≠ [] → q <+: p → q ∈ s.entries ∪ made) :
    Invariant v (addEntries s made) where
  durable := h.durable.trans Finset.subset_union_left
  nonempty hmem := (Finset.mem_union.mp hmem).elim h.nonempty hnonempty
  closed p hp q hq hpre := by
    rcases Finset.mem_union.mp hp with hold | hnew
    · exact Finset.mem_union_left _ (h.closed p hold q hq hpre)
    · exact hclosed p hnew q hq hpre
  mount := h.mount
  under := h.under
  made dir first hw := Finset.mem_union_left _ (h.made dir first hw)
  fresh := h.fresh
  pending leaf f hf := ⟨Finset.mem_union_left _ (h.pending leaf f hf).1, (h.pending leaf f hf).2⟩
  syncing := h.syncing
  exposed p hp hnot := by
    rcases Finset.mem_union.mp hp with hold | hnew
    · exact (h.exposed p hold hnot).imp_left (Finset.mem_union_left _)
    · exact .inl (Finset.mem_union_right _ hnew)
  calls c hc := (h.calls c hc).mono Finset.subset_union_left (Finset.Subset.refl _) fun hs =>
    hs.congr Finset.subset_union_left rfl rfl

omit [DecidableEq α] in
theorem Invariant.withPhase (h : Invariant v s) {n : ℕ} {phase : Phase}
    (hphase : ∀ c, s.calls[n]? = some c → CallInvariant v s { c with phase := phase }) :
    Invariant v (setPhase s n phase) := by
  apply h.withCalls
  intro c hc
  obtain ⟨k, hk⟩ := List.mem_iff_getElem?.mp hc
  rcases getElem?_modify_iff.mp hk with ⟨-, hold⟩ | ⟨rfl, c', hold, rfl⟩
  · exact h.calls c (List.mem_of_getElem? hold)
  · exact hphase c' hold

/-! ## The steps -/

theorem missing_closed {dir p q : List α} (hp : p ∈ missing s dir) (hq : q ≠ [])
    (hpre : q <+: p) : q ∈ s.entries ∨ q ∈ missing s dir := by
  by_cases hmem : q ∈ s.entries
  · exact .inl hmem
  · exact .inr (mem_missing.mpr ⟨hpre.trans (mem_missing.mp hp).1, hq, hmem⟩)

theorem Invariant.above_mount (h : Invariant v s) {dir f : List α} (hdir : v.mount <+: dir)
    (hf : f ∈ missing s dir) : f.dropLast ≠ [] := by
  obtain ⟨hpre, hne, hnew⟩ := mem_missing.mp hf
  have hnot : ¬ f <+: v.mount := fun hp => hnew (h.durable (h.mount f hne hp))
  rcases List.prefix_or_prefix_of_prefix hdir hpre with hbelow | habove
  · have hlt : v.mount.length < f.length := by
      apply Nat.lt_of_le_of_ne hbelow.length_le
      intro hlen
      exact hnot (hbelow.eq_of_length hlen ▸ List.prefix_refl _)
    have hpos := List.length_pos_of_ne_nil v.mount_ne
    intro hnil
    have := congrArg List.length hnil
    rw [List.length_dropLast, List.length_nil] at this
    omega
  · exact absurd habove hnot

omit [DecidableEq α] in
theorem Invariant.dir_ne (h : Invariant v s) {dir : List α} {w : Work α}
    (hw : s.creating dir = some w) : dir ≠ [] := by
  rintro rfl
  exact v.mount_ne (List.prefix_nil.mp (h.under _ _ hw))

theorem Invariant.mkdir (h : Invariant v s) {dir : List α}
    (hw : s.creating dir = some .creating) : Invariant v (next v s (.mkdir dir)) := by
  have hunder := h.under dir _ hw
  have hold : ∀ f, s.creating dir ≠ some (.made (some f)) := fun f hf => by
    rw [hw] at hf
    exact nomatch hf
  have hentry : dir ∈ s.entries ∪ (missing s dir).toFinset := by
    by_cases hmem : dir ∈ s.entries
    · exact Finset.mem_union_left _ hmem
    · exact Finset.mem_union_right _ (List.mem_toFinset.mpr
        (mem_missing.mpr ⟨List.prefix_refl _, h.dir_ne hw, hmem⟩))
  have hkept : ∀ leaf f, Pending s leaf f → Pending (next v s (.mkdir dir)) leaf f := by
    intro leaf f hf
    refine hf.imp_right fun hf => ?_
    simp only [next, setWork]
    rw [Function.update_of_ne]
    · exact hf
    · rintro rfl
      exact hold f hf
  have hhead : ∀ f, (missing s dir).head? = some f → f ∈ missing s dir := fun f hf => by
    obtain ⟨rest, hrest⟩ := List.head?_eq_some_iff.mp hf
    rw [hrest]
    exact List.mem_cons_self
  have hnone : dir ∈ s.entries → (missing s dir).head? = none := by
    intro hmem
    rw [List.head?_eq_none_iff, List.eq_nil_iff_forall_not_mem]
    intro p hp
    obtain ⟨hpre, hne, hnew⟩ := mem_missing.mp hp
    exact hnew (h.closed dir hmem p hne hpre)
  constructor
  · exact h.durable.trans Finset.subset_union_left
  · intro hmem
    rcases Finset.mem_union.mp hmem with hmem | hmem
    · exact h.nonempty hmem
    · exact (mem_missing.mp (List.mem_toFinset.mp hmem)).2.1 rfl
  · intro p hp q hq hpre
    rcases Finset.mem_union.mp hp with hp | hp
    · exact Finset.mem_union_left _ (h.closed p hp q hq hpre)
    · exact Finset.mem_union.mpr ((missing_closed (List.mem_toFinset.mp hp) hq hpre).imp_right
        List.mem_toFinset.mpr)
  · exact h.mount
  · intro other w hother
    simp only [next, setWork] at hother
    by_cases hdir : other = dir
    · exact hdir ▸ hunder
    · rw [Function.update_of_ne hdir] at hother
      exact h.under other w hother
  · intro other first hother
    simp only [next, setWork] at hother
    by_cases hdir : other = dir
    · exact hdir ▸ hentry
    · rw [Function.update_of_ne hdir] at hother
      exact Finset.mem_union_left _ (h.made other first hother)
  · intro other f hother
    simp only [next, setWork] at hother
    by_cases hdir : other = dir
    · subst hdir
      rw [Function.update_self] at hother
      have hf : (missing s other).head? = some f := by simpa using hother
      cases hun : s.unproven other with
      | none => exact hun
      | some g =>
        rw [hnone (h.pending other g (.inl hun)).1] at hf
        exact nomatch hf
    · rw [Function.update_of_ne hdir] at hother
      exact h.fresh other f hother
  · intro leaf f hf
    have hpending : Pending s leaf f → leaf ∈ s.entries ∪ (missing s dir).toFinset ∧ f <+: leaf ∧
        f.dropLast ≠ [] := fun hp =>
      ⟨Finset.mem_union_left _ (h.pending leaf f hp).1, (h.pending leaf f hp).2⟩
    rcases hf with hf | hf
    · exact hpending (.inl hf)
    · simp only [next, setWork] at hf
      by_cases hdir : leaf = dir
      · subst hdir
        rw [Function.update_self] at hf
        have hmem := hhead f (by simpa using hf)
        exact ⟨hentry, (mem_missing.mp hmem).1, h.above_mount hunder hmem⟩
      · rw [Function.update_of_ne hdir] at hf
        exact hpending (.inr hf)
  · intro other rest hother
    simp only [next, setWork] at hother
    by_cases hdir : other = dir
    · rw [hdir, Function.update_self] at hother
      exact nomatch hother
    · rw [Function.update_of_ne hdir] at hother
      exact h.syncing other rest hother
  · intro p hp hnot
    rcases Finset.mem_union.mp hp with hp | hp
    · refine (h.exposed p hp hnot).imp_right ?_
      rintro ⟨leaf, f, hf, hends⟩
      exact ⟨leaf, f, hkept leaf f hf, hends⟩
    · have hmem := List.mem_toFinset.mp hp
      obtain ⟨f, hf⟩ : ∃ f, (missing s dir).head? = some f := by
        cases hmissing : missing s dir with
        | nil =>
          rw [hmissing] at hmem
          exact nomatch hmem
        | cons f rest => exact ⟨f, rfl⟩
      refine .inr ⟨dir, f, .inr ?_, missing_head hf hmem, (mem_missing.mp hmem).1⟩
      simp only [next, setWork, Function.update_self, hf]
  · intro c hc
    refine (h.calls c hc).mono Finset.subset_union_left (Finset.Subset.refl _) fun hs => ?_
    refine ⟨Finset.mem_union_left _ hs.entry, hs.unproven, fun w hother => ?_⟩
    simp only [next, setWork] at hother
    by_cases hdir : c.dir = dir
    · rw [hdir, Function.update_self, hnone (hdir ▸ hs.entry)] at hother
      exact .inr (Option.some.inj hother).symm
    · rw [Function.update_of_ne hdir] at hother
      exact hs.work w hother

/-- What the walk up starts with: what was just made, or what an earlier walk did not prove. -/
theorem Invariant.startSync (h : Invariant v s) {dir f : List α} {first : Option (List α)}
    (hw : s.creating dir = some (.made first)) (hf : (first <|> s.unproven dir) = some f) :
    Invariant v (setUnproven (setWork s dir
      (some (.syncing (fsyncCreatedPath f.dropLast dir.inits.reverse)))) dir (some f)) := by
  have hpending : Pending s dir f := by
    cases first with
    | none => exact .inl hf
    | some g =>
      obtain rfl := Option.some.inj hf
      exact .inr hw
  have hunique : ∀ g, Pending s dir g → g = f := by
    intro g hg
    cases first with
    | none =>
      rcases hg with hg | hg
      · exact Option.some.inj (hg.symm.trans hf)
      · rw [hw] at hg
        exact nomatch hg
    | some k =>
      obtain rfl := Option.some.inj hf
      rcases hg with hg | hg
      · rw [h.fresh dir _ hw] at hg
        exact nomatch hg
      · rw [hw] at hg
        simpa using hg.symm
  obtain ⟨hentry, hbelow, hstop⟩ := h.pending dir f hpending
  constructor
  · exact h.durable
  · exact h.nonempty
  · exact h.closed
  · exact h.mount
  · intro other w hother
    simp only [setUnproven, setWork] at hother
    by_cases hdir : other = dir
    · exact hdir ▸ h.under dir _ hw
    · rw [Function.update_of_ne hdir] at hother
      exact h.under other w hother
  · intro other k hother
    simp only [setUnproven, setWork] at hother
    by_cases hdir : other = dir
    · rw [hdir, Function.update_self] at hother
      exact nomatch hother
    · rw [Function.update_of_ne hdir] at hother
      exact h.made other k hother
  · intro other k hother
    simp only [setUnproven, setWork] at hother
    by_cases hdir : other = dir
    · rw [hdir, Function.update_self] at hother
      exact nomatch hother
    · rw [Function.update_of_ne hdir] at hother
      exact (Function.update_of_ne hdir _ _).trans (h.fresh other k hother)
  · intro leaf g hg
    by_cases hdir : leaf = dir
    · subst hdir
      rcases hg with hg | hg
      · simp only [setUnproven, Function.update_self] at hg
        obtain rfl := Option.some.inj hg
        exact ⟨hentry, hbelow, hstop⟩
      · simp only [setUnproven, setWork, Function.update_self] at hg
        exact nomatch hg
    · simp only [Pending, setUnproven, setWork, Function.update_of_ne hdir] at hg
      exact h.pending leaf g hg
  · intro other rest hother
    simp only [setUnproven, setWork] at hother
    by_cases hdir : other = dir
    · subst hdir
      rw [Function.update_self] at hother
      obtain rfl : fsyncCreatedPath f.dropLast other.inits.reverse = rest := by
        simpa using hother
      refine ⟨f, Function.update_self _ _ _, fun p hp hpre => .inr ?_⟩
      apply mem_fsyncCreatedPath hstop (dropLast_prefix_dropLast hp)
      exact (List.dropLast_prefix p).trans hpre
    · rw [Function.update_of_ne hdir] at hother
      obtain ⟨g, hg, hchain⟩ := h.syncing other rest hother
      exact ⟨g, (Function.update_of_ne hdir _ _).trans hg, hchain⟩
  · intro p hp hnot
    refine (h.exposed p hp hnot).imp_right ?_
    rintro ⟨leaf, g, hg, hends⟩
    by_cases hdir : leaf = dir
    · subst hdir
      obtain rfl := hunique g hg
      exact ⟨leaf, g, .inl (Function.update_self _ _ _), hends⟩
    · refine ⟨leaf, g, ?_, hends⟩
      simpa only [Pending, setUnproven, setWork, Function.update_of_ne hdir] using hg
  · intro c hc
    refine (h.calls c hc).mono (Finset.Subset.refl _) (Finset.Subset.refl _) fun hs => ?_
    have hdir : c.dir ≠ dir := by
      intro hdir
      rcases hpending with hun | hmade
      · rw [← hdir, hs.unproven] at hun
        exact nomatch hun
      · rcases hs.work _ (hdir ▸ hmade) with hwork | hwork <;> exact nomatch hwork
    exact hs.congr (Finset.Subset.refl _) (Function.update_of_ne hdir _ _)
      (Function.update_of_ne hdir _ _)

theorem Invariant.mkdirReturned (h : Invariant v s) {dir : List α} {first : Option (List α)}
    (hw : s.creating dir = some (.made first)) :
    Invariant v (next v s (.mkdirReturned dir)) := by
  simp only [next, hw]
  cases hf : (first <|> s.unproven dir) with
  | none =>
    obtain ⟨rfl, hun⟩ : first = none ∧ s.unproven dir = none := by
      cases first with
      | none => exact ⟨rfl, hf⟩
      | some g => exact nomatch hf
    apply h.settled
    · intro f hmade
      rw [hw] at hmade
      exact nomatch hmade
    · exact fun _ => ⟨h.made dir _ hw, hun⟩
  | some f => exact h.startSync hw hf

theorem Invariant.fsyncCreated (h : Invariant v s) {dir d : List α} {rest : List (List α)}
    {outcome : Outcome} (hw : s.creating dir = some (.syncing (d :: rest)))
    (houtcome : outcome ≠ .unsupported) : Invariant v (next v s (.fsyncCreated dir outcome)) := by
  have hold : ∀ f, s.creating dir ≠ some (.made (some f)) := fun f hf => by
    rw [hw] at hf
    exact nomatch hf
  simp only [next, hw]
  by_cases hfailed : outcome = .failed
  · rw [if_pos hfailed]
    exact h.settled hold fun hok => nomatch hok
  · have hok : outcome = .ok := by
      cases outcome with
      | ok => rfl
      | unsupported => exact absurd rfl houtcome
      | failed => exact absurd rfl hfailed
    rw [if_neg hfailed, if_pos hok]
    obtain ⟨f, hf, hchain⟩ := h.syncing dir _ hw
    obtain ⟨hentry, hbelow, hstop⟩ := h.pending dir f (.inl hf)
    have hsynced : ∀ p, f <+: p → p <+: dir →
        p ∈ (fsyncDirectory v s d).durable ∨ p.dropLast ∈ rest := by
      intro p hp hpre
      rcases hchain p hp hpre with hd | hmem
      · exact .inl (durable_fsyncDirectory v s d h.durable hd)
      · rcases List.mem_cons.mp hmem with heq | hrest
        · left
          apply mem_fsyncDirectory _ heq
          apply h.closed dir hentry p _ hpre
          rintro rfl
          obtain rfl := List.prefix_nil.mp hp
          exact hstop rfl
        · exact .inr hrest
    have hsyncing := h.synced d
    by_cases hlast : rest = []
    · rw [if_pos hlast]
      have hidle : Invariant v
          (setWork (fsyncDirectory v s d) dir none) :=
        hsyncing.withWork hold (fun _ h => nomatch h) (fun _ h => nomatch h) fun _ h => nomatch h
      have hproven := hidle.prove (Function.update_self _ _ _) fun g hg p hp hpre => by
        obtain rfl := Option.some.inj (hf.symm.trans hg)
        rcases hsynced p hp hpre with hd | hmem
        · exact hd
        · rw [hlast] at hmem
          exact nomatch hmem
      refine hproven.answer fun _ => ⟨hentry, Function.update_self _ _ _, fun w hwork => ?_⟩
      simp only [setUnproven, setWork, Function.update_self] at hwork
      exact nomatch hwork
    · rw [if_neg hlast]
      refine hsyncing.withWork hold (fun _ h => nomatch h) (fun _ _ => h.under dir _ hw) ?_
      intro r hr
      obtain rfl : rest = r := by simpa using hr
      exact ⟨f, hf, hsynced⟩

theorem Invariant.powerCut (h : Invariant v s) : Invariant v (next v s .powerCut) := by
  have hsurvives : ∀ p, survives s p = true ↔ ∀ q, q ≠ [] → q <+: p → q ∈ s.durable := by
    intro p
    simp only [survives, List.all_eq_true, List.mem_inits, Bool.or_eq_true, decide_eq_true_eq]
    exact ⟨fun h q hq hpre => (h q hpre).resolve_left hq,
      fun h q hpre => or_iff_not_imp_left.mpr fun hq => h q hq hpre⟩
  constructor
  · exact Finset.Subset.refl _
  · intro hmem
    exact h.nonempty (Finset.mem_filter.mp hmem).1
  · intro p hp q hq hpre
    obtain ⟨hentry, hs⟩ := Finset.mem_filter.mp hp
    refine Finset.mem_filter.mpr ⟨h.closed p hentry q hq hpre, (hsurvives q).mpr ?_⟩
    exact fun r hr hrq => (hsurvives p).mp hs r hr (hrq.trans hpre)
  · intro q hq hpre
    refine Finset.mem_filter.mpr ⟨h.durable (h.mount q hq hpre), (hsurvives q).mpr ?_⟩
    exact fun r hr hrq => h.mount r hr (hrq.trans hpre)
  · exact fun _ _ hw => nomatch hw
  · exact fun _ _ hw => nomatch hw
  · exact fun _ _ hw => nomatch hw
  · intro _ _ hf
    rcases hf with hf | hf <;> exact nomatch hf
  · exact fun _ _ hw => nomatch hw
  · exact fun p hp hnot => absurd hp hnot
  · exact fun _ hc => nomatch hc

theorem Invariant.restart (h : Invariant v s) : Invariant v (next v s .restart) where
  durable := h.durable
  nonempty := h.nonempty
  closed := h.closed
  mount := h.mount
  under _ _ hw := nomatch hw
  made _ _ hw := nomatch hw
  fresh _ _ hw := nomatch hw
  pending _ _ hf := by rcases hf with hf | hf <;> exact nomatch hf
  syncing _ _ hw := nomatch hw
  exposed p hp hnot := .inl (Finset.mem_union_right _ (Finset.mem_sdiff.mpr ⟨hp, hnot⟩))
  calls _ hc := nomatch hc

theorem invariant_step (hv : v.syncsDirectories = true) {e : Event α} (h : Invariant v s)
    (he : Enabled v s e) : Invariant v (next v s e) := by
  cases e with
  | commitTemporaryFile dir file =>
    have hwork : Invariant v (setWork s dir (some ((s.creating dir).getD .creating))) := by
      cases hw : s.creating dir with
      | none =>
        exact h.withWork (fun f hf => by rw [hw] at hf; exact nomatch hf)
          (fun first hf => by simp at hf) (fun _ _ => he) fun rest hf => by simp at hf
      | some w =>
        have hsame : setWork s dir (some ((some w).getD .creating)) = s := by
          rw [Option.getD_some, ← hw, setWork, Function.update_eq_self]
        rw [hsame]
        exact h
    refine hwork.withCalls fun c hc => ?_
    rcases List.mem_append.mp hc with hc | hc
    · exact hwork.calls c hc
    · obtain rfl := List.mem_singleton.mp hc
      exact .idle (.inl rfl)
  | mkdir dir => exact h.mkdir he
  | mkdirFailed dir depth =>
    have hadded : Invariant v (addEntries s
        ((missing s dir).filter fun p => p.length ≤ depth).toFinset) := by
      apply h.withEntries
      · intro hmem
        exact (mem_missing.mp (List.mem_of_mem_filter (List.mem_toFinset.mp hmem))).2.1 rfl
      · intro p hp q hq hpre
        obtain ⟨hmem, hdepth⟩ := List.mem_filter.mp (List.mem_toFinset.mp hp)
        refine Finset.mem_union.mpr ((missing_closed hmem hq hpre).imp_right fun hq => ?_)
        refine List.mem_toFinset.mpr (List.mem_filter.mpr ⟨hq, ?_⟩)
        exact decide_eq_true (hpre.length_le.trans (of_decide_eq_true hdepth))
    refine hadded.settled (fun f hf => ?_) fun hok => nomatch hok
    have hw : s.creating dir = some .creating := he
    exact nomatch hw.symm.trans hf
  | mkdirReturned dir =>
    obtain ⟨w, hw, hmade⟩ := (Option.any_eq_true _ _).mp he
    cases w with
    | made first => exact h.mkdirReturned hw
    | creating => exact nomatch hmade
    | syncing rest => exact nomatch hmade
  | fsyncCreated dir outcome =>
    obtain ⟨w, hw, hsyncing⟩ := (Option.any_eq_true _ _).mp he.1
    match w with
    | .syncing (d :: rest) =>
      apply h.fsyncCreated hw
      intro hun
      rw [he.2 hun] at hv
      exact nomatch hv
    | .syncing [] => exact nomatch hsyncing
    | .creating => exact nomatch hsyncing
    | .made _ => exact nomatch hsyncing
  | rename n ok =>
    obtain ⟨c, hc, hready⟩ := (Option.any_eq_true _ _).mp he
    have hphase : c.phase = .ready := of_decide_eq_true hready
    simp only [next, hc]
    cases ok with
    | false =>
      exact h.withPhase fun _ _ => .idle (.inr rfl)
    | true =>
      have hsettled := (h.calls c (List.mem_of_getElem? hc)).settled (.inl hphase)
      have hadded : Invariant v (addEntries s {c.path}) := by
        apply h.withEntries
        · simp [Call.path]
        · intro p hp q hq hpre
          obtain rfl := Finset.mem_singleton.mp hp
          rcases List.prefix_concat_iff.mp hpre with rfl | hbelow
          · exact Finset.mem_union_right _ (Finset.mem_singleton_self _)
          · exact Finset.mem_union_left _ (h.closed _ hsettled.entry q hq hbelow)
      refine hadded.withPhase fun c' hc' => ?_
      obtain rfl := Option.some.inj (hc.symm.trans hc')
      refine ⟨fun _ => hsettled.congr Finset.subset_union_left rfl rfl, fun _ => ?_, ?_, ?_⟩
      · exact Finset.mem_union_right _ (Finset.mem_singleton_self _)
      all_goals simp
  | fsyncLeaf n outcome =>
    obtain ⟨c, hc, hrenamed⟩ := (Option.any_eq_true _ _).mp he.1
    have hphase : c.phase = .renamed := of_decide_eq_true hrenamed
    have hcall := h.calls c (List.mem_of_getElem? hc)
    simp only [next, hc]
    by_cases hfailed : outcome = .failed
    · rw [if_pos hfailed]
      exact h.withPhase fun _ _ => .idle (.inr rfl)
    · have hok : outcome = .ok := by
        cases outcome with
        | ok => rfl
        | unsupported =>
          rw [he.2 rfl] at hv
          exact nomatch hv
        | failed => exact absurd rfl hfailed
      rw [if_neg hfailed, if_pos hok]
      have hentry := hcall.renamed hphase
      refine (h.synced c.dir).withPhase fun c' hc' => ?_
      obtain rfl := Option.some.inj (hc.symm.trans hc')
      refine ⟨fun _ => (hcall.settled (.inr (.inl hphase))).congr (Finset.Subset.refl _) rfl rfl,
        by simp, fun _ => ?_, fun _ ho q hq hpre => ?_⟩
      · exact mem_fsyncDirectory hentry (List.dropLast_concat)
      · simp only [fsyncDirectory, if_pos ho]
        exact h.closed _ hentry q hq hpre
  | restart => exact h.restart
  | powerCut => exact h.powerCut

theorem reachable_invariant (hv : v.syncsDirectories = true) (h : Reachable (machine v) s) :
    Invariant v s :=
  h.invariant (fun _ => invariant_initial) fun _ _ => invariant_step hv

/-! ## What a commit promises -/

def Kept (s : State α) (path : List α) : Prop := ∀ q, q ≠ [] → q <+: path → q ∈ s.durable

theorem durable_next (h : Invariant v s) {e : Event α} (he : e ≠ .powerCut) :
    s.durable ⊆ (next v s e).durable := by
  cases e with
  | commitTemporaryFile | mkdir | mkdirFailed | restart => exact Finset.Subset.refl _
  | mkdirReturned dir =>
    simp only [next]
    split
    · split <;> exact Finset.Subset.refl _
    · exact Finset.Subset.refl _
  | fsyncCreated dir outcome =>
    simp only [next]
    split
    · next d rest hw =>
      by_cases hfailed : outcome = .failed
      · rw [if_pos hfailed]
        exact Finset.Subset.refl _
      · rw [if_neg hfailed]
        have hsynced : s.durable ⊆ (if outcome = .ok then fsyncDirectory v s d else s).durable := by
          by_cases hok : outcome = .ok
          · rw [if_pos hok]
            exact durable_fsyncDirectory v s d h.durable
          · rw [if_neg hok]
        by_cases hlast : rest = []
        · rw [if_pos hlast]
          exact hsynced
        · rw [if_neg hlast]
          exact hsynced
    · exact Finset.Subset.refl _
  | rename n ok =>
    simp only [next]
    split
    · cases ok <;> exact Finset.Subset.refl _
    · exact Finset.Subset.refl _
  | fsyncLeaf n outcome =>
    simp only [next]
    split
    · next c hc =>
      by_cases hfailed : outcome = .failed
      · rw [if_pos hfailed]
        exact Finset.Subset.refl _
      · rw [if_neg hfailed]
        by_cases hok : outcome = .ok
        · rw [if_pos hok]
          exact durable_fsyncDirectory v s c.dir h.durable
        · rw [if_neg hok]
          exact Finset.Subset.refl _
    · exact Finset.Subset.refl _
  | powerCut => exact absurd rfl he

theorem kept_next (h : Invariant v s) {path : List α} (hkept : Kept s path) (e : Event α) :
    Kept (next v s e) path := by
  intro q hq hpre
  by_cases he : e = .powerCut
  · subst he
    refine Finset.mem_filter.mpr ⟨h.durable (hkept q hq hpre), ?_⟩
    simp only [survives, List.all_eq_true, List.mem_inits, Bool.or_eq_true, decide_eq_true_eq]
    exact fun r hr => or_iff_not_imp_left.mpr fun hne => hkept r hne (hr.trans hpre)
  · exact durable_next h he (hkept q hq hpre)

/-- Nobody else's unfinished creation is above a leaf, and nothing that was left behind. -/
def Unshared (s : State α) (dir : List α) : Prop :=
  ∀ p, p <+: dir → p ∉ s.unsynced ∧
    ∀ leaf f, leaf ≠ dir → Pending s leaf f → f <+: p → ¬ p <+: leaf

/-- **Main result.** A slice whose commit has returned is there for good, whatever fails or is cut
off later: on a journal that commits in sequence always, and elsewhere if nobody else's creation of
a directory above it was still unfinished. -/
theorem committed_survives (hv : v.syncsDirectories = true) (hs : Reachable (machine v) s)
    {c : Call α} (hc : c ∈ s.calls) (hcommitted : c.phase = .committed)
    (hsafe : v.ordered = true ∨ Unshared s c.dir) {s' : State α} (h : Steps (machine v) s s') :
    ∀ q, q ≠ [] → q <+: c.path → q ∈ s'.entries := by
  have hinv := reachable_invariant hv hs
  have hcall := hinv.calls c hc
  have hsettled := hcall.settled (.inr (.inr hcommitted))
  have hkept : Kept s c.path := by
    intro q hq hpre
    rcases hsafe with ho | hsafe
    · exact hcall.ordered hcommitted ho q hq hpre
    · rcases List.prefix_concat_iff.mp hpre with rfl | hbelow
      · exact hcall.committed hcommitted
      · by_contra hnot
        obtain ⟨hsynced, hothers⟩ := hsafe q hbelow
        rcases hinv.exposed q (hinv.closed _ hsettled.entry q hq hbelow) hnot with
          hun | ⟨leaf, f, hf, hfirst, hleaf⟩
        · exact hsynced hun
        · by_cases hown : leaf = c.dir
          · subst hown
            rcases hf with hf | hf
            · rw [hsettled.unproven] at hf
              exact nomatch hf
            · rcases hsettled.work _ hf with hwork | hwork <;> exact nomatch hwork
          · exact hothers leaf f hown hf hfirst hleaf
  have hstable : Kept s' c.path :=
    h.stable (fun s e hr hk _ => kept_next (reachable_invariant hv hr) hk e) hs hkept
  intro q hq hpre
  exact (reachable_invariant hv (h.reachable hs)).durable (hstable q hq hpre)

def plainVolume : Volume ℕ := ⟨[0], false, true, List.cons_ne_nil _ _⟩

def mounted : State ℕ := ⟨{[0]}, {[0]}, ∅, fun _ => none, fun _ => none, []⟩

def sharedShard : List (Event ℕ) :=
  [.commitTemporaryFile [0, 1, 2] 8, .mkdir [0, 1, 2], .commitTemporaryFile [0, 1, 2] 9,
    .mkdirReturned [0, 1, 2], .fsyncCreated [0, 1, 2] .ok, .fsyncCreated [0, 1, 2] .ok,
    .fsyncCreated [0, 1, 2] .ok, .rename 1 true, .fsyncLeaf 1 .ok]

/-- Two slices in a new shard: the second one waits for what the first one creates. -/
theorem committed_survives_shared :
    [0, 1, 2, 9] ∈ (next plainVolume (sharedShard.foldl (next plainVolume) mounted)
      .powerCut).entries := by
  have hrun : Reachable (machine plainVolume) (sharedShard.foldl (next plainVolume) mounted) := by
    have hclosed : ∀ q : List ℕ, q ≠ [] → q <+: [0] → q = [0] := by
      intro q hq hpre
      have hmem := (List.mem_inits q [0]).mpr hpre
      simpa [hq] using hmem
    have hmounted : Initial plainVolume mounted :=
      ⟨rfl, by decide, by simpa [mounted] using hclosed, by decide, fun _ => rfl, fun _ => rfl, rfl⟩
    exact (Reachable.initial hmounted).run _ (by decide)
  have hcut : Steps (machine plainVolume) (sharedShard.foldl (next plainVolume) mounted)
      (next plainVolume (sharedShard.foldl (next plainVolume) mounted) .powerCut) :=
    Steps.step (.refl _) (show (machine plainVolume).Enabled _ Event.powerCut from trivial)
  refine committed_survives rfl hrun (c := ⟨[0, 1, 2], 9, .committed⟩) (by decide) rfl (.inr ?_)
    hcut _ (List.cons_ne_nil _ _) (List.prefix_refl _)
  intro p hp
  refine ⟨?_, fun leaf f _ hf => ?_⟩
  · have : (sharedShard.foldl (next plainVolume) mounted).unsynced = ∅ := by decide
    simp [this]
  · exfalso
    simp [sharedShard, next, settle, setWork, setUnproven, mounted, Pending, missing,
      fsyncCreatedPath, fsyncDirectory, plainVolume, setPhase, addEntries] at hf

end DurableDirectories
