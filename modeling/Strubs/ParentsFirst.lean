import Strubs.NamespaceRestore
import Strubs.ParentChains

/-! # Parents before their children

The snapshot writer and the restore each have a copy of the function that puts containers in
order. A copy emits every container once, after its parent unless the two are on a cycle. -/
namespace ParentsFirst

open InsertionMap NamespaceRecord ParentChains Relation

variable {τ : Type*} (id : τ → Text) (cid : τ → Option Text)

/-- What a run has emitted, as a set of ids and as a list. -/
structure Order (τ : Type*) where
  emitted : List Text
  out : List τ

def Order.emit (s : Order τ) (c : τ) : Order τ := ⟨s.emitted ++ [id c], s.out ++ [c]⟩

def byId (containers : List τ) : Table Text τ := Table.ofList (containers.map fun c => (id c, c))

/-- An empty id refers to no container. -/
def parentId (c : τ) : Option Text := (cid c).filter (· ≠ [])

def parentOf (containers : List τ) (c : τ) : Option τ :=
  (parentId cid c).bind (byId id containers).get

/-- No result is a visit that goes deeper than `depth`. -/
def Snapshot.visit (parent : τ → Option τ) : ℕ → τ → List Text → Order τ → Option (Order τ)
  | 0, _, _, _ => none
  | depth + 1, c, seen, s =>
    if id c ∈ s.emitted then some s
    else if id c ∈ seen then some (s.emit id c)
    else do
      let seen := id c :: seen
      let s ← match parent c with
        | some p => Snapshot.visit parent depth p seen s
        | none => some s
      return if id c ∈ s.emitted then s else s.emit id c

def Snapshot.orderParentsFirst (depth : ℕ) (containers : List τ) : Option (List τ) :=
  (containers.foldlM
    (fun s c => Snapshot.visit id (parentOf id cid containers) depth c [] s) ⟨[], []⟩).map
      Order.out

def Restore.visit (parent : τ → Option τ) : ℕ → τ → List Text → Order τ → Option (Order τ)
  | 0, _, _, _ => none
  | depth + 1, c, seen, s =>
    if id c ∈ s.emitted ∨ id c ∈ seen then
      some (if id c ∉ s.emitted then s.emit id c else s)
    else do
      let seen := id c :: seen
      let s ← match parent c with
        | some p => Restore.visit parent depth p seen s
        | none => some s
      return if id c ∉ s.emitted then s.emit id c else s

def Restore.orderParentsFirst (depth : ℕ) (containers : List τ) : Option (List τ) :=
  (containers.foldlM
    (fun s c => Restore.visit id (parentOf id cid containers) depth c [] s) ⟨[], []⟩).map
      Order.out

/-! ## What an order is -/

/-- A container of the list and its parent in the list. -/
def IsParent (containers : List τ) (c p : τ) : Prop :=
  p ∈ containers ∧ parentId cid c = some (id p)

/-- Whatever its chain of parents comes to, it is no cycle. -/
def Rooted (containers : List τ) (c : τ) : Prop :=
  ∀ a, ReflTransGen (IsParent id cid containers) c a → ¬OnCycle (IsParent id cid containers) a

structure Ordered (containers out : List τ) : Prop where
  perm : out.Perm containers
  after : ∀ c ∈ containers, Rooted id cid containers c →
    ∀ p, IsParent id cid containers c p → [p, c].Sublist out

/-! ## One visit -/

section

variable {id} {cid} {containers : List τ}

theorem parentOf_eq_some_iff (hnodup : (containers.map id).Nodup) {c p : τ} :
    parentOf id cid containers c = some p ↔ IsParent id cid containers c p := by
  have hkeys : ((containers.map fun c => (id c, c)).map Prod.fst).Nodup := by
    rw [List.map_map]
    exact hnodup
  simp only [parentOf, byId, IsParent, Option.bind_eq_some_iff, get_ofList_iff hkeys]
  constructor
  · rintro ⟨k, hk, hmem⟩
    obtain ⟨c', hc', heq⟩ := List.mem_map.mp hmem
    obtain ⟨rfl, rfl⟩ := Prod.mk.inj heq
    exact ⟨hc', hk⟩
  · rintro ⟨hp, hk⟩
    exact ⟨id p, hk, List.mem_map_of_mem hp⟩

theorem isParent_unique (hnodup : (containers.map id).Nodup) :
    Relator.RightUnique (IsParent id cid containers) := by
  intro c p p' h h'
  exact List.inj_on_of_nodup_map hnodup h.1 h'.1 (Option.some.inj (h.2.symm.trans h'.2))

/-- The two copies make their checks in another order, and do the same. -/
theorem visit_eq (parent : τ → Option τ) :
    Restore.visit id parent = Snapshot.visit id parent := by
  funext depth
  induction depth with
  | zero => rfl
  | succ depth ih =>
    funext c seen s
    simp only [Restore.visit, Snapshot.visit, ih, ite_not]
    by_cases hemitted : id c ∈ s.emitted
    · simp [hemitted]
    · by_cases hseen : id c ∈ seen
      · simp [hemitted, hseen]
      · simp [hemitted, hseen]

/-- What holds between two visits. -/
structure Kept (containers : List τ) (id : τ → Text) (cid : τ → Option Text) (s : Order τ) :
    Prop where
  emitted : s.emitted = s.out.map id
  nodup : s.emitted.Nodup
  subset : s.out ⊆ containers
  after : ∀ c ∈ s.out, ¬OnCycle (IsParent id cid containers) c →
    ∀ p, IsParent id cid containers c p → [p, c].Sublist s.out

theorem kept_empty : Kept containers id cid ⟨[], []⟩ :=
  ⟨rfl, List.nodup_nil, List.nil_subset _, by simp⟩

theorem Kept.mem_out_iff {s : Order τ} (h : Kept containers id cid s)
    (hnodup : (containers.map id).Nodup) {c : τ} (hc : c ∈ containers) :
    c ∈ s.out ↔ id c ∈ s.emitted := by
  rw [h.emitted, List.mem_map]
  constructor
  · exact fun hmem => ⟨c, hmem, rfl⟩
  · rintro ⟨c', hc', heq⟩
    rwa [← List.inj_on_of_nodup_map hnodup (h.subset hc') hc heq]

theorem Kept.emit {s : Order τ} (h : Kept containers id cid s) {c : τ} (hc : c ∈ containers)
    (hnew : id c ∉ s.emitted) (hparent : ¬OnCycle (IsParent id cid containers) c →
      ∀ p, IsParent id cid containers c p → p ∈ s.out) :
    Kept containers id cid (s.emit id c) where
  emitted := by simp [Order.emit, h.emitted]
  nodup := by
    rw [Order.emit, ← List.concat_eq_append]
    exact h.nodup.concat hnew
  subset := List.append_subset.mpr ⟨h.subset, by simpa using hc⟩
  after := by
    intro c' hc' hcycle p hp
    rcases List.mem_append.mp hc' with hc' | hc'
    · exact (h.after c' hc' hcycle p hp).trans (List.sublist_append_left _ _)
    · obtain rfl := List.mem_singleton.mp hc'
      have hfirst : [p].Sublist s.out := List.singleton_sublist.mpr (hparent hcycle p hp)
      exact hfirst.append (List.Sublist.refl [c'])

/-- What a visit leaves behind. -/
structure Visited (containers : List τ) (id : τ → Text) (cid : τ → Option Text)
    (s : Order τ) (c : τ) (s' : Order τ) : Prop where
  kept : Kept containers id cid s'
  subset : s.out ⊆ s'.out
  mem : c ∈ s'.out

theorem Kept.visited {s : Order τ} (h : Kept containers id cid s) {c : τ} (hc : c ∈ containers)
    (hnew : id c ∉ s.emitted) (hparent : ¬OnCycle (IsParent id cid containers) c →
      ∀ p, IsParent id cid containers c p → p ∈ s.out) :
    Visited containers id cid s c (s.emit id c) :=
  ⟨h.emit hc hnew hparent, List.subset_append_left _ _, by simp [Order.emit]⟩

/-- Those that are seen are below the one that is visited, so one that is seen again is on a
cycle, and no visit goes deeper than there are containers. -/
theorem visit_spec (hnodup : (containers.map id).Nodup) {depth : ℕ} {c : τ} (seen : List Text)
    {s : Order τ} (h : Kept containers id cid s) (hc : c ∈ containers) (hseen : seen.Nodup)
    (hsubset : seen ⊆ containers.map id)
    (hbelow : ∀ x ∈ containers, id x ∈ seen → TransGen (IsParent id cid containers) x c)
    (hdepth : containers.length < depth + seen.length) :
    ∃ s', Snapshot.visit id (parentOf id cid containers) depth c seen s = some s' ∧
      Visited containers id cid s c s' := by
  induction depth generalizing c seen s with
  | zero =>
    have hlength := (List.subperm_of_subset hseen hsubset).length_le
    rw [List.length_map] at hlength
    omega
  | succ depth ih =>
    by_cases hemitted : id c ∈ s.emitted
    · exact ⟨s, by simp [Snapshot.visit, hemitted],
        h, List.Subset.refl _, (h.mem_out_iff hnodup hc).mpr hemitted⟩
    by_cases hagain : id c ∈ seen
    · refine ⟨s.emit id c, by simp [Snapshot.visit, hemitted, hagain],
        h.visited hc hemitted fun hcycle => ?_⟩
      exact absurd (hbelow c hc hagain) hcycle
    cases hparent : parentOf id cid containers c with
    | none =>
      refine ⟨s.emit id c, by simp [Snapshot.visit, hemitted, hagain, hparent],
        h.visited hc hemitted fun _ p hp => ?_⟩
      rw [(parentOf_eq_some_iff hnodup).mpr hp] at hparent
      cases hparent
    | some p =>
      have hp := (parentOf_eq_some_iff hnodup).mp hparent
      obtain ⟨s', hvisit, hkept, hgrown, hpmem⟩ := ih (id c :: seen) h hp.1
        (List.nodup_cons.mpr ⟨hagain, hseen⟩)
        (List.cons_subset.mpr ⟨List.mem_map_of_mem hc, hsubset⟩)
        (by
          intro x hx hmem
          rcases List.mem_cons.mp hmem with heq | hmem
          · obtain rfl := List.inj_on_of_nodup_map hnodup hx hc heq
            exact .single hp
          · exact (hbelow x hx hmem).tail hp)
        (by
          rw [List.length_cons]
          omega)
      by_cases hdone : id c ∈ s'.emitted
      · exact ⟨s', by simp [Snapshot.visit, hemitted, hagain, hparent, hvisit, hdone],
          hkept, hgrown, (hkept.mem_out_iff hnodup hc).mpr hdone⟩
      · have hlast : Visited containers id cid s' c (s'.emit id c) := by
          refine hkept.visited hc hdone fun _ p' hp' => ?_
          rwa [isParent_unique hnodup hp' hp]
        exact ⟨s'.emit id c, by simp [Snapshot.visit, hemitted, hagain, hparent, hvisit, hdone],
          hlast.kept, List.Subset.trans hgrown hlast.subset, hlast.mem⟩

/-- A visit that has a result has the same one however much deeper it may go. -/
theorem visit_mono {parent : τ → Option τ} {depth depth' : ℕ} (hle : depth ≤ depth') {c : τ}
    {seen : List Text} {s s' : Order τ} (h : Snapshot.visit id parent depth c seen s = some s') :
    Snapshot.visit id parent depth' c seen s = some s' := by
  induction depth generalizing depth' c seen s s' with
  | zero => cases h
  | succ depth ih =>
    obtain ⟨more, rfl⟩ := Nat.exists_eq_add_of_le' hle
    rw [Nat.add_succ, Snapshot.visit]
    rw [Snapshot.visit] at h
    by_cases hemitted : id c ∈ s.emitted
    · simpa [hemitted] using h
    by_cases hseen : id c ∈ seen
    · simpa [hemitted, hseen] using h
    simp only [hemitted, hseen, if_false] at h ⊢
    cases hparent : parent c with
    | none => simpa [hparent] using h
    | some p =>
      simp only [hparent] at h ⊢
      obtain ⟨s₁, hs₁, hlast⟩ := Option.bind_eq_some_iff.mp h
      exact Option.bind_eq_some_iff.mpr ⟨s₁, ih (by omega) hs₁, hlast⟩

/-! ## The whole run -/

theorem run_spec (hnodup : (containers.map id).Nodup) {depth : ℕ}
    (hdepth : containers.length < depth) {rest : List τ} (hrest : rest ⊆ containers)
    {s : Order τ} (h : Kept containers id cid s) :
    ∃ s', rest.foldlM
        (fun s c => Snapshot.visit id (parentOf id cid containers) depth c [] s) s = some s' ∧
      Kept containers id cid s' ∧ s.out ⊆ s'.out ∧ rest ⊆ s'.out := by
  induction rest generalizing s with
  | nil => exact ⟨s, rfl, h, List.Subset.refl _, List.nil_subset _⟩
  | cons c rest ih =>
    obtain ⟨hc, hrest⟩ := List.cons_subset.mp hrest
    obtain ⟨s₁, hvisit, hkept₁, hgrown₁, hmem⟩ := visit_spec hnodup [] h hc
      List.nodup_nil (List.nil_subset _) (by simp) (by simpa using hdepth)
    obtain ⟨s₂, hrun, hkept₂, hgrown₂, hall⟩ := ih hrest hkept₁
    refine ⟨s₂, ?_, hkept₂, List.Subset.trans hgrown₁ hgrown₂,
      List.cons_subset.mpr ⟨hgrown₂ hmem, hall⟩⟩
    rw [List.foldlM_cons, hvisit]
    exact hrun

variable (cid) in
theorem run_ordered (hnodup : (containers.map id).Nodup) :
    ∃ s, containers.foldlM (fun s c =>
        Snapshot.visit id (parentOf id cid containers) (containers.length + 1) c [] s) ⟨[], []⟩ =
          some s ∧
      Ordered id cid containers s.out := by
  obtain ⟨s, hrun, hkept, -, hall⟩ := run_spec hnodup (Nat.lt_succ_self containers.length)
    (List.Subset.refl containers) (kept_empty : Kept containers id cid _)
  have hout : s.out.Nodup := List.Nodup.of_map id (hkept.emitted ▸ hkept.nodup)
  refine ⟨s, hrun, ?_, fun c hc hrooted p hp => ?_⟩
  · exact (List.perm_ext_iff_of_nodup hout (List.Nodup.of_map id hnodup)).mpr fun c =>
      ⟨fun hc => hkept.subset hc, fun hc => hall hc⟩
  · exact hkept.after c (hall hc) (hrooted c .refl) p hp

theorem run_mono {parent : τ → Option τ} {depth depth' : ℕ} (hle : depth ≤ depth')
    {rest : List τ} {s s' : Order τ}
    (h : rest.foldlM (fun s c => Snapshot.visit id parent depth c [] s) s = some s') :
    rest.foldlM (fun s c => Snapshot.visit id parent depth' c [] s) s = some s' := by
  induction rest generalizing s with
  | nil => exact h
  | cons c rest ih =>
    rw [List.foldlM_cons] at h ⊢
    obtain ⟨s₁, hvisit, hrun⟩ := Option.bind_eq_some_iff.mp h
    exact Option.bind_eq_some_iff.mpr ⟨s₁, visit_mono hle hvisit, ih hrun⟩

theorem orderParentsFirst_eq (depth : ℕ) :
    Restore.orderParentsFirst id cid depth containers =
      Snapshot.orderParentsFirst id cid depth containers := by
  rw [Restore.orderParentsFirst, Snapshot.orderParentsFirst, visit_eq]

end

/-- Both copies come to an end, with the same list, whatever refers to whatever. -/
theorem orderParentsFirst_ordered {containers : List τ} (hnodup : (containers.map id).Nodup) :
    ∃ out, Ordered id cid containers out ∧ ∀ depth, containers.length < depth →
      Snapshot.orderParentsFirst id cid depth containers = some out ∧
      Restore.orderParentsFirst id cid depth containers = some out := by
  obtain ⟨s, hrun, hordered⟩ := run_ordered cid hnodup
  refine ⟨s.out, hordered, fun depth hdepth => ?_⟩
  have hsnapshot : Snapshot.orderParentsFirst id cid depth containers = some s.out := by
    rw [Snapshot.orderParentsFirst, run_mono hdepth hrun]
    rfl
  exact ⟨hsnapshot, orderParentsFirst_eq depth ▸ hsnapshot⟩

/-- A cycle with a container below it, a container whose parent is missing, and one that comes
before both of its ancestors. -/
def broken : List (Text × Option Text) :=
  [(['d'], some ['c']), (['c'], some ['a']), (['a'], none), (['z'], some ['x']),
    (['x'], some ['y']), (['y'], some ['x']), (['o'], some ['m'])]

theorem orderParentsFirst_broken : (broken.map Prod.fst).Nodup ∧
    ∃ out, Ordered Prod.fst Prod.snd broken out ∧ ∀ depth, broken.length < depth →
      Snapshot.orderParentsFirst Prod.fst Prod.snd depth broken = some out ∧
      Restore.orderParentsFirst Prod.fst Prod.snd depth broken = some out := by
  have hnodup : (broken.map Prod.fst).Nodup := by decide
  exact ⟨hnodup, orderParentsFirst_ordered Prod.fst Prod.snd hnodup⟩

example : (Snapshot.orderParentsFirst Prod.fst Prod.snd 8 broken).map (·.map Prod.fst) =
    some [['a'], ['c'], ['d'], ['x'], ['y'], ['z'], ['o']] := by decide

/-! ## What the writer writes and the restore writes back

Both are modelled with one function, over keys that are printed as these ids. -/

section

variable {κ : Type*} {key : τ → κ} {print : κ → Text}

/-- What has been emitted is kept under the printed keys. -/
def Printed (key : τ → κ) (print : κ → Text) (s : Order τ) : Prop :=
  s.emitted = s.out.map fun c => print (key c)

theorem Printed.emit {s : Order τ} (h : Printed key print s) (c : τ) :
    Printed key print (s.emit (fun c => print (key c)) c) := by
  rw [Printed] at h ⊢
  simp [Order.emit, h]

theorem Printed.mem_emitted_iff (hprint : Function.Injective print) {s : Order τ}
    (h : Printed key print s) {c : τ} :
    print (key c) ∈ s.emitted ↔ key c ∈ s.out.map key := by
  rw [h, ← List.mem_map_of_injective hprint, List.map_map]
  rfl

theorem nodup_printed {containers : List τ} (hprint : Function.Injective print)
    (hnodup : (containers.map key).Nodup) : (containers.map fun c => print (key c)).Nodup := by
  have h := hnodup.map hprint
  rwa [List.map_map] at h

variable [DecidableEq κ] (ref : τ → Option κ) {containers : List τ}

theorem Printed.emit_writer (hprint : Function.Injective print) {s : Order τ}
    (h : Printed key print s) (c : τ) :
    SnapshotWriter.emit key s.out c =
      (if print (key c) ∈ s.emitted then s else s.emit (fun c => print (key c)) c).out := by
  rw [SnapshotWriter.emit]
  by_cases hemitted : print (key c) ∈ s.emitted
  · rw [if_pos hemitted, if_pos ((h.mem_emitted_iff hprint).mp hemitted)]
  · rw [if_neg hemitted, if_neg fun hmem => hemitted ((h.mem_emitted_iff hprint).mpr hmem)]
    rfl

theorem visit_writer (hprint : Function.Injective print) {parent : τ → Option τ} {depth : ℕ}
    {c : τ} (seen : List κ) {s s' : Order τ} (hs : Printed key print s)
    (h : Snapshot.visit (fun c => print (key c)) parent depth c (seen.map print) s = some s') :
    SnapshotWriter.visit key parent depth c seen s.out = s'.out ∧ Printed key print s' := by
  induction depth generalizing c seen s s' with
  | zero => cases h
  | succ depth ih =>
    have hemitted : print (key c) ∈ s.emitted ↔ key c ∈ s.out.map key := hs.mem_emitted_iff hprint
    have hagain : print (key c) ∈ seen.map print ↔ key c ∈ seen :=
      List.mem_map_of_injective hprint
    rw [Snapshot.visit] at h
    have hlast : ∀ {s₁ : Order τ}, Printed key print s₁ →
        some (if print (key c) ∈ s₁.emitted then s₁ else s₁.emit (fun c => print (key c)) c) =
          some s' →
        SnapshotWriter.emit key s₁.out c = s'.out ∧ Printed key print s' := by
      intro s₁ hs₁ heq
      obtain rfl := Option.some.inj heq
      refine ⟨hs₁.emit_writer hprint c, ?_⟩
      split
      · exact hs₁
      · exact hs₁.emit c
    rw [SnapshotWriter.visit]
    by_cases hdone : print (key c) ∈ s.emitted
    · rw [if_pos (Or.inl (hemitted.mp hdone))]
      exact hlast hs (by simpa [hdone] using h)
    by_cases hseen : key c ∈ seen
    · rw [if_pos (Or.inr hseen)]
      exact hlast hs (by simpa [hdone, hagain, hseen] using h)
    rw [if_neg (not_or.mpr ⟨fun hmem => hdone (hemitted.mpr hmem), hseen⟩)]
    simp only [hdone, hagain, hseen, if_false] at h
    cases hparent : parent c with
    | none =>
      simp only [hparent] at h
      exact hlast hs (by simpa [hdone] using h)
    | some p =>
      simp only [hparent] at h
      obtain ⟨s₁, hvisit, hrest⟩ := Option.bind_eq_some_iff.mp h
      rw [← List.map_cons] at hvisit
      obtain ⟨hout, hs₁⟩ := ih (key c :: seen) hs hvisit
      simp only [hout]
      exact hlast hs₁ hrest

theorem parentOf_writer (hprint : Function.Injective print)
    (hnodup : (containers.map key).Nodup) (hne : ∀ c ∈ containers, print (key c) ≠ []) :
    parentOf (fun c => print (key c)) (fun c => (ref c).map print) containers =
      fun c => (ref c).bind (Table.ofList (containers.map fun c => (key c, c))).get := by
  have hprinted := nodup_printed hprint hnodup
  have hkeys : ((containers.map fun c => (key c, c)).map Prod.fst).Nodup := by
    rw [List.map_map]
    exact hnodup
  funext c
  apply Option.ext
  intro p
  rw [parentOf_eq_some_iff hprinted, IsParent, parentId, Option.bind_eq_some_iff]
  constructor
  · rintro ⟨hp, href⟩
    obtain ⟨hmap, -⟩ := Option.filter_eq_some_iff.mp href
    obtain ⟨k, hk, heq⟩ := Option.map_eq_some_iff.mp hmap
    obtain rfl := hprint heq
    exact ⟨key p, hk, (get_ofList_iff hkeys).mpr (List.mem_map_of_mem hp)⟩
  · rintro ⟨k, hk, hget⟩
    obtain ⟨p', hp', heq⟩ := List.mem_map.mp ((get_ofList_iff hkeys).mp hget)
    obtain ⟨rfl, rfl⟩ := Prod.mk.inj heq
    exact ⟨hp', by simp [hk, hne p' hp']⟩

theorem run_writer (hprint : Function.Injective print) {parent : τ → Option τ} {depth : ℕ}
    {rest : List τ} {s s' : Order τ} (hs : Printed key print s)
    (h : rest.foldlM (fun s c =>
      Snapshot.visit (fun c => print (key c)) parent depth c [] s) s = some s') :
    rest.foldl (fun out c => SnapshotWriter.visit key parent depth c [] out) s.out = s'.out := by
  induction rest generalizing s with
  | nil =>
    obtain rfl := Option.some.inj h
    rfl
  | cons c rest ih =>
    rw [List.foldlM_cons] at h
    obtain ⟨s₁, hvisit, hrun⟩ := Option.bind_eq_some_iff.mp h
    obtain ⟨hout, hs₁⟩ := visit_writer hprint [] hs hvisit
    rw [List.foldl_cons, hout]
    exact ih hs₁ hrun

/-- The containers of a snapshot and of a restore are in the order of the two copies. -/
theorem ordered_writer (hprint : Function.Injective print) (hnodup : (containers.map key).Nodup)
    (hne : ∀ c ∈ containers, print (key c) ≠ []) :
    Ordered (fun c => print (key c)) (fun c => (ref c).map print) containers
      (SnapshotWriter.orderParentsFirst key ref containers) := by
  have hprinted := nodup_printed hprint hnodup
  obtain ⟨s, hfold, hordered⟩ := run_ordered (fun c => (ref c).map print) hprinted
  rw [parentOf_writer ref hprint hnodup hne] at hfold
  have hprinted_nil : Printed key print ⟨[], []⟩ := rfl
  have hout := run_writer hprint hprinted_nil hfold
  rwa [SnapshotWriter.orderParentsFirst, hout]

end

theorem snapshot_ordered {α : Type*} [DecidableEq α] (ids : ContentRepository.ObjectIds α)
    {containers : List (ContentRepository.ContainerRow α)}
    (hnodup : (containers.map fun c => c.id).Nodup) :
    Ordered (fun c => ids.hex c.id) (fun c => c.cid.map ids.hex) containers
      (SnapshotWriter.orderParentsFirst ContentRepository.ContainerRow.id
        ContentRepository.ContainerRow.cid containers) :=
  ordered_writer _ ids.hex_injective hnodup fun c _ => ids.hex_ne_nil c.id

theorem restore_ordered {r : NamespaceRestore.Rebuilt} (h : r.replayed.WellKept)
    (hne : ∀ c ∈ r.final.containers.values, c.id ≠ []) :
    Ordered Container.id Container.cid r.final.containers.values r.orderedContainers := by
  have hnodup : (r.final.containers.values.map Container.id).Nodup := by
    rw [NamespaceRestore.final_containers, NamespaceRestore.values_ids h]
    exact nodup_keys _
  have hprint : Function.Injective fun t : Text => t := Function.injective_id
  have hordered := ordered_writer Container.cid hprint hnodup hne
  simp only [Option.map_id'] at hordered
  exact hordered

end ParentsFirst
