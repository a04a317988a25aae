import Strubs.NamespaceRestore
import Strubs.WorkQueue

/-! # Where every slice is

The disks are walked at the same time by as many workers as there are, up to twelve, and all of
them write what they find into one index. A directory that cannot be read is not an empty one, and
a disk that is not there is not an empty disk. -/
namespace SliceIndex

open InsertionMap NamespaceRecord RecordSynthesis StateMachine

/-! ## The platters -/

structure FleetVolume where
  id : ℕ
  isDeleted : Bool
  isMounted : Bool
  isStarted : Bool
  mountPoint : Option Text
  deriving DecidableEq

structure Platter where
  volumeId : ℕ
  mountPoint : Text
  deriving DecidableEq

inductive Refusal where
  | noVolumes
  | notMounted (volumeIds : List ℕ)
  deriving DecidableEq

/-- A volume that was mounted and has proved that it is one of ours. -/
def platterOf (v : FleetVolume) : Option Platter :=
  match v.mountPoint with
  | some mountPoint =>
    if v.isStarted && v.isMounted && !mountPoint.isEmpty then some ⟨v.id, mountPoint⟩ else none
  | none => none

def plattersOrRefuse (volumes : List FleetVolume) : Except Refusal (List Platter) :=
  let expected := volumes.filter (!·.isDeleted)
  let platters := expected.filterMap platterOf
  let missing := (expected.filter fun v => (platterOf v).isNone).map (·.id)
  if platters = [] ∧ missing = [] then .error .noVolumes
  else if missing ≠ [] then .error (.notMounted missing)
  else .ok platters

/-! ## The names of files -/

def isHex (c : Char) : Bool := c ∈ "0123456789abcdef".toList

/-- `/^[0-9a-f]{2}$/` -/
def isShard (name : Text) : Bool := name.length = 2 && name.all isHex

/-- `/^[0-9a-f]{24}\.\d+$/` -/
def isSliceFileName (name : Text) : Bool :=
  (name.take 24).length = 24 && (name.take 24).all isHex && name[24]? = some '.' &&
    !(name.drop 25).isEmpty && (name.drop 25).all Char.isDigit

def parseInt (digits : Text) : ℕ := digits.foldl (fun n c => 10 * n + (c.toNat - '0'.toNat)) 0

/-- The object and the slice that a file's name says. -/
def sliceOf (name : Text) : Option (Text × ℕ) :=
  if isSliceFileName name then some (name.take 24, parseInt (name.drop 25)) else none

/-! ## The walk -/

/-- What comes of reading a directory. -/
inductive Listing where
  | missing
  | unreadable
  | names (names : List Text)
  deriving DecidableEq

/-- The directories under `strubs`, by mount point. -/
abbrev Disks := Text → List Text → Listing

structure Directory where
  platter : Platter
  path : List Text
  deriving DecidableEq

structure Scan where
  index : Table Text Slots
  unreadable : List Directory
  files : ℕ

def noSlots : Slots := Vector.replicate maxSlices 0

/-- The first copy wins. A slot has sixteen bits. -/
def addEntry (volumeId : ℕ) (scan : Scan) (entry : Text) : Scan :=
  match sliceOf entry with
  | none => scan
  | some (id, sliceIndex) =>
    if maxSlices ≤ sliceIndex then scan
    else
      let slots := (scan.index.get id).getD noSlots
      { scan with
        index := scan.index.set id
          (if slot slots sliceIndex = 0 then slots.setIfInBounds sliceIndex ((volumeId + 1) % 65536)
            else slots)
        files := scan.files + 1 }

variable (disks : Disks)

def readdir (t : Directory) : Listing := disks t.platter.mountPoint t.path

def names (t : Directory) : List Text :=
  match readdir disks t with
  | .names names => names
  | _ => []

/-- The shards of a directory. The third one down has the files. -/
def below (t : Directory) : List Directory :=
  if t.path.length < 3 then
    ((names disks t).filter isShard).map fun name => { t with path := t.path ++ [name] }
  else []

def visit (scan : Scan) (t : Directory) : Scan :=
  match readdir disks t with
  | .missing => scan
  | .unreadable => { scan with unreadable := scan.unreadable ++ [t] }
  | .names names =>
    if t.path.length < 3 then scan else names.foldl (addEntry t.platter.volumeId) scan

def walk : WorkQueue.Walk Directory Scan where
  below := below disks
  visit := visit disks
  rank t := 3 - t.path.length
  rank_lt t c hc := by
    unfold below at hc
    split at hc
    · obtain ⟨name, _, rfl⟩ := List.mem_map.mp hc
      simp only [List.length_append, List.length_singleton]
      omega
    · cases hc

def concurrency : ℕ := 12

def root (p : Platter) : Directory := ⟨p, []⟩

def emptyScan : Scan := ⟨Table.empty, [], 0⟩

/-- The scan, whichever worker has its turn. -/
def machine (platters : List Platter) : Machine (WorkQueue.State Directory Scan) ℕ :=
  WorkQueue.machine (walk disks) concurrency (platters.map root) emptyScan

/-- The scan refuses to say anything if it has not seen everything. -/
def result (scan : Scan) : Except (List Directory) (Table Text Slots) :=
  if scan.unreadable ≠ [] then .error scan.unreadable else .ok scan.index

/-! ## What is on a platter -/

/-- The directories that a walk comes to. -/
inductive Reaches (disks : Disks) (mountPoint : Text) : List Text → Prop where
  | root : Reaches disks mountPoint []
  | shard {path names name} (h : Reaches disks mountPoint path) (hdepth : path.length < 3)
      (hnames : disks mountPoint path = .names names) (hname : name ∈ names)
      (hshard : isShard name) : Reaches disks mountPoint (path ++ [name])

/-- There is a file for this slice in one of the directories. -/
def Holds (p : Platter) (id : Text) (i : ℕ) : Prop :=
  ∃ path names entry, Reaches disks p.mountPoint path ∧ path.length = 3 ∧
    disks p.mountPoint path = .names names ∧ entry ∈ names ∧ sliceOf entry = some (id, i)

def Unreadable (p : Platter) : Prop :=
  ∃ path, Reaches disks p.mountPoint path ∧ disks p.mountPoint path = .unreadable

def slotOf (index : Table Text Slots) (id : Text) (i : ℕ) : ℕ :=
  ((index.get id).map (slot · i)).getD 0

variable {disks} {platters : List Platter} {p : Platter} {t t' : Directory}

theorem mem_below : t' ∈ below disks t ↔ t.path.length < 3 ∧ ∃ names name,
    readdir disks t = .names names ∧ name ∈ names ∧ isShard name ∧
      t' = ⟨t.platter, t.path ++ [name]⟩ := by
  unfold below
  by_cases hdepth : t.path.length < 3
  · rw [if_pos hdepth, List.mem_map]
    simp only [hdepth, true_and, names]
    constructor
    · rintro ⟨name, hname, rfl⟩
      obtain ⟨hname, hshard⟩ := List.mem_filter.mp hname
      cases hnames : readdir disks t with
      | names names =>
        rw [hnames] at hname
        exact ⟨names, name, rfl, hname, hshard, rfl⟩
      | _ => simp [hnames] at hname
    · rintro ⟨names, name, hnames, hname, hshard, rfl⟩
      rw [hnames]
      exact ⟨name, List.mem_filter.mpr ⟨hname, hshard⟩, rfl⟩
  · rw [if_neg hdepth]
    simp [hdepth]

/-! ## The walk comes everywhere -/

theorem reaches_of_mem_nodes (h : t' ∈ WorkQueue.nodes (walk disks) t)
    (ht : Reaches disks t.platter.mountPoint t.path) :
    t'.platter = t.platter ∧ Reaches disks t.platter.mountPoint t'.path := by
  generalize hrank : 3 - t.path.length = n
  induction n using Nat.strongRecOn generalizing t with
  | ind n ih =>
    rcases WorkQueue.mem_nodes.mp h with rfl | ⟨c, hc, hmem⟩
    · exact ⟨rfl, ht⟩
    · obtain ⟨hdepth, names, name, hnames, hname, hshard, rfl⟩ := mem_below.mp hc
      have hlt : 3 - (t.path ++ [name]).length < n := by
        simp only [List.length_append, List.length_singleton]
        omega
      exact @ih _ hlt ⟨t.platter, t.path ++ [name]⟩ hmem (.shard ht hdepth hnames hname hshard) rfl

theorem mem_nodes_of_reaches {path : List Text} (h : Reaches disks p.mountPoint path) :
    (⟨p, path⟩ : Directory) ∈ WorkQueue.nodes (walk disks) (root p) := by
  induction h with
  | root => exact WorkQueue.mem_nodes.mpr (.inl rfl)
  | shard h hdepth hnames hname hshard ih =>
    exact WorkQueue.mem_nodes_trans ih (mem_below.mpr ⟨hdepth, _, _, hnames, hname, hshard, rfl⟩)

/-- The directories of the platters. -/
theorem mem_walked : t ∈ (platters.map root).flatMap (WorkQueue.nodes (walk disks)) ↔
    t.platter ∈ platters ∧ Reaches disks t.platter.mountPoint t.path := by
  simp only [List.mem_flatMap, List.mem_map]
  constructor
  · rintro ⟨_, ⟨p, hp, rfl⟩, ht⟩
    obtain ⟨hplatter, hreaches⟩ := reaches_of_mem_nodes ht .root
    rw [hplatter]
    exact ⟨hp, hreaches⟩
  · rintro ⟨hp, hreaches⟩
    exact ⟨_, ⟨_, hp, rfl⟩, mem_nodes_of_reaches hreaches⟩

/-! ## What is found -/

/-- A file of this slice is in this directory. -/
def Finds (disks : Disks) (t : Directory) (id : Text) (i : ℕ) : Prop :=
  3 ≤ t.path.length ∧ ∃ names entry, readdir disks t = .names names ∧ entry ∈ names ∧
    sliceOf entry = some (id, i)

theorem slot_noSlots (i : ℕ) : slot noSlots i = 0 := by
  unfold slot noSlots
  rw [Vector.getElem?_replicate]
  split <;> rfl

theorem slot_set {slots : Slots} {i k x : ℕ} (hk : k < maxSlices) :
    slot (slots.setIfInBounds k x) i = if i = k then x else slot slots i := by
  unfold slot
  rw [Vector.getElem?_setIfInBounds]
  by_cases h : k = i
  · subst h
    simp [hk]
  · rw [if_neg h, if_neg (Ne.symm h)]

theorem slotOf_empty (id : Text) (i : ℕ) : slotOf Table.empty id i = 0 := rfl

/-- What the index says of the slices, where `found` is what has been found. -/
structure Knows (found : ℕ → Text → ℕ → Prop) (index : Table Text Slots) : Prop where
  covers : ∀ v id i, found v id i → slotOf index id i ≠ 0
  from_found : ∀ id i, slotOf index id i ≠ 0 → ∃ v, found v id i ∧ slotOf index id i = v + 1
  known : ∀ id, (index.get id).isSome → ∃ i, slotOf index id i ≠ 0

theorem addEntry_knows {found : ℕ → Text → ℕ → Prop} {scan : Scan} {volumeId : ℕ} {entry : Text}
    (h : Knows found scan.index) (hid : volumeId + 1 < 65536) :
    Knows (fun v id i => found v id i ∨ v = volumeId ∧ i < maxSlices ∧ sliceOf entry = some (id, i))
      (addEntry volumeId scan entry).index := by
  unfold addEntry
  cases hslice : sliceOf entry with
  | none => simpa using h
  | some file =>
    obtain ⟨id, k⟩ := file
    dsimp only
    by_cases hk : maxSlices ≤ k
    · rw [if_pos hk]
      refine ⟨fun v id' i hfound => h.covers v id' i ?_, fun id' i hne => ?_, h.known⟩
      · rcases hfound with hfound | ⟨_, hi, heq⟩
        · exact hfound
        · obtain ⟨_, rfl⟩ := Prod.mk.inj (Option.some.inj heq)
          omega
      · obtain ⟨v, hfound, heq⟩ := h.from_found id' i hne
        exact ⟨v, .inl hfound, heq⟩
    · rw [if_neg hk]
      have hk : k < maxSlices := by omega
      have hmod : (volumeId + 1) % 65536 = volumeId + 1 := Nat.mod_eq_of_lt hid
      -- the slot is taken by this copy if it is free
      have hslot : ∀ id' i, slotOf (scan.index.set id
          (if slot ((scan.index.get id).getD noSlots) k = 0 then
            ((scan.index.get id).getD noSlots).setIfInBounds k ((volumeId + 1) % 65536)
          else (scan.index.get id).getD noSlots)) id' i =
          if id' = id ∧ i = k ∧ slotOf scan.index id k = 0 then volumeId + 1
          else slotOf scan.index id' i := by
        intro id' i
        have hold : ∀ j, slot ((scan.index.get id).getD noSlots) j = slotOf scan.index id j := by
          intro j
          unfold slotOf
          cases scan.index.get id with
          | none => exact slot_noSlots j
          | some slots => rfl
        rw [slotOf, get_set]
        by_cases hid' : id' = id
        · rw [if_pos hid', hid', Option.map_some, Option.getD_some, hold]
          by_cases hfree : slotOf scan.index id k = 0
          · rw [if_pos hfree, slot_set hk, hmod, hold]
            simp [hfree]
          · rw [if_neg hfree, hold]
            simp [hfree]
        · rw [if_neg hid', if_neg (by simp [hid'])]
          rfl
      refine ⟨fun v id' i hfound => ?_, fun id' i hne => ?_, fun id' hsome => ?_⟩
      · rw [hslot]
        split
        · omega
        · next hother =>
          rcases hfound with hfound | ⟨_, _, heq⟩
          · exact h.covers v id' i hfound
          · obtain ⟨rfl, rfl⟩ := Prod.mk.inj (Option.some.inj heq)
            simpa using hother
      · rw [hslot] at hne ⊢
        split
        · next hnew =>
          obtain ⟨rfl, rfl, _⟩ := hnew
          exact ⟨volumeId, .inr ⟨rfl, hk, rfl⟩, rfl⟩
        · next hother =>
          rw [if_neg hother] at hne
          obtain ⟨v, hfound, heq⟩ := h.from_found id' i hne
          exact ⟨v, .inl hfound, heq⟩
      · by_cases hid' : id' = id
        · refine ⟨k, ?_⟩
          rw [hslot]
          split
          · omega
          · next hother => simpa [hid'] using hother
        · dsimp only at hsome
          rw [get_set_ne _ _ hid'] at hsome
          obtain ⟨i, hi⟩ := h.known id' hsome
          refine ⟨i, ?_⟩
          rw [hslot, if_neg (by simp [hid'])]
          exact hi

theorem Knows.congr {found found' : ℕ → Text → ℕ → Prop} {index : Table Text Slots}
    (h : Knows found index) (heq : ∀ v id i, found v id i ↔ found' v id i) :
    Knows found' index where
  covers v id i hfound := h.covers v id i ((heq v id i).mpr hfound)
  from_found id i hne := by
    obtain ⟨v, hfound, hv⟩ := h.from_found id i hne
    exact ⟨v, (heq v id i).mp hfound, hv⟩
  known := h.known

theorem addEntries_knows {found : ℕ → Text → ℕ → Prop} {scan : Scan} {volumeId : ℕ}
    {entries : List Text} (h : Knows found scan.index) (hid : volumeId + 1 < 65536) :
    Knows (fun v id i => found v id i ∨ v = volumeId ∧ i < maxSlices ∧
      ∃ entry ∈ entries, sliceOf entry = some (id, i))
      (entries.foldl (addEntry volumeId) scan).index := by
  induction entries generalizing found scan with
  | nil => exact h.congr (by simp)
  | cons entry entries ih =>
    refine (ih (addEntry_knows h hid)).congr fun v id i => ?_
    simp only [List.mem_cons, exists_eq_or_imp, or_assoc]
    tauto

theorem addEntries_unreadable (volumeId : ℕ) (entries : List Text) (scan : Scan) :
    (entries.foldl (addEntry volumeId) scan).unreadable = scan.unreadable := by
  induction entries generalizing scan with
  | nil => rfl
  | cons entry entries ih =>
    rw [List.foldl_cons, ih]
    unfold addEntry
    split
    · rfl
    · split <;> rfl

/-- What a scan knows after it has looked at these directories. -/
structure Scanned (disks : Disks) (visited : List Directory) (scan : Scan) : Prop where
  knows : Knows (fun v id i => ∃ t ∈ visited, t.platter.volumeId = v ∧ i < maxSlices ∧
    Finds disks t id i) scan.index
  unreadable : ∀ t, t ∈ scan.unreadable ↔ t ∈ visited ∧ readdir disks t = .unreadable

theorem visit_scanned {visited : List Directory} {scan : Scan} (h : Scanned disks visited scan)
    (hid : t.platter.volumeId + 1 < 65536) :
    Scanned disks (visited ++ [t]) (visit disks scan t) := by
  have hnothing : (∀ id i, ¬Finds disks t id i) → ∀ v id i,
      (∃ t' ∈ visited, t'.platter.volumeId = v ∧ i < maxSlices ∧ Finds disks t' id i) ↔
        ∃ t' ∈ visited ++ [t], t'.platter.volumeId = v ∧ i < maxSlices ∧ Finds disks t' id i := by
    intro hnone v id i
    simp [or_and_right, exists_or, hnone]
  unfold visit
  cases hread : readdir disks t with
  | missing =>
    have hnone : ∀ id i, ¬Finds disks t id i := by
      rintro id i ⟨_, names, _, hnames, _⟩
      rw [hread] at hnames
      cases hnames
    refine ⟨h.knows.congr (hnothing hnone), fun t' => (h.unreadable t').trans ?_⟩
    simp only [List.mem_append, List.mem_singleton]
    refine ⟨fun ⟨hmem, hunread⟩ => ⟨.inl hmem, hunread⟩, ?_⟩
    rintro ⟨hmem | rfl, hunread⟩
    · exact ⟨hmem, hunread⟩
    · rw [hread] at hunread
      cases hunread
  | unreadable =>
    have hnone : ∀ id i, ¬Finds disks t id i := by
      rintro id i ⟨_, names, _, hnames, _⟩
      rw [hread] at hnames
      cases hnames
    refine ⟨h.knows.congr (hnothing hnone), fun t' => ?_⟩
    simp only [List.mem_append, List.mem_singleton, h.unreadable t']
    constructor
    · rintro (⟨hmem, hunread⟩ | rfl)
      · exact ⟨.inl hmem, hunread⟩
      · exact ⟨.inr rfl, hread⟩
    · rintro ⟨hmem | rfl, hunread⟩
      · exact .inl ⟨hmem, hunread⟩
      · exact .inr rfl
  | names names =>
    have hunreadable : ∀ t', t' ∈ visited ∧ readdir disks t' = .unreadable ↔
        t' ∈ visited ++ [t] ∧ readdir disks t' = .unreadable := by
      intro t'
      simp only [List.mem_append, List.mem_singleton]
      refine ⟨fun ⟨hmem, hunread⟩ => ⟨.inl hmem, hunread⟩, ?_⟩
      rintro ⟨hmem | rfl, hunread⟩
      · exact ⟨hmem, hunread⟩
      · rw [hread] at hunread
        cases hunread
    dsimp only
    by_cases hdepth : t.path.length < 3
    · rw [if_pos hdepth]
      refine ⟨h.knows.congr (hnothing ?_), fun t' => (h.unreadable t').trans (hunreadable t')⟩
      rintro id i ⟨hleaf, _⟩
      omega
    · rw [if_neg hdepth]
      refine ⟨(addEntries_knows h.knows hid).congr fun v id i => ?_, fun t' => ?_⟩
      · simp only [List.mem_append, List.mem_singleton, or_and_right, exists_or, exists_eq_left]
        refine or_congr_right ⟨?_, ?_⟩
        · rintro ⟨rfl, hi, entry, hentry, hslice⟩
          exact ⟨rfl, hi, by omega, names, entry, hread, hentry, hslice⟩
        · rintro ⟨rfl, hi, _, names', entry, hnames', hentry, hslice⟩
          obtain rfl := Listing.names.inj (hread.symm.trans hnames')
          exact ⟨rfl, hi, entry, hentry, hslice⟩
      · rw [addEntries_unreadable]
        exact (h.unreadable t').trans (hunreadable t')

theorem scanned_foldl {visited : List Directory}
    (hids : ∀ t ∈ visited, t.platter.volumeId + 1 < 65536) :
    Scanned disks visited (visited.foldl (visit disks) emptyScan) := by
  induction visited using List.reverseRecOn with
  | nil =>
    refine ⟨⟨by simp, fun id i hne => absurd (slotOf_empty id i) hne, fun id hsome => ?_⟩, ?_⟩
    · cases hsome
    · simp [emptyScan]
  | append_singleton visited t ih =>
    rw [List.foldl_append]
    exact visit_scanned (ih fun t' ht' => hids t' (List.mem_append_left _ ht'))
      (hids t (List.mem_append_right _ (List.mem_singleton_self t)))

/-! ## Every schedule has the same answer -/

theorem Reaches.length_le {mountPoint : Text} {path : List Text}
    (h : Reaches disks mountPoint path) : path.length ≤ 3 := by
  induction h with
  | root => exact Nat.zero_le _
  | shard _ hdepth =>
    rw [List.length_append, List.length_singleton]
    omega

theorem holds_iff {id : Text} {i : ℕ} : Holds disks p id i ↔
    ∃ path, Reaches disks p.mountPoint path ∧ Finds disks ⟨p, path⟩ id i := by
  constructor
  · rintro ⟨path, names, entry, hreaches, hdepth, hnames, hentry, hslice⟩
    exact ⟨path, hreaches, hdepth.ge, names, entry, hnames, hentry, hslice⟩
  · rintro ⟨path, hreaches, hdepth, names, entry, hnames, hentry, hslice⟩
    exact ⟨path, names, entry, hreaches, le_antisymm hreaches.length_le hdepth, hnames, hentry,
      hslice⟩

theorem scanned_of_done {s : WorkQueue.State Directory Scan}
    (hids : ∀ p ∈ platters, p.volumeId + 1 < 65536) (h : Reachable (machine disks platters) s)
    (hdone : WorkQueue.Done s) :
    Knows (fun v id i => ∃ p ∈ platters, p.volumeId = v ∧ i < maxSlices ∧ Holds disks p id i)
      s.result.index ∧
      (s.result.unreadable ≠ [] ↔ ∃ p ∈ platters, Unreadable disks p) := by
  obtain ⟨visited, hresult, hperm⟩ := WorkQueue.visited_perm (by decide) h hdone
  have hvisited : ∀ t, t ∈ visited ↔
      t.platter ∈ platters ∧ Reaches disks t.platter.mountPoint t.path := fun t =>
    hperm.mem_iff.trans mem_walked
  have hscanned : Scanned disks visited s.result := by
    rw [hresult]
    exact scanned_foldl fun t ht => hids _ ((hvisited t).mp ht).1
  refine ⟨hscanned.knows.congr fun v id i => ?_, ?_⟩
  · constructor
    · rintro ⟨t, ht, rfl, hi, hfinds⟩
      obtain ⟨hp, hreaches⟩ := (hvisited t).mp ht
      exact ⟨t.platter, hp, rfl, hi, holds_iff.mpr ⟨t.path, hreaches, hfinds⟩⟩
    · rintro ⟨p, hp, rfl, hi, hholds⟩
      obtain ⟨path, hreaches, hfinds⟩ := holds_iff.mp hholds
      exact ⟨⟨p, path⟩, (hvisited _).mpr ⟨hp, hreaches⟩, rfl, hi, hfinds⟩
  · constructor
    · intro hne
      obtain ⟨t, ht⟩ := List.exists_mem_of_ne_nil _ hne
      obtain ⟨hmem, hunread⟩ := (hscanned.unreadable t).mp ht
      obtain ⟨hp, hreaches⟩ := (hvisited t).mp hmem
      exact ⟨t.platter, hp, t.path, hreaches, hunread⟩
    · rintro ⟨p, hp, path, hreaches, hunread⟩
      exact List.ne_nil_of_mem
        ((hscanned.unreadable ⟨p, path⟩).mpr ⟨(hvisited _).mpr ⟨hp, hreaches⟩, hunread⟩)

theorem mem_of_plattersOrRefuse {volumes : List FleetVolume}
    (h : plattersOrRefuse volumes = .ok platters) :
    p ∈ platters ↔ ∃ v ∈ volumes, v.isDeleted = false ∧ v.id = p.volumeId ∧
      v.mountPoint = some p.mountPoint := by
  unfold plattersOrRefuse at h
  dsimp only at h
  split at h
  · cases h
  · split at h
    · cases h
    · next hmissing =>
      obtain rfl := Except.ok.inj h
      simp only [ne_eq, List.map_eq_nil_iff, not_not, List.filter_eq_nil_iff, List.mem_filter,
        Bool.not_eq_true', Option.isNone_iff_eq_none, and_imp] at hmissing
      have hplatter : ∀ {v : FleetVolume} {p : Platter}, platterOf v = some p →
          v.id = p.volumeId ∧ v.mountPoint = some p.mountPoint := by
        intro v p hp
        unfold platterOf at hp
        split at hp
        · split at hp
          · obtain rfl := Option.some.inj hp
            exact ⟨rfl, by assumption⟩
          · cases hp
        · cases hp
      simp only [List.mem_filterMap, List.mem_filter, Bool.not_eq_true']
      constructor
      · rintro ⟨v, ⟨hv, hdeleted⟩, hp⟩
        obtain ⟨hid, hmount⟩ := hplatter hp
        exact ⟨v, hv, hdeleted, hid, hmount⟩
      · rintro ⟨v, hv, hdeleted, hid, hmount⟩
        obtain ⟨p', hp'⟩ := Option.ne_none_iff_exists'.mp (hmissing v hv hdeleted)
        obtain ⟨hid', hmount'⟩ := hplatter hp'
        refine ⟨v, ⟨hv, hdeleted⟩, ?_⟩
        rw [hp']
        cases p
        cases p'
        simp_all

/-- A volume that was not retired has a file for this slice. -/
def Stored (disks : Disks) (volumes : List FleetVolume) (v : ℕ) (id : Text) (i : ℕ) : Prop :=
  ∃ volume ∈ volumes, volume.isDeleted = false ∧ volume.id = v ∧
    ∃ mountPoint, volume.mountPoint = some mountPoint ∧ Holds disks ⟨v, mountPoint⟩ id i

theorem stored_iff {volumes : List FleetVolume} (h : plattersOrRefuse volumes = .ok platters)
    {v : ℕ} {id : Text} {i : ℕ} :
    Stored disks volumes v id i ↔ ∃ p ∈ platters, p.volumeId = v ∧ Holds disks p id i := by
  constructor
  · rintro ⟨volume, hvolume, hdeleted, hid, mountPoint, hmount, hholds⟩
    exact ⟨⟨v, mountPoint⟩,
      (mem_of_plattersOrRefuse h).mpr ⟨volume, hvolume, hdeleted, hid, hmount⟩, rfl, hholds⟩
  · rintro ⟨p, hp, rfl, hholds⟩
    obtain ⟨volume, hvolume, hdeleted, hid, hmount⟩ := (mem_of_plattersOrRefuse h).mp hp
    exact ⟨volume, hvolume, hdeleted, hid, p.mountPoint, hmount, hholds⟩

theorem hasAnySlice_iff {index : Table Text Slots} {id : Text} :
    NamespaceRestore.hasAnySlice index.get id ↔ ∃ i, slotOf index id i ≠ 0 := by
  unfold NamespaceRestore.hasAnySlice slotOf
  cases index.get id with
  | none => simp
  | some slots =>
    simp only [List.any_eq_true, decide_eq_true_eq, Option.map_some, Option.getD_some]
    constructor
    · rintro ⟨x, hx, hne⟩
      obtain ⟨i, hi, rfl⟩ := Vector.mem_iff_getElem.mp (Vector.mem_toList_iff.mp hx)
      exact ⟨i, by rwa [slot, Vector.getElem?_eq_getElem hi, Option.getD_some]⟩
    · rintro ⟨i, hi⟩
      unfold slot at hi
      cases hget : slots[i]? with
      | none => simp [hget] at hi
      | some x =>
        exact ⟨x, Vector.mem_toList_iff.mpr (Vector.mem_of_getElem? hget),
          by simpa [hget] using hi⟩

theorem result_ok {scan : Scan} {index : Table Text Slots} (h : result scan = .ok index) :
    scan.unreadable = [] ∧ index = scan.index := by
  unfold result at h
  split at h
  · cases h
  · next hread => exact ⟨by simpa using hread, (Except.ok.inj h).symm⟩

/-- However the workers take turns, the scan comes to its end. It refuses to answer if a directory
of some volume cannot be read, and otherwise its index has every slice of every volume that was
not retired, and nothing else. -/
theorem slice_index_complete (disks : Disks) (volumes : List FleetVolume)
    {platters : List Platter} (hplatters : plattersOrRefuse volumes = .ok platters)
    (hids : ∀ v ∈ volumes, v.id < 65535) {s : WorkQueue.State Directory Scan}
    (h : Reachable (machine disks platters) s) :
    (¬WorkQueue.Done s → ∃ i, WorkQueue.Enabled s i) ∧
      (∀ i, WorkQueue.Enabled s i → WorkQueue.remaining (walk disks)
        (WorkQueue.next (walk disks) s i) < WorkQueue.remaining (walk disks) s) ∧
      (WorkQueue.Done s →
        ((∃ unread, result s.result = .error unread) ↔ ∃ p ∈ platters, Unreadable disks p) ∧
        ∀ index, result s.result = .ok index → ∀ id,
          (∀ i < maxSlices, slotOf index id i ≠ 0 ↔ ∃ v, Stored disks volumes v id i) ∧
          (∀ i v, slotOf index id i = v + 1 → Stored disks volumes v id i) ∧
          (NamespaceRestore.hasAnySlice index.get id ↔
            ∃ i < maxSlices, ∃ v, Stored disks volumes v id i)) := by
  have hids' : ∀ p ∈ platters, p.volumeId + 1 < 65536 := fun p hp => by
    obtain ⟨v, hv, _, hid, _⟩ := (mem_of_plattersOrRefuse hplatters).mp hp
    have := hids v hv
    omega
  refine ⟨WorkQueue.exists_enabled, fun i he => ?_, fun hdone => ?_⟩
  · have := @WorkQueue.remaining_next _ _ (walk disks) s i he
    omega
  obtain ⟨hknows, hunreadable⟩ := scanned_of_done hids' h hdone
  refine ⟨?_, fun index hindex id => ?_⟩
  · rw [← hunreadable, result]
    split
    · next hread => simp [hread]
    · next hread => simp [hread]
  · obtain ⟨_, rfl⟩ := result_ok hindex
    have hslot : ∀ i < maxSlices, slotOf s.result.index id i ≠ 0 ↔
        ∃ v, Stored disks volumes v id i := by
      intro i hi
      simp only [stored_iff hplatters]
      constructor
      · intro hne
        obtain ⟨v, ⟨p, hp, hv, _, hholds⟩, _⟩ := hknows.from_found id i hne
        exact ⟨v, p, hp, hv, hholds⟩
      · rintro ⟨v, p, hp, hv, hholds⟩
        exact hknows.covers v id i ⟨p, hp, hv, hi, hholds⟩
    refine ⟨hslot, fun i v hv => ?_, ?_⟩
    · obtain ⟨v', ⟨p, hp, hid, _, hholds⟩, heq⟩ := hknows.from_found id i (by omega)
      obtain rfl : v = v' := by omega
      exact (stored_iff hplatters).mpr ⟨p, hp, hid, hholds⟩
    · rw [hasAnySlice_iff]
      constructor
      · rintro ⟨i, hne⟩
        obtain ⟨v, ⟨p, _, _, hi, _⟩, _⟩ := hknows.from_found id i hne
        exact ⟨i, hi, (hslot i hi).mp hne⟩
      · rintro ⟨i, hi, hstored⟩
        exact ⟨i, (hslot i hi).mpr hstored⟩

/-! ### Two disks with a slice in common -/

def catId : Text := "60c72b2f9b1d8e001c8e4d5a".toList

def catPath : List Text := ["60".toList, "c7".toList, "2b".toList]

def diskTree (files : List Text) : List (List Text × List Text) :=
  [([], [".journal".toList, "60".toList]), (["60".toList], ["c7".toList]),
    (["60".toList, "c7".toList], ["2b".toList]), (catPath, files)]

/-- The second disk has a copy of the first slice, too. -/
def twoDisks : Disks := fun mountPoint path =>
  let files := if mountPoint = "/mnt/a".toList then [catId ++ ".0".toList]
    else [".tmp".toList, catId ++ ".0".toList, catId ++ ".1".toList]
  match (diskTree files).lookup path with
  | some names => .names names
  | none => .missing

def twoVolumes : List FleetVolume :=
  [⟨1, false, true, true, some "/mnt/a".toList⟩, ⟨2, true, false, false, none⟩,
    ⟨3, false, true, true, some "/mnt/b".toList⟩]

def twoPlatters : List Platter := [⟨1, "/mnt/a".toList⟩, ⟨3, "/mnt/b".toList⟩]

/-- The second worker comes to its files first. -/
def turns : List ℕ := [0, 1, 1, 1, 0, 1, 0, 0]

def scanned : WorkQueue.State Directory Scan :=
  turns.foldl (WorkQueue.next (walk twoDisks))
    (WorkQueue.start concurrency (twoPlatters.map root) emptyScan)

theorem scanned_reachable : Reachable (machine twoDisks twoPlatters) scanned :=
  (Reachable.initial rfl).run turns fun n hn => by
    have hrun : ∀ n (hn : n < turns.length), WorkQueue.Enabled ((turns.take n).foldl
        (WorkQueue.next (walk twoDisks))
        (WorkQueue.start concurrency (twoPlatters.map root) emptyScan)) turns[n] := by
      decide +kernel
    exact hrun n hn

theorem scanned_done : WorkQueue.Done scanned := by decide +kernel

theorem scanned_result :
    (result scanned.result).toOption.map (fun index => slotOf index catId 0) = some 4 := by
  decide +kernel

theorem slice_index_complete_scanned :
    ∃ index, result scanned.result = .ok index ∧ slotOf index catId 0 = 3 + 1 ∧
      Stored twoDisks twoVolumes 3 catId 0 ∧
      (slotOf index catId 1 ≠ 0 ↔ ∃ v, Stored twoDisks twoVolumes v catId 1) := by
  cases hresult : result scanned.result with
  | error unread =>
    have h := scanned_result
    rw [hresult] at h
    cases h
  | ok index =>
    have hslot : slotOf index catId 0 = 4 := by
      have h := scanned_result
      rw [hresult] at h
      exact Option.some.inj h
    obtain ⟨_, _, hdone⟩ := slice_index_complete twoDisks twoVolumes
      (show plattersOrRefuse twoVolumes = .ok twoPlatters by decide +kernel) (by decide)
      scanned_reachable
    obtain ⟨hiff, hfrom, _⟩ := (hdone scanned_done).2 index hresult catId
    exact ⟨index, rfl, hslot, hfrom 0 3 hslot, hiff 1 (by decide)⟩

/-! ## One object at a time -/

/-- The three shards of a slice's path. -/
def shardOf (id : Text) : List Text := [id.take 2, (id.drop 2).take 2, (id.drop 4).take 2]

/-- The first volume keeps a slice that is there twice. -/
def locateEntry (id : Text) (volumeId : ℕ) (found : Table ℕ ℕ) (entry : Text) : Table ℕ ℕ :=
  if !isSliceFileName entry || !(id ++ ['.']).isPrefixOf entry then found
  else
    let sliceIndex := parseInt (entry.drop 25)
    if (found.get sliceIndex).isSome then found else found.set sliceIndex volumeId

def locateOn (disks : Disks) (id : Text) (found : Table ℕ ℕ) (p : Platter) :
    Except ℕ (Table ℕ ℕ) :=
  match disks p.mountPoint (shardOf id) with
  | .unreadable => .error p.volumeId
  | .missing => .ok found
  | .names entries => .ok (entries.foldl (locateEntry id p.volumeId) found)

def locateSlices (disks : Disks) (id : Text) (platters : List Platter) : Except ℕ (Table ℕ ℕ) :=
  platters.foldlM (locateOn disks id) Table.empty

/-- A directory that is there is listed by the one above it. -/
def Consistent (disks : Disks) : Prop := ∀ mountPoint path name,
  disks mountPoint (path ++ [name]) ≠ .missing → disks mountPoint path = .unreadable ∨
    ∃ names, disks mountPoint path = .names names ∧ name ∈ names

/-- There is a file for this slice where its path says. -/
def InShard (disks : Disks) (p : Platter) (id : Text) (i : ℕ) : Prop :=
  ∃ names entry, disks p.mountPoint (shardOf id) = .names names ∧ entry ∈ names ∧
    sliceOf entry = some (id, i)

theorem isPrefixOf_iff {id entry : Text} (h : isSliceFileName entry) :
    (id ++ ['.']).isPrefixOf entry ↔ entry.take 24 = id := by
  simp only [isSliceFileName, Bool.and_eq_true, decide_eq_true_eq, Bool.not_eq_true',
    List.isEmpty_eq_false_iff, List.all_eq_true] at h
  obtain ⟨⟨⟨⟨hlength, hhex⟩, hdot⟩, _⟩, hdigits⟩ := h
  rw [List.isPrefixOf_iff_prefix]
  constructor
  · rintro ⟨rest, rfl⟩
    -- the only dot of the name is the one after the id
    have hget : (id ++ ['.'] ++ rest)[id.length]? = some '.' := by simp
    rcases Nat.lt_trichotomy id.length 24 with hlt | heq | hgt
    · have hmem : '.' ∈ (id ++ ['.'] ++ rest).take 24 := by
        refine List.mem_of_getElem? (i := id.length) ?_
        rw [List.getElem?_take_of_lt hlt, hget]
      exact absurd (hhex _ hmem) (by decide)
    · rw [List.append_assoc, ← heq, List.take_left]
    · have hmem : '.' ∈ (id ++ ['.'] ++ rest).drop 25 := by
        refine List.mem_of_getElem? (i := id.length - 25) ?_
        rw [List.getElem?_drop, show 25 + (id.length - 25) = id.length by omega, hget]
      exact absurd (hdigits _ hmem) (by decide)
  · rintro rfl
    refine ⟨entry.drop 25, ?_⟩
    obtain ⟨hlt, hdot⟩ := List.getElem?_eq_some_iff.mp hdot
    conv_rhs => rw [← List.take_append_drop 24 entry]
    rw [List.append_assoc, List.drop_eq_getElem_cons hlt, hdot]
    rfl

theorem get_locateEntry {id : Text} {volumeId : ℕ} {found : Table ℕ ℕ} {entry : Text} {i : ℕ} :
    (locateEntry id volumeId found entry).get i =
      if found.get i = none ∧ sliceOf entry = some (id, i) then some volumeId else found.get i := by
  unfold locateEntry sliceOf
  cases hname : isSliceFileName entry with
  | false => simp
  | true =>
    have hbegins : (id ++ ['.']).isPrefixOf entry ↔ entry.take 24 = id := isPrefixOf_iff hname
    by_cases hid : entry.take 24 = id
    · rw [hbegins.2 hid]
      simp only [Bool.not_true, Bool.or_self, Bool.false_eq_true, if_false, if_true, hid,
        Option.some.injEq, Prod.mk.injEq, true_and]
      by_cases hi : parseInt (entry.drop 25) = i
      · subst hi
        cases hfound : found.get (parseInt (entry.drop 25)) <;> simp [hfound]
      · simp only [hi, and_false, if_false]
        split
        · rfl
        · exact get_set_ne _ _ (Ne.symm hi)
    · have hno : (id ++ ['.']).isPrefixOf entry = false :=
        Bool.eq_false_iff.mpr fun h => hid (hbegins.1 h)
      simp [hno, hid]

/-- What a search has found after it has looked at these platters. -/
structure Located (disks : Disks) (id : Text) (visited : List Platter) (found : Table ℕ ℕ) :
    Prop where
  covers : ∀ p ∈ visited, ∀ i, InShard disks p id i → (found.get i).isSome
  from_shard : ∀ i v, found.get i = some v → ∃ p ∈ visited, p.volumeId = v ∧ InShard disks p id i

theorem get_locateEntries {id : Text} {volumeId : ℕ} {found : Table ℕ ℕ} {entries : List Text}
    {i : ℕ} : (entries.foldl (locateEntry id volumeId) found).get i =
      if found.get i = none ∧ ∃ entry ∈ entries, sliceOf entry = some (id, i) then some volumeId
      else found.get i := by
  induction entries generalizing found with
  | nil => simp
  | cons entry entries ih =>
    rw [List.foldl_cons, ih, get_locateEntry]
    by_cases hfound : found.get i = none
    · by_cases hslice : sliceOf entry = some (id, i)
      · simp [hfound, hslice]
      · simp [hfound, hslice]
    · simp [hfound]

theorem locateOn_located {id : Text} {visited : List Platter} {found : Table ℕ ℕ}
    (h : Located disks id visited found)
    (hread : disks p.mountPoint (shardOf id) ≠ .unreadable) :
    ∃ found', locateOn disks id found p = .ok found' ∧
      Located disks id (visited ++ [p]) found' := by
  unfold locateOn
  cases hlisting : disks p.mountPoint (shardOf id) with
  | unreadable => exact absurd hlisting hread
  | missing =>
    refine ⟨found, rfl, fun q hq i hshard => ?_, fun i v hv => ?_⟩
    · rcases List.mem_append.mp hq with hq | hq
      · exact h.covers q hq i hshard
      · obtain ⟨names, _, hnames, _⟩ := hshard
        rw [List.mem_singleton.mp hq, hlisting] at hnames
        cases hnames
    · obtain ⟨q, hq, hrest⟩ := h.from_shard i v hv
      exact ⟨q, List.mem_append_left _ hq, hrest⟩
  | names entries =>
    refine ⟨_, rfl, fun q hq i hshard => ?_, fun i v hv => ?_⟩
    · rw [get_locateEntries]
      split
      · rfl
      · next hnot =>
        rcases List.mem_append.mp hq with hq | hq
        · exact h.covers q hq i hshard
        · obtain ⟨names, entry, hnames, hentry, hslice⟩ := hshard
          rw [List.mem_singleton.mp hq, hlisting] at hnames
          obtain rfl := Listing.names.inj hnames
          rw [Option.isSome_iff_ne_none]
          exact fun hnone => hnot ⟨hnone, entry, hentry, hslice⟩
    · rw [get_locateEntries] at hv
      split at hv
      · next hnew =>
        obtain ⟨_, entry, hentry, hslice⟩ := hnew
        exact ⟨p, List.mem_append_right _ (List.mem_singleton_self p), Option.some.inj hv,
          entries, entry, hlisting, hentry, hslice⟩
      · obtain ⟨q, hq, hrest⟩ := h.from_shard i v hv
        exact ⟨q, List.mem_append_left _ hq, hrest⟩

theorem locateSlices_located {id : Text}
    (hread : ∀ p ∈ platters, disks p.mountPoint (shardOf id) ≠ .unreadable) :
    ∃ found, locateSlices disks id platters = .ok found ∧ Located disks id platters found := by
  unfold locateSlices
  induction platters using List.reverseRecOn with
  | nil => exact ⟨_, rfl, by simp, fun i v hv => by cases hv⟩
  | append_singleton platters p ih =>
    obtain ⟨found, hfound, hlocated⟩ := ih fun q hq => hread q (List.mem_append_left _ hq)
    obtain ⟨found', hfound', hlocated'⟩ := locateOn_located hlocated
      (hread p (List.mem_append_right _ (List.mem_singleton_self p)))
    refine ⟨found', ?_, hlocated'⟩
    rw [List.foldlM_append, hfound]
    simp only [bind, Except.bind, List.foldlM_cons, List.foldlM_nil, hfound', pure, Except.pure]

/-- A readable tree is walked down to every directory that is there. -/
theorem reaches_of_consistent (hconsistent : Consistent disks) (hread : ¬Unreadable disks p)
    {path : List Text} (hpath : path.length ≤ 3) (hshards : ∀ name ∈ path, isShard name)
    (h : disks p.mountPoint path ≠ .missing) : Reaches disks p.mountPoint path := by
  induction path using List.reverseRecOn with
  | nil => exact .root
  | append_singleton path name ih =>
    rw [List.length_append, List.length_singleton] at hpath
    have hmissing : disks p.mountPoint path ≠ .missing := by
      intro hmissing
      rcases hconsistent _ _ _ h with hunread | ⟨names, hnames, _⟩
      · rw [hmissing] at hunread
        cases hunread
      · rw [hmissing] at hnames
        cases hnames
    have hreaches := ih (by omega) (fun n hn => hshards n (List.mem_append_left _ hn)) hmissing
    rcases hconsistent _ _ _ h with hunread | ⟨names, hnames, hname⟩
    · exact absurd ⟨path, hreaches, hunread⟩ hread
    · exact .shard hreaches (by omega) hnames hname
        (hshards name (List.mem_append_right _ (List.mem_singleton_self name)))

/-- The hexadecimal text of an object's id. -/
def isObjectId (id : Text) : Bool := id.length = 24 && id.all isHex

theorem isShard_of_mem_shardOf {id name : Text} (h : isObjectId id) (hname : name ∈ shardOf id) :
    isShard name := by
  simp only [isObjectId, Bool.and_eq_true, decide_eq_true_eq, List.all_eq_true] at h
  obtain ⟨hlength, hhex⟩ := h
  simp only [isShard, Bool.and_eq_true, decide_eq_true_eq, List.all_eq_true]
  simp only [shardOf, List.mem_cons, List.not_mem_nil, or_false] at hname
  rcases hname with rfl | rfl | rfl
  · exact ⟨by simp [hlength], fun c hc => hhex c (List.mem_of_mem_take hc)⟩
  · exact ⟨by simp [hlength], fun c hc => hhex c (List.mem_of_mem_drop (List.mem_of_mem_take hc))⟩
  · exact ⟨by simp [hlength], fun c hc => hhex c (List.mem_of_mem_drop (List.mem_of_mem_take hc))⟩

/-- Once the scan has answered, a search for one object does not refuse. It finds no slice that
the scan has missed, and the same ones as long as every file is where its path says. -/
theorem locateSlices_agrees (disks : Disks) (platters : List Platter)
    (hids : ∀ p ∈ platters, p.volumeId < 65535) (hconsistent : Consistent disks)
    {s : WorkQueue.State Directory Scan} (h : Reachable (machine disks platters) s)
    (hdone : WorkQueue.Done s) {index : Table Text Slots} (hindex : result s.result = .ok index)
    (id : Text) (hid : isObjectId id) :
    ∃ found, locateSlices disks id platters = .ok found ∧
      (∀ i v, found.get i = some v → ∃ p ∈ platters, p.volumeId = v ∧ Holds disks p id i) ∧
      (∀ i < maxSlices, (found.get i).isSome → slotOf index id i ≠ 0) ∧
      ((∀ p ∈ platters, ∀ i, Holds disks p id i → InShard disks p id i) →
        ∀ i < maxSlices, (found.get i).isSome ↔ slotOf index id i ≠ 0) := by
  obtain ⟨hknows, hunreadable⟩ := scanned_of_done (fun p hp => by have := hids p hp; omega) h hdone
  obtain ⟨hnone, rfl⟩ := result_ok hindex
  have hreadable : ∀ p ∈ platters, ¬Unreadable disks p := fun p hp hunread =>
    hunreadable.mpr ⟨p, hp, hunread⟩ hnone
  have hreaches : ∀ p ∈ platters, disks p.mountPoint (shardOf id) ≠ .missing →
      Reaches disks p.mountPoint (shardOf id) := fun p hp =>
    reaches_of_consistent hconsistent (hreadable p hp) (Nat.le_refl 3)
      fun name => isShard_of_mem_shardOf hid
  obtain ⟨found, hfound, hlocated⟩ := @locateSlices_located disks platters id fun p hp hunread =>
    hreadable p hp ⟨shardOf id, hreaches p hp (by simp [hunread]), hunread⟩
  have hholds : ∀ p ∈ platters, ∀ i, InShard disks p id i → Holds disks p id i := by
    rintro p hp i ⟨names, entry, hnames, hentry, hslice⟩
    exact ⟨_, names, entry, hreaches p hp (by simp [hnames]), rfl, hnames, hentry, hslice⟩
  have hsome : ∀ i < maxSlices, (found.get i).isSome → slotOf s.result.index id i ≠ 0 := by
    intro i hi hget
    obtain ⟨v, hv⟩ := Option.isSome_iff_exists.mp hget
    obtain ⟨p, hp, rfl, hshard⟩ := hlocated.from_shard i v hv
    exact hknows.covers _ id i ⟨p, hp, rfl, hi, hholds p hp i hshard⟩
  refine ⟨found, hfound, fun i v hv => ?_, hsome, fun hshards i hi => ⟨hsome i hi, fun hne => ?_⟩⟩
  · obtain ⟨p, hp, hid, hshard⟩ := hlocated.from_shard i v hv
    exact ⟨p, hp, hid, hholds p hp i hshard⟩
  · obtain ⟨_, ⟨p, hp, _, _, hslice⟩, _⟩ := hknows.from_found id i hne
    exact hlocated.covers p hp i (hshards p hp i hslice)

theorem twoDisks_consistent : Consistent twoDisks := by
  intro mountPoint path name h
  unfold twoDisks at h ⊢
  dsimp only at h ⊢
  generalize (if mountPoint = "/mnt/a".toList then [catId ++ ".0".toList]
    else [".tmp".toList, catId ++ ".0".toList, catId ++ ".1".toList]) = files at h ⊢
  cases hlookup : (diskTree files).lookup (path ++ [name]) with
  | none => simp [hlookup] at h
  | some names =>
    obtain ⟨before, after, hsplit, _⟩ := List.lookup_eq_some_iff.mp hlookup
    have hmem : (path ++ [name], names) ∈ diskTree files := by simp [hsplit]
    have hlast : ∀ {path' : List Text} {name' : Text}, path ++ [name] = path' ++ [name'] →
        path = path' ∧ name = name' := fun heq => by
      obtain ⟨hpath, hname⟩ := List.append_inj' heq rfl
      exact ⟨hpath, List.singleton_injective hname⟩
    simp only [diskTree, List.mem_cons, Prod.mk.injEq, List.not_mem_nil, or_false] at hmem
    rcases hmem with ⟨heq, _⟩ | ⟨heq, _⟩ | ⟨heq, _⟩ | ⟨heq, _⟩
    · simp at heq
    · obtain ⟨rfl, rfl⟩ := @hlast [] "60".toList heq
      exact .inr ⟨_, rfl, by decide⟩
    · obtain ⟨rfl, rfl⟩ := @hlast ["60".toList] "c7".toList heq
      exact .inr ⟨_, rfl, by decide⟩
    · obtain ⟨rfl, rfl⟩ := @hlast ["60".toList, "c7".toList] "2b".toList heq
      exact .inr ⟨_, rfl, by decide⟩

theorem locateSlices_agrees_scanned :
    ∃ index found, result scanned.result = .ok index ∧
      locateSlices twoDisks catId twoPlatters = .ok found ∧ found.get 0 = some 1 ∧
      slotOf index catId 0 ≠ 0 := by
  cases hresult : result scanned.result with
  | error unread =>
    have h := scanned_result
    rw [hresult] at h
    cases h
  | ok index =>
    have hlocated : (locateSlices twoDisks catId twoPlatters).toOption.map (·.get 0) =
        some (some 1) := by decide +kernel
    obtain ⟨found, hfound, _, hsome, _⟩ := locateSlices_agrees twoDisks twoPlatters (by decide)
      twoDisks_consistent scanned_reachable scanned_done hresult catId (by decide)
    rw [hfound] at hlocated
    have hget : found.get 0 = some 1 := Option.some.inj hlocated
    exact ⟨index, found, rfl, hfound, hget, hsome 0 (by decide) (by rw [hget]; rfl)⟩

end SliceIndex
