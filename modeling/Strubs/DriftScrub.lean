import Mathlib.Data.Char
import Mathlib.Data.List.Lex
import Strubs.CursorPaging
import Strubs.RecordSynthesis
import Strubs.StateMachine

/-! # The drift scrub

The slices on the disks are indexed directory by directory, and then the objects of the
database are ticked off against the index. Uploads, deletes and relocations go on all the
while. -/
namespace DriftScrub

open InsertionMap NamespaceRecord RecordSynthesis

/-- The shape of an object that could be written. -/
structure ObjectShape extends Shape where
  data_pos : 0 < dataSliceCount
  total_le : dataSliceCount + paritySliceCount ≤ maxSlices
  chunk_pos : 0 < chunkSize

structure Fleet where
  platters : List ℕ
  geometry : Geometry
  shapeOf : Text → ObjectShape

structure SliceOnDisk where
  volume : ℕ
  id : Text
  index : ℕ
  deriving DecidableEq

/-- The directory of an object's slices on a disk. -/
def shard (id : Text) : Text := id.take 6

/-! ## The array -/

structure Upload where
  id : Text
  volumes : List ℕ
  committed : List ℕ
  deriving DecidableEq

structure Deletion where
  id : Text
  volumes : List ℕ
  removed : Bool
  deriving DecidableEq

structure Move where
  id : Text
  index : ℕ
  src : ℕ
  dst : ℕ
  flipped : Bool
  deriving DecidableEq

/-- The objects of the database with the volumes of their slices, the files on the disks, the
ids that have been given out and what is under way. -/
structure World where
  rows : Table Text (List ℕ)
  files : List SliceOnDisk
  used : List Text
  uploads : List Upload
  deletions : List Deletion
  moves : List Move

inductive Operation where
  | plan (u : Upload)
  | commitSlice (u : Upload) (index : ℕ)
  | insertRow (u : Upload)
  | openDelete (id : Text)
  | removeRow (d : Deletion)
  | unlinkSlice (d : Deletion) (index : ℕ)
  | copySlice (m : Move)
  | replaceVolumeRef (m : Move)
  | unlinkSource (m : Move)
  | leaveSource (m : Move)
  deriving DecidableEq

/-- The row still names the source, and not the target. -/
def World.wins (w : World) (m : Move) : Bool :=
  (w.rows.get m.id).any fun volumes => m.src ∈ volumes && m.dst ∉ volumes

def Move.replace (m : Move) (volumes : List ℕ) : List ℕ :=
  volumes.map fun v => if v = m.src then m.dst else v

def Operation.enabled (fleet : Fleet) (w : World) : Operation → Bool
  | .plan u => u.id ∉ w.used && u.volumes.length = (fleet.shapeOf u.id).total &&
      u.volumes.Nodup && u.volumes.all (· ∈ fleet.platters) && u.committed = []
  | .commitSlice u index => u ∈ w.uploads && index < u.volumes.length && index ∉ u.committed
  | .insertRow u => u ∈ w.uploads && (List.range u.volumes.length).all (· ∈ u.committed)
  | .openDelete id => (w.rows.get id).isSome
  | .removeRow d => d ∈ w.deletions && !d.removed && (w.rows.get d.id).isSome
  | .unlinkSlice d index => d ∈ w.deletions && d.removed && index < d.volumes.length
  | .copySlice m => ⟨m.src, m.id, m.index⟩ ∈ w.files && m.dst ∈ fleet.platters && !m.flipped &&
      m ∉ w.moves
  | .replaceVolumeRef m => m ∈ w.moves && !m.flipped
  | .unlinkSource m => m ∈ w.moves && m.flipped
  | .leaveSource m => m ∈ w.moves && m.flipped

def sliceOn (volumes : List ℕ) (id : Text) (index : ℕ) : SliceOnDisk :=
  ⟨volumes.getD index 0, id, index⟩

def Operation.apply (w : World) : Operation → World
  | .plan u => { w with used := u.id :: w.used, uploads := u :: w.uploads }
  | .commitSlice u index =>
    { w with
      files := sliceOn u.volumes u.id index :: w.files
      uploads := { u with committed := index :: u.committed } :: w.uploads.erase u }
  | .insertRow u =>
    { w with rows := w.rows.set u.id u.volumes, uploads := w.uploads.erase u }
  | .openDelete id =>
    { w with deletions := ⟨id, (w.rows.get id).getD [], false⟩ :: w.deletions }
  | .removeRow d =>
    { w with
      rows := w.rows.erase d.id
      deletions := { d with removed := true } :: w.deletions.erase d }
  | .unlinkSlice d index =>
    { w with files := w.files.filter (· ≠ sliceOn d.volumes d.id index) }
  | .copySlice m => { w with files := ⟨m.dst, m.id, m.index⟩ :: w.files, moves := m :: w.moves }
  | .replaceVolumeRef m =>
    if w.wins m then
      { w with
        rows := w.rows.set m.id (m.replace ((w.rows.get m.id).getD []))
        moves := { m with flipped := true } :: w.moves.erase m }
    else
      -- the copy is taken back
      { w with files := w.files.filter (· ≠ ⟨m.dst, m.id, m.index⟩), moves := w.moves.erase m }
  | .unlinkSource m =>
    { w with files := w.files.filter (· ≠ ⟨m.src, m.id, m.index⟩), moves := w.moves.erase m }
  | .leaveSource m => { w with moves := w.moves.erase m }

/-! ## The report -/

inductive Class where
  | phantom
  | orphan
  | belowQuorum
  | indeterminate
  deriving DecidableEq, Repr

structure DriftReport where
  objectsInDatabase : ℕ
  objectsOnPlatters : ℕ
  phantomCount : ℕ
  orphanCount : ℕ
  belowQuorumCount : ℕ
  indeterminateCount : ℕ
  phantoms : List Text
  orphans : List Text
  belowQuorum : List Text
  indeterminate : List Text
  deriving DecidableEq

def emptyReport : DriftReport := ⟨0, 0, 0, 0, 0, 0, [], [], [], []⟩

def sampleLimit : ℕ := 1000

def sample (samples : List Text) (id : Text) : List Text :=
  if samples.length < sampleLimit then samples ++ [id] else samples

def DriftReport.count (r : DriftReport) (id : Text) : Class → DriftReport
  | .phantom => { r with phantomCount := r.phantomCount + 1, phantoms := sample r.phantoms id }
  | .orphan => { r with orphanCount := r.orphanCount + 1, orphans := sample r.orphans id }
  | .belowQuorum =>
    { r with
      belowQuorumCount := r.belowQuorumCount + 1
      belowQuorum := sample r.belowQuorum id }
  | .indeterminate =>
    { r with
      indeterminateCount := r.indeterminateCount + 1
      indeterminate := sample r.indeterminate id }

def DriftReport.counted (r : DriftReport) : Class → ℕ
  | .phantom => r.phantomCount
  | .orphan => r.orphanCount
  | .belowQuorum => r.belowQuorumCount
  | .indeterminate => r.indeterminateCount

/-- What an object of the database is, if anything is wrong with it. -/
def classifyNamed (slots : Option Slots) (rebuilt : Option Synthesised) : Option Class :=
  match slots, rebuilt with
  | none, _ => some .phantom
  | some _, none => some .belowQuorum
  | some _, some r =>
    if r.reason = .indeterminate then some .indeterminate
    else if ¬r.recoverable then some .belowQuorum
    else none

/-- What slices are that no object of the database has. -/
def classifyUnnamed (rebuilt : Option Synthesised) : Class :=
  match rebuilt with
  | none => .belowQuorum
  | some r =>
    if r.reason = .indeterminate then .indeterminate
    else if ¬r.recoverable then .belowQuorum
    else .orphan

/-! ## The run -/

inductive Phase where
  | indexing
  | streaming
  | leftovers
  | done
  deriving DecidableEq, Repr

/-- The headers of the object that is judged are read one by one. Nothing in the code holds
what each object was counted as. -/
structure State where
  world : World
  phase : Phase
  unwalked : List (ℕ × Text)
  index : Table Text Slots
  cursor : Option Text
  batch : List Text
  named : List Text
  unnamed : List Text
  looked : List (ℕ × ℕ)
  found : List (ℕ × ℕ)
  report : DriftReport
  classified : List (Text × Class)

inductive Event where
  | operate (o : Operation)
  | walk (volume : ℕ) (directory : Text)
  | indexed
  | fetch (batchSize : ℕ)
  | look (volume index : ℕ)
  | judge
  | finish
  deriving DecidableEq

/-- The first slice that is found is kept. -/
def addSlice (volume : ℕ) (index : Table Text Slots) (f : SliceOnDisk) : Table Text Slots :=
  if maxSlices ≤ f.index then index
  else
    let slots := (index.get f.id).getD (Vector.replicate maxSlices 0)
    index.set f.id
      (if slot slots f.index = 0 then slots.setIfInBounds f.index (volume + 1) else slots)

/-- The object that is judged. -/
def State.pending (s : State) : Option Text :=
  match s.phase with
  | .streaming => s.batch.head?
  | .leftovers => s.unnamed.head?
  | _ => none

/-- What the headers that were read say. -/
def State.sight (fleet : Fleet) (s : State) (id : Text) (volume index : ℕ) : SliceContents :=
  if (volume, index) ∈ s.found then
    let shape := fleet.shapeOf id
    .fields ⟨id, shape.size, shape.dataSliceCount, shape.paritySliceCount, index, shape.chunkSize⟩
  else .absent

def State.rebuild (fleet : Fleet) (s : State) (id : Text) : Option Synthesised :=
  synthesiseRecordFromIndex id (mountedOn fleet.platters) (s.sight fleet id) (s.index.get id)
    (fleet.platters.head?.getD 0) (some fleet.platters) (some fleet.geometry)

def State.looksDone (fleet : Fleet) (s : State) (id : Text) : Bool :=
  (s.index.get id).isNone || fleet.platters.all fun v => (List.range maxSlices).all fun i =>
    (v, i) ∈ s.looked

def enabled (fleet : Fleet) (s : State) : Event → Bool
  | .operate o => o.enabled fleet s.world
  | .walk volume directory => s.phase = .indexing && (volume, directory) ∈ s.unwalked
  | .indexed => s.phase = .indexing && s.unwalked = []
  | .fetch _ => s.phase = .streaming && s.batch = []
  | .look volume index => s.pending.isSome && volume ∈ fleet.platters && index < maxSlices &&
      (volume, index) ∉ s.looked
  | .judge => s.pending.any (s.looksDone fleet ·)
  | .finish => s.phase = .leftovers && s.unnamed = []

def State.classify (fleet : Fleet) (s : State) (id : Text) : Option Class :=
  if s.phase = .streaming then classifyNamed (s.index.get id) (s.rebuild fleet id)
  else some (classifyUnnamed (s.rebuild fleet id))

def State.judged (s : State) (id : Text) (c : Option Class) : State :=
  { s with
    looked := []
    found := []
    batch := if s.phase = .streaming then s.batch.tail else s.batch
    named := if s.phase = .streaming then id :: s.named else s.named
    unnamed := if s.phase = .streaming then s.unnamed else s.unnamed.tail
    report :=
      let report := { s.report with
        objectsInDatabase := s.report.objectsInDatabase + if s.phase = .streaming then 1 else 0 }
      match c with
      | none => report
      | some c => report.count id c
    classified := s.classified ++ (c.map (id, ·)).toList }

def next (fleet : Fleet) (s : State) : Event → State
  | .operate o => { s with world := o.apply s.world }
  | .walk volume directory =>
    { s with
      unwalked := s.unwalked.erase (volume, directory)
      index := (s.world.files.filter fun f => f.volume = volume && shard f.id = directory).foldl
        (addSlice volume) s.index }
  | .indexed =>
    { s with
      phase := .streaming
      report := { s.report with objectsOnPlatters := s.index.size } }
  | .fetch batchSize =>
    match CursorPaging.page batchSize s.cursor s.world.rows.entries with
    | [] => { s with phase := .leftovers, unnamed := s.index.keys.filter (· ∉ s.named) }
    | e :: batch =>
      { s with
        batch := (e :: batch).map Prod.fst
        cursor := some ((e :: batch).getLast (List.cons_ne_nil e batch)).1 }
  | .look volume index =>
    { s with
      looked := (volume, index) :: s.looked
      found := if s.pending.any (⟨volume, ·, index⟩ ∈ s.world.files) then (volume, index) :: s.found
        else s.found }
  | .judge =>
    match s.pending with
    | none => s
    | some id => s.judged id (s.classify fleet id)
  | .finish => { s with phase := .done }

/-- Every object has all its slices, and the scrub is about to look into every directory that
there is. Operations may be under way. -/
structure Initial (fleet : Fleet) (s : State) : Prop where
  shaped : ∀ e ∈ s.world.rows.entries, e.2.length = (fleet.shapeOf e.1).total ∧ e.2.Nodup
  whole : ∀ e ∈ s.world.rows.entries, ∀ i < e.2.length, sliceOn e.2 e.1 i ∈ s.world.files
  volumes : ∀ f ∈ s.world.files, f.volume ∈ fleet.platters
  indices : ∀ f ∈ s.world.files, f.index < (fleet.shapeOf f.id).total
  used : (∀ id ∈ s.world.rows.keys, id ∈ s.world.used) ∧ ∀ f ∈ s.world.files, f.id ∈ s.world.used
  directories : ∀ f ∈ s.world.files, (f.volume, shard f.id) ∈ s.unwalked
  phase : s.phase = .indexing
  index : s.index = Table.empty
  cursor : s.cursor = none
  batch : s.batch = []
  named : s.named = []
  unnamed : s.unnamed = []
  looked : s.looked = [] ∧ s.found = []
  report : s.report = emptyReport
  classified : s.classified = []

def after (fleet : Fleet) (s : State) (events : List Event) : State :=
  events.foldl (next fleet) s

/-! ## What is seen of an object -/

/-- How many slices are still where the index has them when their headers are read. -/
def State.kept (fleet : Fleet) (s : State) (id : Text) (slots : Slots) : ℕ :=
  (List.range (fleet.shapeOf id).total).countP fun i =>
    fleet.platters.any fun v => slot slots i = v + 1 && (v, i) ∈ s.found

/-- How many slices are on some disk when their headers are read. -/
def State.remaining (fleet : Fleet) (s : State) (id : Text) : ℕ :=
  (List.range (fleet.shapeOf id).total).countP fun i =>
    fleet.platters.any fun v => (v, i) ∈ s.found

structure SightedAt (fleet : Fleet) (s : State) (id : Text) (slots : Slots) : Prop where
  kept : 0 < s.kept fleet id slots
  enough : (fleet.shapeOf id).dataSliceCount ≤ s.remaining fleet id
  corroborated : 2 ≤ (fleet.shapeOf id).dataSliceCount ∨ 2 ≤ s.kept fleet id slots

/-- The object that is about to be judged is in the index, a slice of it is still where the
index has it, and so many slices as the data needs are somewhere. Two slices have to be where
the index has them if one slice were enough. -/
def Sighted (fleet : Fleet) (s : State) : Prop :=
  ∀ id ∈ s.pending, ∃ slots, s.index.get id = some slots ∧ SightedAt fleet s id slots

section Sight

variable {fleet : Fleet} {s : State} {id : Text} {slots : Slots} {i v : ℕ}

theorem read_sight (hi : i < (fleet.shapeOf id).total) :
    readSliceHeaderResult i (s.sight fleet id v i) =
      if (v, i) ∈ s.found then .ok ⟨id, (fleet.shapeOf id).toShape, i⟩ else .absent := by
  unfold State.sight
  split
  · have hdata := (fleet.shapeOf id).data_pos
    have htotal := (fleet.shapeOf id).total_le
    have hchunk := (fleet.shapeOf id).chunk_pos
    rw [Shape.total] at hi
    simp only [readSliceHeaderResult, checkHeader]
    rw [if_neg (by omega), if_neg (by omega), if_neg (by omega), if_neg (by omega),
      if_neg (by omega)]
    rfl
  · rfl

theorem read_sight_ok {header : SliceHeader}
    (h : readSliceHeaderResult i (s.sight fleet id v i) = .ok header) :
    i < (fleet.shapeOf id).total := by
  unfold State.sight at h
  split at h
  · simp only [readSliceHeaderResult, checkHeader] at h
    split_ifs at h
    rw [Shape.total]
    omega
  · cases h

theorem goodAt_sight (s : State) :
    goodAt id (s.sight fleet id) (fleet.shapeOf id).toShape i v ↔
      i < (fleet.shapeOf id).total ∧ (v, i) ∈ s.found := by
  by_cases hi : i < (fleet.shapeOf id).total
  · rw [goodAt, read_sight hi]
    by_cases hfound : (v, i) ∈ s.found <;> simp [hfound, hi]
  · have hread : ∀ header, readSliceHeaderResult i (s.sight fleet id v i) ≠ .ok header :=
      fun header h => hi (read_sight_ok h)
    unfold goodAt
    split
    · next header hok => exact absurd hok (hread header)
    · simp [hi]

theorem silentAt_sight (s : State) : ¬silentAt (s.sight fleet id) i v := by
  simp only [silentAt, State.sight, decide_eq_true_eq]
  split
  · simp only [readSliceHeaderResult, checkHeader]
    split_ifs <;> simp
  · simp [readSliceHeaderResult]

theorem backs_sight (s : State) :
    backs id (mountedOn fleet.platters) (s.sight fleet id) slots (fleet.shapeOf id).toShape i ↔
      i < (fleet.shapeOf id).total ∧ ∃ v ∈ fleet.platters, slot slots i = v + 1 ∧
        (v, i) ∈ s.found := by
  rw [backs_iff]
  simp only [goodAt_sight]
  tauto

theorem length_backers_sight (s : State) :
    (backers id (mountedOn fleet.platters) (s.sight fleet id) slots
      (fleet.shapeOf id).toShape).length = s.kept fleet id slots := by
  rw [length_backers, State.kept]
  refine List.countP_congr fun i hi => ?_
  rw [backs_sight]
  simp [List.mem_range.mp hi]

theorem reach_sight (s : State) :
    reach id (s.sight fleet id) fleet.platters (fleet.shapeOf id).toShape =
      s.remaining fleet id := by
  rw [reach, State.remaining, ← List.countP_eq_length_filter]
  refine List.countP_congr fun i hi => ?_
  have hsilent : silent (s.sight fleet id) fleet.platters i = false := by
    simp [silent, silentAt_sight]
  rw [hsilent, Bool.or_false, good, List.any_eq_true, List.any_eq_true]
  simp [goodAt_sight, List.mem_range.mp hi]

theorem unreadableSlices_sight (s : State) :
    unreadableSlices (mountedOn fleet.platters) (s.sight fleet id) slots = [] := by
  rw [List.eq_nil_iff_forall_not_mem]
  intro i hi
  obtain ⟨v, _, _, hsilent⟩ := mem_unreadableSlices.mp hi
  exact silentAt_sight s hsilent

/-- All headers of an object say the same. -/
theorem backers_other (s : State) {shape : Shape} (h : shape ≠ (fleet.shapeOf id).toShape) :
    backers id (mountedOn fleet.platters) (s.sight fleet id) slots shape = [] := by
  rw [List.eq_nil_iff_forall_not_mem]
  intro i hi
  obtain ⟨v, _, _, hgood⟩ := backs_iff.mp (List.mem_filter.mp hi).2
  unfold goodAt at hgood
  split at hgood
  · next header hread =>
    rw [read_sight (read_sight_ok hread)] at hread
    split at hread
    · cases hread
      exact h (of_decide_eq_true hgood).2.symm
    · cases hread
  · cases hgood

/-- The verdict on an object that is in the index. -/
theorem rebuild_favourable_iff (hslots : s.index.get id = some slots) :
    (∃ v, s.rebuild fleet id = some v ∧ v.Favourable) ↔ SightedAt fleet s id slots := by
  have hkept := @length_backers_sight fleet id slots s
  unfold State.rebuild
  rw [hslots]
  by_cases hnil : backers id (mountedOn fleet.platters) (s.sight fleet id) slots
      (fleet.shapeOf id).toShape = []
  · have hreadable :
        readable id (mountedOn fleet.platters) (s.sight fleet id) slots = 0 := by
      refine readable_eq_zero_iff.mpr fun i hi => ?_
      by_contra hsome
      obtain ⟨header, hheader⟩ := Option.ne_none_iff_exists'.mp hsome
      have hmem := header_shape_backs hi hheader
      by_cases hshape : header.shape = (fleet.shapeOf id).toShape
      · rw [hshape, hnil] at hmem
        cases hmem
      · rw [backers_other s hshape] at hmem
        cases hmem
    rw [synthesise_of_unread hreadable, synthesiseUnread_favourable_iff, unreadableSlices_sight]
    rw [hnil] at hkept
    exact iff_of_false (fun h => h.1 rfl) fun h => h.kept.ne hkept
  · have hleads : Leads id (mountedOn fleet.platters) (s.sight fleet id) slots
        (fleet.shapeOf id).toShape :=
      ⟨hnil, fun shape hne hback => absurd (backers_other s hne) hback⟩
    have hpos := List.length_pos_iff.mpr hnil
    rw [synthesise_of_leads hleads]
    have hverdict := @synthesiseShape_favourable_iff id (s.sight fleet id) fleet.platters slots
      (fleet.shapeOf id).toShape (fleet.platters.head?.getD 0) hnil
    rw [unreadableSlices_sight, reach_sight, hkept] at hverdict
    rw [hkept] at hpos ⊢
    simp only [Option.some.injEq, exists_eq_left', hverdict]
    constructor
    · rintro ⟨henough, hcorroborated⟩
      exact ⟨hpos, henough, by simpa using hcorroborated⟩
    · rintro ⟨_, henough, hcorroborated⟩
      exact ⟨henough, by simpa using hcorroborated⟩

end Sight

/-! ## What is counted -/

def Class.isAlarm : Class → Bool
  | .phantom => true
  | .belowQuorum => true
  | .orphan => false
  | .indeterminate => false

/-- The phantoms and the objects below quorum. -/
def DriftReport.alarms (r : DriftReport) : ℕ := r.phantomCount + r.belowQuorumCount

section Counting

variable {fleet : Fleet} {s : State} {id : Text}

theorem not_isAlarm_of_favourable {v : Synthesised} (h : v.Favourable) (slots : Slots) :
    (classifyNamed (some slots) (some v)).any Class.isAlarm = false ∧
      (classifyUnnamed (some v)).isAlarm = false := by
  unfold classifyNamed classifyUnnamed
  rcases h with hrecoverable | hreason
  · by_cases hreason : v.reason = .indeterminate <;> simp [hreason, hrecoverable, Class.isAlarm]
  · simp [hreason, Class.isAlarm]

theorem isAlarm_of_not_favourable {rebuilt : Option Synthesised}
    (h : ¬∃ v, rebuilt = some v ∧ v.Favourable) (slots : Slots) :
    (classifyNamed (some slots) rebuilt).any Class.isAlarm ∧
      (classifyUnnamed rebuilt).isAlarm := by
  cases rebuilt with
  | none => exact ⟨rfl, rfl⟩
  | some v =>
    have hv : ¬(v.recoverable ∨ v.reason = .indeterminate) := fun hv => h ⟨v, rfl, hv⟩
    rw [not_or] at hv
    simp [classifyNamed, classifyUnnamed, hv.1, hv.2, Class.isAlarm]

/-- An object that is judged raises an alarm unless it is sighted. -/
theorem classify_isAlarm_iff (hid : s.pending = some id) :
    (s.classify fleet id).any Class.isAlarm ↔ ¬Sighted fleet s := by
  have hsighted : Sighted fleet s ↔
      ∃ slots, s.index.get id = some slots ∧ SightedAt fleet s id slots := by
    simp [Sighted, hid]
  rw [hsighted]
  cases hslots : s.index.get id with
  | none =>
    have hrebuild : s.rebuild fleet id = none := by
      rw [State.rebuild, hslots]
      rfl
    unfold State.classify
    rw [hrebuild, hslots]
    split <;> simp [classifyNamed, classifyUnnamed, Class.isAlarm]
  | some slots =>
    simp only [Option.some.injEq, exists_eq_left']
    rw [← rebuild_favourable_iff hslots]
    unfold State.classify
    rw [hslots]
    by_cases hv : ∃ v, s.rebuild fleet id = some v ∧ v.Favourable
    · obtain ⟨v, hrebuild, hfavourable⟩ := hv
      obtain ⟨hnamed, hunnamed⟩ := not_isAlarm_of_favourable hfavourable slots
      rw [hrebuild]
      split <;> simp [hnamed, hunnamed, hfavourable]
    · obtain ⟨hnamed, hunnamed⟩ := isAlarm_of_not_favourable hv slots
      split <;> simp [hnamed, hunnamed, hv]

theorem counted_count (r : DriftReport) (id : Text) (c c' : Class) :
    (r.count id c).counted c' = r.counted c' + if c = c' then 1 else 0 := by
  cases c <;> cases c' <;> rfl

theorem counted_judged (c : Option Class) (c' : Class) :
    (s.judged id c).report.counted c' = s.report.counted c' + if c = some c' then 1 else 0 := by
  have hsame : ∀ n, DriftReport.counted { s.report with objectsInDatabase := n } c' =
      s.report.counted c' := by
    intro n
    cases c' <;> rfl
  cases c with
  | none => simp [State.judged, hsame]
  | some c => simp [State.judged, counted_count, hsame]

theorem alarms_eq (r : DriftReport) : r.alarms = r.counted .phantom + r.counted .belowQuorum := rfl

theorem alarms_judged (c : Option Class) :
    (s.judged id c).report.alarms = s.report.alarms + if c.any Class.isAlarm then 1 else 0 := by
  rw [alarms_eq, counted_judged, counted_judged, alarms_eq]
  cases c with
  | none => simp
  | some c => cases c <;> simp [Class.isAlarm] <;> omega

/-- The only event that counts anything is a judgement. -/
theorem counted_next (e : Event) (he : e ≠ .judge) (c : Class) :
    (next fleet s e).report.counted c = s.report.counted c := by
  cases e with
  | judge => exact absurd rfl he
  | indexed => cases c <;> rfl
  | fetch batchSize =>
    simp only [next]
    split <;> rfl
  | _ => rfl

/-- A judgement adds to the alarms exactly when the object is not sighted. -/
theorem alarms_judge (he : enabled fleet s .judge) [Decidable (Sighted fleet s)] :
    (next fleet s .judge).report.alarms =
      s.report.alarms + if Sighted fleet s then 0 else 1 := by
  obtain ⟨id, hid, _⟩ := (Option.any_eq_true _ _).mp he
  have hiff := @classify_isAlarm_iff fleet s id hid
  simp only [next, hid]
  rw [alarms_judged]
  by_cases hsighted : Sighted fleet s <;> simp [hiff, hsighted]

end Counting

/-! ## Objects are judged once -/

/-- How far the run is. The stream goes up, so what it has named lies below what it names
next. -/
structure Invariant (s : State) : Prop where
  tallied : ∀ c, s.report.counted c = s.classified.countP (·.2 = c)
  distinct : (s.classified.map Prod.fst).Nodup
  rows : (s.world.rows.entries.map Prod.fst).Nodup
  ascending : s.batch.Pairwise (· < ·)
  read : ∀ id ∈ s.batch ++ s.named, s.cursor.any (id ≤ ·)
  above : ∀ id ∈ s.batch, ∀ id' ∈ s.named, id' < id
  unnamed_nodup : s.unnamed.Nodup
  unnamed : ∀ id ∈ s.unnamed, id ∉ s.classified.map Prod.fst
  classified : s.phase = .indexing ∨ s.phase = .streaming →
    s.unnamed = [] ∧ ∀ id ∈ s.classified.map Prod.fst, id ∈ s.named

section Run

variable {fleet : Fleet} {s : State}

theorem invariant_of_initial (h : Initial fleet s) : Invariant s where
  tallied c := by
    rw [h.report, h.classified]
    cases c <;> rfl
  distinct := by simp [h.classified]
  rows := s.world.rows.nodup
  ascending := by simp [h.batch]
  read := by simp [h.batch, h.named]
  above := by simp [h.batch]
  unnamed_nodup := by simp [h.unnamed]
  unnamed := by simp [h.unnamed]
  classified _ := by simp [h.unnamed, h.classified]

theorem Invariant.fetch (h : Invariant s) (batchSize : ℕ)
    (he : enabled fleet s (.fetch batchSize)) : Invariant (next fleet s (.fetch batchSize)) := by
  simp only [enabled, Bool.and_eq_true, decide_eq_true_eq] at he
  obtain ⟨hphase, hbatch⟩ := he
  obtain ⟨hunnamed, hclassified⟩ := h.classified (.inr hphase)
  simp only [next]
  split
  · exact { h with
      unnamed_nodup := s.index.nodup.filter _
      unnamed := fun id hid hmem => by
        have hnew := (List.mem_filter.mp hid).2
        exact absurd (hclassified id hmem) (by simpa using hnew)
      classified := by simp }
  · next e batch hpage =>
    have hkeys := (CursorPaging.behind_keys s.cursor h.rows).sublist
      (CursorPaging.page_sublist batchSize s.cursor s.world.rows.entries)
    have hmem : ∀ e' ∈ e :: batch, ∀ c, s.cursor = some c → c < e'.1 := by
      intro e' he' c hc
      rw [← hpage, hc] at he'
      exact CursorPaging.lt_of_mem_page he'
    rw [hpage] at hkeys
    have habove : ∀ e' ∈ e :: batch, ∀ id ∈ s.named, id < e'.1 := by
      intro e' he' id hid
      obtain ⟨c, hc, hle⟩ := (Option.any_eq_true _ _).mp (h.read id (List.mem_append_right _ hid))
      exact (of_decide_eq_true hle).trans_lt (hmem e' he' c hc)
    exact { h with
      ascending := List.pairwise_map.mpr hkeys
      read := fun id hid => by
        rw [Option.any_some]
        rcases List.mem_append.mp hid with hid | hid
        · obtain ⟨e', he', rfl⟩ := List.mem_map.mp hid
          exact decide_eq_true (CursorPaging.le_getLast hkeys _ he')
        · exact decide_eq_true (habove _ (List.getLast_mem _) id hid).le
      above := fun id hid id' hid' => by
        obtain ⟨e', he', rfl⟩ := List.mem_map.mp hid
        exact habove e' he' id' hid' }

theorem Invariant.tallied_judged (h : Invariant s) (id : Text) (c : Option Class) (c' : Class) :
    (s.judged id c).report.counted c' = (s.judged id c).classified.countP (·.2 = c') := by
  rw [counted_judged, h.tallied]
  cases c with
  | none => simp [State.judged]
  | some c => simp [State.judged, List.countP_append, List.countP_singleton]

/-- Whatever the verdict, the object has not been counted before. -/
theorem Invariant.fresh (h : Invariant s) {id : Text} (hid : s.pending = some id) :
    id ∉ s.classified.map Prod.fst := by
  unfold State.pending at hid
  split at hid
  · next hphase =>
    intro hmem
    obtain ⟨rest, hbatch⟩ : ∃ rest, s.batch = id :: rest := List.head?_eq_some_iff.mp hid
    have hlt := h.above id (by simp [hbatch]) id ((h.classified (.inr hphase)).2 id hmem)
    exact lt_irrefl _ hlt
  · exact h.unnamed id (List.mem_of_mem_head? hid)
  · cases hid

theorem mem_classified_judged {id id' : Text} {c : Option Class}
    (h : id' ∈ (s.judged id c).classified.map Prod.fst) :
    id' ∈ s.classified.map Prod.fst ∨ id' = id := by
  cases c with
  | none => exact .inl (by simpa [State.judged] using h)
  | some c => simpa [State.judged] using h

theorem Invariant.judged (h : Invariant s) {id : Text} (hid : s.pending = some id)
    (c : Option Class) : Invariant (s.judged id c) := by
  have hfresh := h.fresh hid
  have hdistinct : ((s.judged id c).classified.map Prod.fst).Nodup := by
    cases c with
    | none => simpa [State.judged] using h.distinct
    | some c =>
      simp only [State.judged, Option.map_some, Option.toList_some, List.map_append,
        List.map_singleton]
      rw [← List.concat_eq_append]
      exact h.distinct.concat hfresh
  unfold State.pending at hid
  split at hid
  · next hphase =>
    obtain ⟨rest, hbatch⟩ : ∃ rest, s.batch = id :: rest := List.head?_eq_some_iff.mp hid
    obtain ⟨hunnamed, hclassified⟩ := h.classified (.inr hphase)
    have hascending := h.ascending
    rw [hbatch, List.pairwise_cons] at hascending
    have hbatch' : (s.judged id c).batch = rest := by simp [State.judged, hphase, hbatch]
    have hnamed' : (s.judged id c).named = id :: s.named := by simp [State.judged, hphase]
    have hunnamed' : (s.judged id c).unnamed = [] := by simp [State.judged, hphase, hunnamed]
    exact {
      tallied := h.tallied_judged id c
      distinct := hdistinct
      rows := h.rows
      ascending := by rw [hbatch']; exact hascending.2
      read := fun id' hid' => by
        apply h.read id'
        rw [hbatch', hnamed'] at hid'
        rw [hbatch]
        simp only [List.mem_append, List.mem_cons] at hid' ⊢
        tauto
      above := fun id' hid' id'' hid'' => by
        rw [hbatch'] at hid'
        rw [hnamed'] at hid''
        rcases List.mem_cons.mp hid'' with rfl | hid''
        · exact hascending.1 id' hid'
        · exact h.above id' (by rw [hbatch]; exact List.mem_cons_of_mem _ hid') id'' hid''
      unnamed_nodup := by rw [hunnamed']; exact List.nodup_nil
      unnamed := by simp [hunnamed']
      classified := fun _ => by
        refine ⟨hunnamed', fun id' hid' => ?_⟩
        rw [hnamed']
        rcases mem_classified_judged hid' with hid' | rfl
        · exact List.mem_cons_of_mem _ (hclassified id' hid')
        · exact List.mem_cons_self }
  · next hphase =>
    obtain ⟨rest, hrest⟩ : ∃ rest, s.unnamed = id :: rest := List.head?_eq_some_iff.mp hid
    have hnodup := h.unnamed_nodup
    rw [hrest, List.nodup_cons] at hnodup
    have hunnamed' : (s.judged id c).unnamed = rest := by simp [State.judged, hphase, hrest]
    have hphase' : (s.judged id c).phase = .leftovers := hphase
    exact {
      tallied := h.tallied_judged id c
      distinct := hdistinct
      rows := h.rows
      ascending := by simpa [State.judged, hphase] using h.ascending
      read := by simpa [State.judged, hphase] using h.read
      above := by simpa [State.judged, hphase] using h.above
      unnamed_nodup := by rw [hunnamed']; exact hnodup.2
      unnamed := fun id' hid' hmem => by
        rw [hunnamed'] at hid'
        rcases mem_classified_judged hmem with hmem | rfl
        · exact h.unnamed id' (by rw [hrest]; exact List.mem_cons_of_mem _ hid') hmem
        · exact hnodup.1 hid'
      classified := by simp [hphase'] }
  · cases hid

theorem Invariant.next (h : Invariant s) {e : Event} (he : enabled fleet s e) :
    Invariant (next fleet s e) := by
  cases e with
  | operate o => exact { h with rows := (o.apply s.world).rows.nodup }
  | walk volume directory => exact { h with }
  | indexed =>
    simp only [enabled, Bool.and_eq_true, decide_eq_true_eq] at he
    exact { h with
      tallied := fun c => (@counted_next fleet s .indexed (by simp) c).trans (h.tallied c)
      classified := fun _ => h.classified (.inl he.1) }
  | fetch batchSize => exact h.fetch batchSize he
  | look volume index => exact { h with }
  | judge =>
    obtain ⟨id, hid, _⟩ := (Option.any_eq_true _ _).mp he
    simp only [DriftScrub.next, hid]
    exact h.judged hid _
  | finish => exact { h with classified := by simp [DriftScrub.next] }

/-- The events of a run, each enabled where it is taken. -/
def Run (fleet : Fleet) (s : State) (events : List Event) : Prop :=
  ∀ n (hn : n < events.length), enabled fleet (after fleet s (events.take n)) events[n]

theorem after_append (events : List Event) (e : Event) :
    after fleet s (events ++ [e]) = next fleet (after fleet s events) e := by
  simp [after]

theorem Run.initial {events : List Event} {e : Event} (h : Run fleet s (events ++ [e])) :
    Run fleet s events ∧ enabled fleet (after fleet s events) e := by
  constructor
  · intro n hn
    have := h n (by simp; omega)
    rwa [List.take_append_of_le_length (Nat.le_of_lt hn), List.getElem_append_left hn] at this
  · simpa using h events.length (by simp)

theorem run_invariant (hs : Initial fleet s) {events : List Event} (h : Run fleet s events) :
    Invariant (after fleet s events) := by
  induction events using List.reverseRecOn with
  | nil => exact invariant_of_initial hs
  | append_singleton events e ih =>
    obtain ⟨hrun, he⟩ := h.initial
    rw [after_append]
    exact (ih hrun).next he

/-- What is sighted whenever it is judged. -/
def AllSighted (fleet : Fleet) (s : State) (events : List Event) : Prop :=
  ∀ n (hn : n < events.length), events[n] = .judge →
    Sighted fleet (after fleet s (events.take n))

theorem allSighted_append (events : List Event) (e : Event) :
    AllSighted fleet s (events ++ [e]) ↔
      AllSighted fleet s events ∧ (e = .judge → Sighted fleet (after fleet s events)) := by
  constructor
  · intro h
    constructor
    · intro n hn hjudge
      have := h n (by simp; omega)
      rw [List.take_append_of_le_length (Nat.le_of_lt hn), List.getElem_append_left hn] at this
      exact this hjudge
    · simpa using h events.length (by simp)
  · rintro ⟨h, hlast⟩ n hn hjudge
    by_cases hlt : n < events.length
    · rw [List.getElem_append_left hlt] at hjudge
      rw [List.take_append_of_le_length (Nat.le_of_lt hlt)]
      exact h n hlt hjudge
    · obtain rfl : n = events.length := by
        rw [List.length_append, List.length_singleton] at hn
        omega
      simp only [List.getElem_concat_length, List.take_left'] at hjudge ⊢
      exact hlast hjudge

theorem alarms_run {events : List Event} (h : Run fleet s events) (hs : s.report = emptyReport) :
    (after fleet s events).report.alarms = 0 ↔ AllSighted fleet s events := by
  classical
  induction events using List.reverseRecOn with
  | nil => simp [after, hs, AllSighted, DriftReport.alarms, emptyReport]
  | append_singleton events e ih =>
    obtain ⟨hrun, he⟩ := h.initial
    rw [after_append, allSighted_append, ← ih hrun]
    by_cases hjudge : e = .judge
    · subst hjudge
      rw [alarms_judge he]
      by_cases hsighted : Sighted fleet (after fleet s events) <;> simp [hsighted]
    · rw [alarms_eq, counted_next e hjudge, counted_next e hjudge, ← alarms_eq]
      simp [hjudge]

/-- The report has no phantoms and nothing below quorum if and only if every object was sighted
when it was judged. No object is counted twice. -/
theorem no_false_alarm_iff (hs : Initial fleet s) {events : List Event}
    (h : Run fleet s events) :
    ((after fleet s events).report.phantomCount = 0 ∧
        (after fleet s events).report.belowQuorumCount = 0 ↔ AllSighted fleet s events) ∧
      ((after fleet s events).classified.map Prod.fst).Nodup ∧
      ∀ c, (after fleet s events).report.counted c =
        (after fleet s events).classified.countP (·.2 = c) := by
  have hinv := run_invariant hs h
  rw [← alarms_run h hs.report, DriftReport.alarms, Nat.add_eq_zero_iff]
  exact ⟨Iff.rfl, hinv.distinct, hinv.tallied⟩

instance (fleet : Fleet) (s : State) (events : List Event) : Decidable (Run fleet s events) :=
  inferInstanceAs (Decidable (∀ n (_ : n < events.length), _))

end Run

/-! ## An upload that is completed in between -/

section Pair

def mirrored : ObjectShape := ⟨⟨10, 1, 1, 4⟩, by decide, by decide, by decide⟩

def pair : Fleet := ⟨[1, 2], ⟨1, 1⟩, fun _ => mirrored⟩

def stored : Text := ['a']

def uploaded : Upload := ⟨['b'], [2, 1], []⟩

/-- One object on two disks. -/
def atRest : State where
  world := ⟨⟨[(stored, [1, 2])], by decide⟩, [⟨1, stored, 0⟩, ⟨2, stored, 1⟩], [stored], [], [], []⟩
  phase := .indexing
  unwalked := [(1, ['a']), (2, ['a']), (1, ['b']), (2, ['b'])]
  index := Table.empty
  cursor := none
  batch := []
  named := []
  unnamed := []
  looked := []
  found := []
  report := emptyReport
  classified := []

theorem atRest_initial : Initial pair atRest where
  shaped := by decide
  whole := by decide
  volumes := by decide
  indices := by decide
  used := by decide
  directories := by decide
  phase := rfl
  index := rfl
  cursor := rfl
  batch := rfl
  named := rfl
  unnamed := rfl
  looked := ⟨rfl, rfl⟩
  report := rfl
  classified := rfl

def walkAll : List Event := atRest.unwalked.map fun e => .walk e.1 e.2

def lookAll : List Event := pair.platters.flatMap fun v => (List.range maxSlices).map (.look v)

def undisturbed : List Event :=
  walkAll ++ [.indexed, .fetch 5000] ++ lookAll ++ [.judge, .fetch 5000, .finish]

theorem undisturbed_run : Run pair atRest undisturbed := by decide +kernel

theorem no_false_alarm_undisturbed :
    (after pair atRest undisturbed).report.phantomCount = 0 ∧
      (after pair atRest undisturbed).report.belowQuorumCount = 0 ↔
      AllSighted pair atRest undisturbed :=
  (no_false_alarm_iff atRest_initial undisturbed_run).1

/-- The upload begins when the last directory has been walked. -/
def overtaken : List Event :=
  walkAll ++ [.indexed, .operate (.plan uploaded), .operate (.commitSlice uploaded 0),
    .operate (.commitSlice { uploaded with committed := [0] } 1),
    .operate (.insertRow { uploaded with committed := [1, 0] }), .fetch 5000] ++ lookAll ++
    [.judge, .judge, .fetch 5000, .finish]

/-- The object that was just written is reported as one that does not exist. -/
theorem overtaken_phantom :
    ¬∀ (fleet : Fleet) (s : State) (events : List Event), Initial fleet s →
      Run fleet s events → (after fleet s events).phase = .done →
      (after fleet s events).report.phantomCount = 0 ∧
        (after fleet s events).report.belowQuorumCount = 0 := by
  intro h
  have hrun : Run pair atRest overtaken := by decide +kernel
  have hdone : (after pair atRest overtaken).phase = .done := by decide +kernel
  have hcount : (after pair atRest overtaken).report.phantomCount = 1 := by decide +kernel
  rw [(h pair atRest overtaken atRest_initial hrun hdone).1] at hcount
  cases hcount

end Pair

end DriftScrub
