import Strubs.StateMachine
import Strubs.VolumeSlice

/-! # Committing and deleting an object

A commit renames the slices, journals a `put` and inserts the row; a delete journals a
`del`, removes the row and unlinks the slices. Any step may fail, the operations on the
slices run concurrently and those of a call that has thrown still land later, and the
calls come one at a time in any order. A rejected journal or database call has no effect. -/
namespace FileObjectLifecycle

open StateMachine VolumeSlice

inductive Operation where
  | put
  | del
  deriving DecidableEq, Repr

inductive Call where
  | commit
  | delete
  deriving DecidableEq, Repr

/-- What the running call awaits. -/
inductive Await where
  | idle
  | closing
  | committing
  | journalingPut
  | insertingRow
  | recordingCreated
  | journalingDelete
  | deletingRow
  | compensating
  | recordingDeleted
  | aborting
  | destroying
  deriving DecidableEq, Repr

inductive SliceOperation where
  | close
  | commit
  | delete
  | destroy
  deriving DecidableEq, Repr

/-- An operation on one slice that has not settled, and the number of the call it is of. -/
structure Flight where
  slice : ℕ
  operation : SliceOperation
  call : ℕ
  deriving DecidableEq, Repr

/-- `lost` are the slices that were gone before the object was loaded from its row, and
`failedWrites` those the writer still holds a rejected write of. `inserted` remembers that
the row was there once, `compensationFailed` that a compensating `put` was rejected. -/
structure State where
  mode : Option Mode
  isPersisted : Bool
  journaledPut : Bool
  isAborting : Bool
  commitPromises : Bool
  failedWrites : ℕ → Bool
  slices : ℕ → Slice
  flights : List Flight
  call : ℕ
  await : Await
  result : Option (Call × Bool)
  row : Bool
  journal : List Operation
  lost : ℕ → Bool
  inserted : Bool
  compensationFailed : Bool

variable (count : ℕ)

def returning (c : Call) (s : State) : State :=
  { s with await := .idle, result := some (c, true) }

def throwing (c : Call) (s : State) : State :=
  { s with await := .idle, result := some (c, false) }

/-- Starts the operation on every slice, without waiting for any. -/
def launch (operation : SliceOperation) (s : State) : State :=
  { s with flights := s.flights ++ (List.range count).map (⟨·, operation, s.call⟩) }

/-- The destroyer works on slices of its own, which share the files of the writer's. -/
def destroySlice (calls : Calls) (s : Slice) : Bool × Slice :=
  let own : Slice := { s with
    mode := none, outputOpen := false, isCommitted := true, size := 0 }
  match VolumeSlice.delete calls own with
  | (result, own) => (result.isOk, { s with
      committed := own.committed, temporary := own.temporary, volume := own.volume
      clock := own.clock })

/-- Whether the operation succeeded, and the slice after it. -/
def perform (calls : Calls) (failedWrite : Bool) (operation : SliceOperation) (s : Slice) :
    Bool × Slice :=
  match operation with
  | .close => let (result, s) := VolumeSlice.close calls s; (result.isOk, s)
  | .commit => let (result, s) := VolumeSlice.commit calls s; (result.isOk, s)
  | .delete =>
    if failedWrite then (false, s)
    else let (result, s) := VolumeSlice.delete calls s; (result.isOk, s)
  | .destroy => destroySlice calls s

def startCommit (s : State) : State :=
  let s := { s with call := s.call + 1 }
  if s.mode = some .write then
    { launch count .close s with commitPromises := true, await := .closing }
  else throwing .commit s

def slicesClosed (s : State) : State :=
  let s := { s with commitPromises := false }
  if s.isAborting then throwing .commit s
  else { launch count .commit s with commitPromises := true, await := .committing }

def slicesCommitted (s : State) : State :=
  let s := { s with commitPromises := false }
  if s.isAborting then throwing .commit s else { s with await := .journalingPut }

/-- The promises of an earlier commit are only still held when one of them was rejected. -/
def abort (s : State) : State :=
  let s := { s with isAborting := true }
  if s.commitPromises then throwing .delete s
  else { launch count .delete s with await := .aborting }

def removeSlices (s : State) : State :=
  if s.mode = some .write then abort count s
  else { launch count .destroy s with await := .destroying }

def startDelete (s : State) : State :=
  let s := { s with call := s.call + 1 }
  if s.isPersisted ∨ s.journaledPut then { s with await := .journalingDelete }
  else removeSlices count s

def finishDelete (s : State) : State :=
  returning .delete { s with mode := none, isPersisted := false, journaledPut := false }

/-- All operations of the call have succeeded. -/
def resolved (s : State) : State :=
  match s.await with
  | .closing => slicesClosed count s
  | .committing => slicesCommitted s
  | .aborting => finishDelete s
  | .destroying => finishDelete s
  | _ => s

/-- The first operation of the call that fails ends its wait. The destroyer catches it. -/
def rejected (s : State) : State :=
  match s.await with
  | .closing => throwing .commit s
  | .committing => throwing .commit s
  | .aborting => throwing .delete s
  | .destroying => finishDelete s
  | _ => s

def land (calls : Calls) (f : Flight) (s : State) : Bool × State :=
  let (ok, slice) := perform calls (s.failedWrites f.slice) f.operation (s.slices f.slice)
  (ok, { s with
    slices := Function.update s.slices f.slice slice, flights := s.flights.erase f })

def settle (calls : Calls) (f : Flight) (s : State) : State :=
  match land calls f s with
  | (ok, s) =>
    if f.call ≠ s.call then s
    else if !ok then rejected s
    else if s.flights.any (·.call = s.call) then s
    else resolved count s

inductive Event where
  | commit
  | delete
  | settle (f : Flight) (calls : Calls)
  | journalPut (ok : Bool)
  | createObjectRecord (ok : Bool)
  | recordObjectCreated (ok : Bool)
  | journalDelete (ok : Bool)
  | deleteObjectById (ok : Bool)
  | compensate (ok : Bool)
  | recordObjectDeleted (ok : Bool)

def Enabled (s : State) : Event → Prop
  | .commit => s.await = .idle
  | .delete => s.await = .idle
  | .settle f _ => f ∈ s.flights
  | .journalPut _ => s.await = .journalingPut
  | .createObjectRecord _ => s.await = .insertingRow
  | .recordObjectCreated _ => s.await = .recordingCreated
  | .journalDelete _ => s.await = .journalingDelete
  | .deleteObjectById _ => s.await = .deletingRow
  | .compensate _ => s.await = .compensating
  | .recordObjectDeleted _ => s.await = .recordingDeleted

instance (s : State) (e : Event) : Decidable (Enabled s e) := by
  cases e <;> simp only [Enabled] <;> infer_instance

def next (s : State) : Event → State
  | .commit => startCommit count s
  | .delete => startDelete count s
  | .settle f calls => settle count calls f s
  | .journalPut true => { s with
      journal := s.journal ++ [.put], journaledPut := true, await := .insertingRow }
  | .journalPut false => throwing .commit s
  | .createObjectRecord true => { s with
      row := true, inserted := true, isPersisted := true, await := .recordingCreated }
  | .createObjectRecord false => throwing .commit s
  | .recordObjectCreated true => returning .commit { s with mode := none }
  | .recordObjectCreated false => throwing .commit s
  | .journalDelete true =>
    let s := { s with journal := s.journal ++ [Operation.del] }
    if s.isPersisted then { s with await := .deletingRow } else removeSlices count s
  | .journalDelete false => throwing .delete s
  | .deleteObjectById true => { s with row := false, await := .recordingDeleted }
  | .deleteObjectById false => { s with await := .compensating }
  | .compensate true => throwing .delete { s with journal := s.journal ++ [.put] }
  | .compensate false => throwing .delete { s with compensationFailed := true }
  | .recordObjectDeleted true => removeSlices count s
  | .recordObjectDeleted false => throwing .delete s

/-- An object whose writer has prepared its slices. -/
def created (failedWrites : ℕ → Bool) (slices : ℕ → Slice) : State where
  mode := some .write
  isPersisted := false
  journaledPut := false
  isAborting := false
  commitPromises := false
  failedWrites := failedWrites
  slices := slices
  flights := []
  call := 0
  await := .idle
  result := none
  row := false
  journal := []
  lost := fun _ => false
  inserted := false
  compensationFailed := false

/-- An object that was loaded from its row, whose `put` is the journal's last word on it. -/
def loaded (isReading : Bool) (slices : ℕ → Slice) (journal : List Operation) : State where
  mode := if isReading then some .read else none
  isPersisted := true
  journaledPut := false
  isAborting := false
  commitPromises := false
  failedWrites := fun _ => false
  slices := slices
  flights := []
  call := 0
  await := .idle
  result := none
  row := true
  journal := journal ++ [.put]
  lost := fun i => (slices i).committed.isNone
  inserted := true
  compensationFailed := false

/-- The object was created or loaded, and commits and deletes come one at a time. -/
def machine : Machine State Event where
  Initial s := (∃ failedWrites slices, s = created failedWrites slices) ∨
    ∃ isReading slices journal, s = loaded isReading slices journal
  Enabled := Enabled
  next := next count

/-- The slice's committed file is there, unless it was gone from the start. -/
def Installed (s : State) (i : ℕ) : Prop := s.lost i ∨ (s.slices i).committed.isSome

/-- The journal's last word on the object, if it has had one, is that it is deleted. -/
def Forgotten (s : State) : Prop :=
  s.row = false ∧ (.put ∈ s.journal → s.journal.getLast? = some .del)

structure Invariant (s : State) : Prop where
  persisted : s.row → s.isPersisted ∧ s.inserted
  announced : s.inserted → .put ∈ s.journal
  remembered : .put ∈ s.journal →
    s.isPersisted ∨ s.journaledPut ∨ s.journal.getLast? = some .del
  installed : s.row ∨ s.await = .journalingPut ∨ s.await = .insertingRow →
    ∀ i < count, Installed s i
  committing : s.await = .committing →
    ∀ i < count, Installed s i ∨ ⟨i, .commit, s.call⟩ ∈ s.flights
  writing : s.await = .closing ∨ s.await = .committing ∨ s.await = .journalingPut ∨
    s.await = .insertingRow → s.mode = some .write
  aborting : s.isAborting → s.row = false ∧ s.await ≠ .committing ∧
    s.await ≠ .journalingPut ∧ s.await ≠ .insertingRow
  deletions : ∀ f ∈ s.flights, f.operation = .delete → s.isAborting
  destructions : ∀ f ∈ s.flights, f.operation = .destroy →
    s.mode ≠ some .write ∧ s.row = false
  inserting : s.await = .insertingRow → s.journal.getLast? = some .put
  named : s.row → s.await ≠ .deletingRow → s.await ≠ .compensating →
    s.compensationFailed = false → s.journal.getLast? = some .put
  deleting : s.await = .deletingRow ∨ s.await = .compensating ∨ s.await = .recordingDeleted →
    s.isPersisted ∧ s.journal.getLast? = some .del
  removed : s.await = .recordingDeleted → s.row = false
  removing : s.await = .aborting ∨ s.await = .destroying → Forgotten s
  deleted : s.await = .idle → s.result = some (.delete, true) → Forgotten s

variable {count}

theorem launch_mem {operation : SliceOperation} {s : State} {f : Flight} :
    f ∈ (launch count operation s).flights ↔
      f ∈ s.flights ∨ ∃ i < count, f = ⟨i, operation, s.call⟩ := by
  simp [launch, eq_comm]

theorem created_invariant (failedWrites : ℕ → Bool) (slices : ℕ → Slice) :
    Invariant count (created failedWrites slices) := by
  constructor <;> simp [created]

theorem loaded_invariant (isReading : Bool) (slices : ℕ → Slice)
    (journal : List Operation) : Invariant count (loaded isReading slices journal) := by
  constructor <;> simp [loaded, Installed]
  intro i _
  cases (slices i).committed <;> simp

/-- Between two calls nothing is known but what holds of the object. -/
theorem Invariant.of_idle {s : State} (hs : s.await = .idle)
    (persisted : s.row → s.isPersisted ∧ s.inserted)
    (announced : s.inserted → .put ∈ s.journal)
    (remembered : .put ∈ s.journal →
      s.isPersisted ∨ s.journaledPut ∨ s.journal.getLast? = some .del)
    (installed : s.row → ∀ i < count, Installed s i)
    (aborting : s.isAborting → s.row = false)
    (deletions : ∀ f ∈ s.flights, f.operation = .delete → s.isAborting)
    (destructions : ∀ f ∈ s.flights, f.operation = .destroy →
      s.mode ≠ some .write ∧ s.row = false)
    (named : s.row → s.compensationFailed = false → s.journal.getLast? = some .put)
    (deleted : s.result = some (.delete, true) → Forgotten s) : Invariant count s where
  persisted := persisted
  announced := announced
  remembered := remembered
  installed := fun h => installed (h.resolve_right (by simp [hs]))
  committing := by simp [hs]
  writing := by simp [hs]
  aborting := fun h => ⟨aborting h, by simp [hs]⟩
  deletions := deletions
  destructions := destructions
  inserting := by simp [hs]
  named := fun hr _ _ => named hr
  deleting := by simp [hs]
  removed := by simp [hs]
  removing := by simp [hs]
  deleted := fun _ => deleted

theorem Invariant.promises {s : State} (h : Invariant count s) (held : Bool) :
    Invariant count { s with commitPromises := held } :=
  ⟨h.persisted, h.announced, h.remembered, h.installed, h.committing, h.writing, h.aborting,
    h.deletions, h.destructions, h.inserting, h.named, h.deleting, h.removed, h.removing,
    h.deleted⟩

theorem launch_other {operation o : SliceOperation} {s : State} {P : Prop}
    (h : ∀ f ∈ s.flights, f.operation = o → P) (hne : operation ≠ o) :
    ∀ f ∈ (launch count operation s).flights, f.operation = o → P := by
  intro f hf ho
  rcases launch_mem.mp hf with hf | ⟨i, _, rfl⟩
  · exact h f hf ho
  · exact absurd ho hne

theorem throwing_invariant {s : State} (c : Call) (h : Invariant count s)
    (hrow : s.row → s.compensationFailed = false → s.journal.getLast? = some .put) :
    Invariant count (throwing c s) :=
  .of_idle rfl h.persisted h.announced h.remembered (fun hr => h.installed (.inl hr))
    (fun ha => (h.aborting ha).1) h.deletions h.destructions hrow (by simp [throwing])

theorem startCommit_invariant {s : State} (h : Invariant count s) (hs : s.await = .idle) :
    Invariant count (startCommit count s) := by
  have hnamed : s.row → s.compensationFailed = false → s.journal.getLast? = some .put :=
    fun hr => h.named hr (by simp [hs]) (by simp [hs])
  simp only [startCommit]
  split
  · next hmode =>
    exact {
      persisted := h.persisted
      announced := h.announced
      remembered := h.remembered
      installed := fun hr => h.installed (.inl (hr.resolve_right (by simp)))
      committing := nofun
      writing := fun _ => hmode
      aborting := fun ha => ⟨(h.aborting ha).1, nofun, nofun, nofun⟩
      deletions := launch_other h.deletions (by simp)
      destructions := launch_other h.destructions (by simp)
      inserting := nofun
      named := fun hr _ _ => hnamed hr
      deleting := by simp
      removed := nofun
      removing := by simp
      deleted := nofun }
  · exact .of_idle rfl h.persisted h.announced h.remembered (fun hr => h.installed (.inl hr))
      (fun ha => (h.aborting ha).1) h.deletions h.destructions hnamed (by simp [throwing])

theorem abort_invariant {s : State} (h : Invariant count s) (hs : Forgotten s) :
    Invariant count (abort count s) := by
  simp only [abort]
  split
  · exact .of_idle rfl h.persisted h.announced h.remembered (fun hr => h.installed (.inl hr))
      (fun _ => hs.1) (fun _ _ _ => rfl) h.destructions
      (fun hr => absurd (hs.1.symm.trans hr) (by simp)) (by simp [throwing])
  · exact {
      persisted := h.persisted
      announced := h.announced
      remembered := h.remembered
      installed := fun hr => h.installed (.inl (hr.resolve_right (by simp)))
      committing := nofun
      writing := by simp
      aborting := fun _ => ⟨hs.1, nofun, nofun, nofun⟩
      deletions := fun _ _ _ => rfl
      destructions := launch_other h.destructions (by simp)
      inserting := nofun
      named := fun hr => absurd (hs.1.symm.trans hr) (by simp)
      deleting := by simp
      removed := nofun
      removing := fun _ => hs
      deleted := nofun }

/-- Slices are only taken away once the row is gone and the journal says so. -/
theorem removeSlices_invariant {s : State} (h : Invariant count s) (hs : Forgotten s) :
    Invariant count (removeSlices count s) := by
  simp only [removeSlices]
  split
  · exact abort_invariant h hs
  · next hmode =>
    refine {
      persisted := h.persisted
      announced := h.announced
      remembered := h.remembered
      installed := fun hr => h.installed (.inl (hr.resolve_right (by simp)))
      committing := nofun
      writing := by simp
      aborting := fun _ => ⟨hs.1, nofun, nofun, nofun⟩
      deletions := launch_other h.deletions (by simp)
      destructions := ?_
      inserting := nofun
      named := fun hr => absurd (hs.1.symm.trans hr) (by simp)
      deleting := by simp
      removed := nofun
      removing := fun _ => hs
      deleted := nofun }
    exact fun _ _ _ => ⟨hmode, hs.1⟩

theorem finishDelete_invariant {s : State} (h : Invariant count s) (hs : Forgotten s) :
    Invariant count (finishDelete s) :=
  .of_idle rfl (fun hr => absurd (hs.1.symm.trans hr) (by simp)) h.announced
    (fun hput => .inr (.inr (hs.2 hput))) (fun hr => h.installed (.inl hr)) (fun _ => hs.1)
    h.deletions (fun f hf ho => ⟨nofun, (h.destructions f hf ho).2⟩)
    (fun hr => absurd (hs.1.symm.trans hr) (by simp)) (fun _ => hs)

theorem startDelete_invariant {s : State} (h : Invariant count s) (hs : s.await = .idle) :
    Invariant count (startDelete count s) := by
  have hnamed : s.row → s.compensationFailed = false → s.journal.getLast? = some .put :=
    fun hr => h.named hr (by simp [hs]) (by simp [hs])
  simp only [startDelete]
  split
  · exact {
      persisted := h.persisted
      announced := h.announced
      remembered := h.remembered
      installed := fun hr => h.installed (.inl (hr.resolve_right (by simp)))
      committing := nofun
      writing := by simp
      aborting := fun ha => ⟨(h.aborting ha).1, nofun, nofun, nofun⟩
      deletions := h.deletions
      destructions := h.destructions
      inserting := nofun
      named := fun hr _ _ => hnamed hr
      deleting := by simp
      removed := nofun
      removing := by simp
      deleted := nofun }
  · next hflags =>
    rw [not_or] at hflags
    apply removeSlices_invariant
    · exact .of_idle hs h.persisted h.announced h.remembered
        (fun hr => h.installed (.inl hr)) (fun ha => (h.aborting ha).1) h.deletions
        h.destructions hnamed (h.deleted hs)
    · refine ⟨?_, fun hput => ((h.remembered hput).resolve_left hflags.1).resolve_left hflags.2⟩
      rw [Bool.eq_false_iff]
      exact fun hr => hflags.1 (h.persisted hr).1

theorem slicesClosed_invariant {s : State} (h : Invariant count s) (hs : s.await = .closing) :
    Invariant count (slicesClosed count s) := by
  have hnamed : s.row → s.compensationFailed = false → s.journal.getLast? = some .put :=
    fun hr => h.named hr (by simp [hs]) (by simp [hs])
  simp only [slicesClosed]
  split
  · exact throwing_invariant _ (h.promises false) hnamed
  · next haborting =>
    exact {
      persisted := h.persisted
      announced := h.announced
      remembered := h.remembered
      installed := fun hr => h.installed (.inl (hr.resolve_right (by simp)))
      committing := fun _ i hi => .inr (launch_mem.mpr (.inr ⟨i, hi, rfl⟩))
      writing := fun _ => h.writing (.inl hs)
      aborting := fun ha => absurd ha haborting
      deletions := launch_other h.deletions (by simp)
      destructions := launch_other h.destructions (by simp)
      inserting := nofun
      named := fun hr _ _ => hnamed hr
      deleting := by simp
      removed := nofun
      removing := by simp
      deleted := nofun }

theorem slicesCommitted_invariant {s : State} (h : Invariant count s)
    (hs : s.await = .committing) (hlanded : ∀ f ∈ s.flights, f.call ≠ s.call) :
    Invariant count (slicesCommitted s) := by
  have hinstalled : ∀ i < count, Installed s i := fun i hi =>
    (h.committing hs i hi).resolve_right fun hf => hlanded _ hf rfl
  have hnamed : s.row → s.compensationFailed = false → s.journal.getLast? = some .put :=
    fun hr => h.named hr (by simp [hs]) (by simp [hs])
  simp only [slicesCommitted]
  split
  · exact throwing_invariant _ (h.promises false) hnamed
  · next haborting =>
    exact {
      persisted := h.persisted
      announced := h.announced
      remembered := h.remembered
      installed := fun _ => hinstalled
      committing := nofun
      writing := fun _ => h.writing (.inr (.inl hs))
      aborting := fun ha => absurd ha haborting
      deletions := h.deletions
      destructions := h.destructions
      inserting := nofun
      named := fun hr _ _ => hnamed hr
      deleting := by simp
      removed := nofun
      removing := by simp
      deleted := nofun }

theorem resolved_invariant {s : State} (h : Invariant count s)
    (hlanded : ∀ f ∈ s.flights, f.call ≠ s.call) : Invariant count (resolved count s) := by
  simp only [resolved]
  split
  · next hs => exact slicesClosed_invariant h hs
  · next hs => exact slicesCommitted_invariant h hs hlanded
  · next hs => exact finishDelete_invariant h (h.removing (.inl hs))
  · next hs => exact finishDelete_invariant h (h.removing (.inr hs))
  · exact h

theorem rejected_invariant {s : State} (h : Invariant count s) :
    Invariant count (rejected s) := by
  have hnamed : s.await ≠ .deletingRow → s.await ≠ .compensating → s.row →
      s.compensationFailed = false → s.journal.getLast? = some .put := fun h1 h2 hr =>
    h.named hr h1 h2
  simp only [rejected]
  split
  · next hs => exact throwing_invariant _ h (hnamed (by simp [hs]) (by simp [hs]))
  · next hs => exact throwing_invariant _ h (hnamed (by simp [hs]) (by simp [hs]))
  · next hs => exact throwing_invariant _ h (hnamed (by simp [hs]) (by simp [hs]))
  · next hs => exact finishDelete_invariant h (h.removing (.inr hs))
  · exact h

/-- Only a deletion takes a committed file away. -/
theorem perform_installed (calls : Calls) (failedWrite : Bool) {operation : SliceOperation}
    (s : Slice) (hdelete : operation ≠ .delete) (hdestroy : operation ≠ .destroy) :
    (s.committed.isSome → (perform calls failedWrite operation s).2.committed.isSome) ∧
    (operation = .commit → (perform calls failedWrite operation s).1 →
      (perform calls failedWrite operation s).2.committed.isSome) := by
  cases operation with
  | close => simp [perform, ((@close_untouched calls) s).committed]
  | commit =>
    obtain ⟨hkept, hok⟩ := (@commit_installed calls) s
    constructor
    · intro hs
      rcases hkept with hkept | hkept
      · simpa [perform, hkept] using hs
      · exact hkept
    · intro _ hresult
      apply hok
      simp only [perform] at hresult
      cases hr : (commit calls s).1 with
      | ok _ => rfl
      | error e => simp [hr, Except.isOk, Except.toBool] at hresult
  | delete => exact absurd rfl hdelete
  | destroy => exact absurd rfl hdestroy

/-- An operation lands, and if the commit awaits it then it has succeeded. -/
theorem land_invariant {s : State} {calls : Calls} {f : Flight} (h : Invariant count s)
    (hf : f ∈ s.flights) (hok : s.await = .committing → f.call = s.call → (land calls f s).1) :
    Invariant count (land calls f s).2 := by
  have hflights : ∀ g ∈ (land calls f s).2.flights, g ∈ s.flights :=
    fun g hg => List.mem_of_mem_erase hg
  have hinstalled : f.operation ≠ .delete → f.operation ≠ .destroy → ∀ i, Installed s i →
      Installed (land calls f s).2 i := by
    intro hdelete hdestroy i hi
    simp only [Installed, land, Function.update_apply] at hi ⊢
    split
    · next heq =>
      subst heq
      exact hi.imp id (perform_installed calls _ _ hdelete hdestroy).1
    · exact hi
  have hcommitted : f.operation = .commit → (land calls f s).1 →
      Installed (land calls f s).2 f.slice := by
    intro hop hresult
    right
    simp only [land, Function.update_self]
    exact (perform_installed calls _ _ (by simp [hop]) (by simp [hop])).2 hop hresult
  have hdelete : f.operation = .delete → s.isAborting := h.deletions f hf
  have hdestroy : f.operation = .destroy → s.mode ≠ some .write ∧ s.row = false :=
    h.destructions f hf
  have hkeeps : ¬ s.isAborting → s.row ∨ s.mode = some .write → ∀ i, Installed s i →
      Installed (land calls f s).2 i := fun haborting hs =>
    hinstalled (fun hop => haborting (hdelete hop)) fun hop => by
      obtain ⟨hmode, hrow⟩ := hdestroy hop
      rcases hs with hr | hw
      · simp [hrow] at hr
      · exact hmode hw
  refine {
    persisted := h.persisted
    announced := h.announced
    remembered := h.remembered
    installed := ?_
    committing := ?_
    writing := h.writing
    aborting := h.aborting
    deletions := fun g hg => h.deletions g (hflights g hg)
    destructions := fun g hg => h.destructions g (hflights g hg)
    inserting := h.inserting
    named := h.named
    deleting := h.deleting
    removed := h.removed
    removing := h.removing
    deleted := h.deleted }
  · intro hs i hi
    refine hkeeps ?_ ?_ i (h.installed hs i hi)
    · intro haborting
      obtain ⟨hrow, _, hput, hinsert⟩ := h.aborting haborting
      rcases hs with hr | hs | hs
      · exact absurd (hrow.symm.trans hr) (by simp)
      · exact hput hs
      · exact hinsert hs
    · exact hs.imp id fun hs => h.writing (.inr (.inr hs))
  · intro hs i hi
    rcases h.committing hs i hi with hi | hi
    · exact .inl (hkeeps (fun ha => (h.aborting ha).2.1 hs)
        (.inr (h.writing (.inr (.inl hs)))) i hi)
    · by_cases heq : ⟨i, .commit, s.call⟩ = f
      · subst heq
        exact .inl (hcommitted rfl (hok hs rfl))
      · exact .inr ((List.mem_erase_of_ne heq).mpr hi)

theorem settle_invariant {s : State} {calls : Calls} {f : Flight} (h : Invariant count s)
    (hf : f ∈ s.flights) : Invariant count (settle count calls f s) := by
  simp only [settle]
  have hland : rejected (land calls f s).2 = (land calls f (rejected s)).2 := by
    simp only [rejected, land, throwing, finishDelete, returning]
    split <;> rfl
  have hcall : (land calls f s).2.call = s.call := rfl
  by_cases hcurrent : f.call = s.call
  · rw [if_neg (by simpa [hcall] using hcurrent)]
    cases hresult : (land calls f s).1 with
    | false =>
      simp only [Bool.not_false, ↓reduceIte, hland]
      have hawait : (rejected s).await ≠ .committing := by
        simp only [rejected]
        split <;> simp_all [throwing, finishDelete, returning]
      have hflights : (rejected s).flights = s.flights := by
        simp only [rejected, throwing, finishDelete, returning]
        split <;> rfl
      exact land_invariant (rejected_invariant h) (hflights ▸ hf) fun hs _ => absurd hs hawait
    | true =>
      simp only [Bool.not_true, Bool.false_eq_true, ↓reduceIte]
      have hlanded := (@land_invariant _ _ calls) h hf fun _ _ => hresult
      split
      · exact hlanded
      · next hnone =>
        apply resolved_invariant hlanded
        simpa using hnone
  · rw [if_pos (by simpa [hcall] using hcurrent)]
    exact land_invariant h hf fun _ hc => absurd hc hcurrent

theorem journalPut_invariant {s : State} (h : Invariant count s)
    (hs : s.await = .journalingPut) : Invariant count (next count s (.journalPut true)) where
  persisted := h.persisted
  announced := fun _ => by simp [next]
  remembered := fun _ => .inr (.inl rfl)
  installed := fun _ => h.installed (.inr (.inl hs))
  committing := nofun
  writing := fun _ => h.writing (.inr (.inr (.inl hs)))
  aborting := fun ha => absurd hs (h.aborting ha).2.2.1
  deletions := h.deletions
  destructions := h.destructions
  inserting := fun _ => List.getLast?_concat
  named := fun _ _ _ _ => List.getLast?_concat
  deleting := by simp [next]
  removed := nofun
  removing := by simp [next]
  deleted := nofun

theorem createObjectRecord_invariant {s : State} (h : Invariant count s)
    (hs : s.await = .insertingRow) :
    Invariant count (next count s (.createObjectRecord true)) where
  persisted := fun _ => ⟨rfl, rfl⟩
  announced := fun _ => List.mem_of_getLast? (h.inserting hs)
  remembered := fun _ => .inl rfl
  installed := fun _ => h.installed (.inr (.inr hs))
  committing := nofun
  writing := by simp [next]
  aborting := fun ha => absurd hs (h.aborting ha).2.2.2
  deletions := h.deletions
  destructions := fun f hf ho =>
    absurd (h.writing (.inr (.inr (.inr hs)))) (h.destructions f hf ho).1
  inserting := nofun
  named := fun _ _ _ _ => h.inserting hs
  deleting := by simp [next]
  removed := nofun
  removing := by simp [next]
  deleted := nofun

theorem journalDelete_invariant {s : State} (h : Invariant count s)
    (hs : s.await = .journalingDelete) : Invariant count (next count s (.journalDelete true)) := by
  simp only [next]
  split
  · next hpersisted =>
    exact {
      persisted := h.persisted
      announced := fun hi => List.mem_append_left _ (h.announced hi)
      remembered := fun _ => .inl hpersisted
      installed := fun hr => h.installed (.inl (hr.resolve_right (by simp)))
      committing := nofun
      writing := by simp
      aborting := fun ha => ⟨(h.aborting ha).1, nofun, nofun, nofun⟩
      deletions := h.deletions
      destructions := h.destructions
      inserting := nofun
      named := fun _ hne => absurd rfl hne
      deleting := fun _ => ⟨hpersisted, List.getLast?_concat⟩
      removed := nofun
      removing := by simp
      deleted := nofun }
  · next hpersisted =>
    have hrow : s.row = false := by
      rw [Bool.eq_false_iff]
      exact fun hr => hpersisted (h.persisted hr).1
    refine removeSlices_invariant ?_ ⟨hrow, fun _ => List.getLast?_concat⟩
    exact {
      persisted := h.persisted
      announced := fun hi => List.mem_append_left _ (h.announced hi)
      remembered := fun _ => .inr (.inr List.getLast?_concat)
      installed := h.installed
      committing := h.committing
      writing := h.writing
      aborting := h.aborting
      deletions := h.deletions
      destructions := h.destructions
      inserting := by simp [hs]
      named := fun hr => absurd (hrow.symm.trans hr) (by simp)
      deleting := by simp [hs]
      removed := h.removed
      removing := by simp [hs]
      deleted := by simp [hs] }

theorem deleteObjectById_invariant {s : State} (h : Invariant count s)
    (hs : s.await = .deletingRow) (ok : Bool) :
    Invariant count (next count s (.deleteObjectById ok)) := by
  obtain ⟨hpersisted, hdel⟩ := h.deleting (.inl hs)
  cases ok with
  | true =>
    exact {
      persisted := nofun
      announced := h.announced
      remembered := fun _ => .inl hpersisted
      installed := by simp [next]
      committing := nofun
      writing := by simp [next]
      aborting := fun _ => ⟨rfl, nofun, nofun, nofun⟩
      deletions := h.deletions
      destructions := fun f hf ho => ⟨(h.destructions f hf ho).1, rfl⟩
      inserting := nofun
      named := nofun
      deleting := fun _ => ⟨hpersisted, hdel⟩
      removed := fun _ => rfl
      removing := by simp [next]
      deleted := nofun }
  | false =>
    exact {
      persisted := h.persisted
      announced := h.announced
      remembered := h.remembered
      installed := fun hr => h.installed (.inl (hr.resolve_right (by simp [next])))
      committing := nofun
      writing := by simp [next]
      aborting := fun ha => ⟨(h.aborting ha).1, nofun, nofun, nofun⟩
      deletions := h.deletions
      destructions := h.destructions
      inserting := nofun
      named := fun _ _ hne => absurd rfl hne
      deleting := fun _ => ⟨hpersisted, hdel⟩
      removed := nofun
      removing := by simp [next]
      deleted := nofun }

theorem step_preserves_invariant {s : State} (h : Invariant count s) {e : Event}
    (he : Enabled s e) : Invariant count (next count s e) := by
  have hnamed : s.await ≠ .deletingRow → s.await ≠ .compensating → s.row →
      s.compensationFailed = false → s.journal.getLast? = some .put := fun h1 h2 hr =>
    h.named hr h1 h2
  cases e with
  | commit => exact startCommit_invariant h he
  | delete => exact startDelete_invariant h he
  | settle f calls => exact settle_invariant h he
  | journalPut ok =>
    have hs : s.await = .journalingPut := he
    cases ok with
    | true => exact journalPut_invariant h hs
    | false => exact throwing_invariant _ h (hnamed (by simp [hs]) (by simp [hs]))
  | createObjectRecord ok =>
    have hs : s.await = .insertingRow := he
    cases ok with
    | true => exact createObjectRecord_invariant h hs
    | false => exact throwing_invariant _ h (hnamed (by simp [hs]) (by simp [hs]))
  | recordObjectCreated ok =>
    have hs : s.await = .recordingCreated := he
    cases ok with
    | true =>
      exact .of_idle rfl h.persisted h.announced h.remembered
        (fun hr => h.installed (.inl hr)) (fun ha => (h.aborting ha).1) h.deletions
        (fun f hf ho => ⟨nofun, (h.destructions f hf ho).2⟩)
        (hnamed (by simp [hs]) (by simp [hs])) (by simp [next, returning])
    | false => exact throwing_invariant _ h (hnamed (by simp [hs]) (by simp [hs]))
  | journalDelete ok =>
    have hs : s.await = .journalingDelete := he
    cases ok with
    | true => exact journalDelete_invariant h hs
    | false => exact throwing_invariant _ h (hnamed (by simp [hs]) (by simp [hs]))
  | deleteObjectById ok => exact deleteObjectById_invariant h he ok
  | compensate ok =>
    have hs : s.await = .compensating := he
    have hpersisted := (h.deleting (.inr (.inl hs))).1
    cases ok with
    | true =>
      exact .of_idle rfl h.persisted (fun hi => List.mem_append_left _ (h.announced hi))
        (fun _ => .inl hpersisted) (fun hr => h.installed (.inl hr))
        (fun ha => (h.aborting ha).1) h.deletions h.destructions
        (fun _ _ => List.getLast?_concat) (by simp [next, throwing])
    | false =>
      exact .of_idle rfl h.persisted h.announced h.remembered
        (fun hr => h.installed (.inl hr)) (fun ha => (h.aborting ha).1) h.deletions
        h.destructions (by simp [next, throwing]) (by simp [next, throwing])
  | recordObjectDeleted ok =>
    have hrow := h.removed he
    cases ok with
    | false => exact throwing_invariant _ h fun hr => by simp [hrow] at hr
    | true =>
      exact removeSlices_invariant h ⟨hrow, fun _ => (h.deleting (.inr (.inr he))).2⟩

theorem reachable_invariant {s : State} (h : Reachable (machine count) s) :
    Invariant count s := by
  refine h.invariant ?_ fun s e hs (he : Enabled s e) => step_preserves_invariant hs he
  rintro s (⟨failedWrites, slices, rfl⟩ | ⟨isReading, slices, journal, rfl⟩)
  · exact created_invariant failedWrites slices
  · exact loaded_invariant isReading slices journal

variable (count)

/-- What the platters, the journal and the database say about the object, at any time and
so after any crash. -/
structure Honest (s : State) : Prop where
  /-- No phantom: a row is only there with every slice committed and none unlinked. -/
  no_phantom : s.row → ∀ i < count, Installed s i
  /-- A row that is or was there has been announced in the journal. -/
  announced : s.row ∨ s.inserted → .put ∈ s.journal
  /-- It was announced before it was inserted. -/
  announced_first : ∀ e, Enabled s e → s.row = false → (next count s e).row →
    .put ∈ s.journal
  /-- After a call, an object that is there has its name in the journal. -/
  named : s.await = .idle → s.row → s.compensationFailed = false →
    s.journal.getLast? = some .put
  /-- After a successful delete, an object that was ever heard of is journaled as deleted. -/
  deleted : s.await = .idle → s.result = some (.delete, true) →
    s.row = false ∧ (s.inserted ∨ .put ∈ s.journal → s.journal.getLast? = some .del)

variable {count}

theorem removeSlices_row (s : State) : (removeSlices count s).row = s.row := by
  simp only [removeSlices, abort]
  split
  · split <;> rfl
  · rfl

theorem settle_row (calls : Calls) (f : Flight) (s : State) :
    (settle count calls f s).row = s.row := by
  have hland : (land calls f s).2.row = s.row := rfl
  have hrejected (s : State) : (rejected s).row = s.row := by
    simp only [rejected]
    split <;> rfl
  have hresolved (s : State) : (resolved count s).row = s.row := by
    simp only [resolved, slicesClosed, slicesCommitted]
    split
    · split <;> rfl
    · split <;> rfl
    all_goals rfl
  simp only [settle]
  split
  · exact hland
  · split
    · rw [hrejected, hland]
    · split
      · exact hland
      · rw [hresolved, hland]

/-- A row only appears when the database accepts it. -/
theorem next_row {s : State} {e : Event} (hs : s.row = false) (hu : (next count s e).row) :
    e = .createObjectRecord true := by
  cases e with
  | commit =>
    simp only [next, startCommit] at hu
    split at hu <;> simp [throwing, launch, hs] at hu
  | delete =>
    simp only [next, startDelete] at hu
    split at hu <;> simp [removeSlices_row, hs] at hu
  | settle f calls => simp [next, settle_row, hs] at hu
  | createObjectRecord ok =>
    cases ok with
    | false => simp [next, throwing, hs] at hu
    | true => rfl
  | journalDelete ok =>
    cases ok with
    | false => simp [next, throwing, hs] at hu
    | true =>
      simp only [next] at hu
      split at hu <;> simp [removeSlices_row, hs] at hu
  | recordObjectDeleted ok => cases ok <;> simp [next, throwing, removeSlices_row, hs] at hu
  | journalPut ok => cases ok <;> simp [next, throwing, hs] at hu
  | recordObjectCreated ok => cases ok <;> simp [next, returning, throwing, hs] at hu
  | deleteObjectById ok => cases ok <;> simp [next, hs] at hu
  | compensate ok => cases ok <;> simp [next, throwing, hs] at hu

theorem reachable_honest {s : State} (h : Reachable (machine count) s) : Honest count s := by
  have hinv := reachable_invariant h
  refine ⟨fun hr => hinv.installed (.inl hr), ?_, ?_, ?_, ?_⟩
  · rintro (hr | hi)
    · exact hinv.announced (hinv.persisted hr).2
    · exact hinv.announced hi
  · intro e he hs hu
    obtain rfl := next_row hs hu
    exact List.mem_of_getLast? (hinv.inserting he)
  · intro hidle hr
    exact hinv.named hr (by simp [hidle]) (by simp [hidle])
  · intro hidle hres
    obtain ⟨hrow, hdel⟩ := hinv.deleted hidle hres
    exact ⟨hrow, fun hput => hdel (hput.elim hinv.announced id)⟩

/-- A slice that holds a written temporary file. -/
def writtenSlice : Slice where
  mode := some .write
  outputOpen := true
  isCommitted := false
  size := 32
  reservedBytes := 32
  hasReservation := true
  sliceType := .data
  committed := none
  temporary := some [1]
  volume := ⟨32, 0, 0, some 64⟩
  clock := 0

/-- A commit of one slice that succeeds, and a delete that the database rejects. -/
def rejectedDelete : List Event :=
  [.commit, .settle ⟨0, .close, 1⟩ fun _ => none, .settle ⟨0, .commit, 1⟩ fun _ => none,
    .journalPut true, .createObjectRecord true, .recordObjectCreated true,
    .delete, .journalDelete true, .deleteObjectById false, .compensate true]

theorem reachable_honest_rejected :
    Honest 1 (rejectedDelete.foldl (next 1) (created (fun _ => false) fun _ => writtenSlice)) ∧
    (rejectedDelete.foldl (next 1) (created (fun _ => false) fun _ => writtenSlice)).row ∧
    (rejectedDelete.foldl (next 1)
      (created (fun _ => false) fun _ => writtenSlice)).journal = [.put, .del, .put] := by
  have hcreated : Reachable (machine 1) (created (fun _ => false) fun _ => writtenSlice) :=
    .initial (.inl ⟨_, _, rfl⟩)
  have hrun : ∀ n (hn : n < rejectedDelete.length),
      Enabled ((rejectedDelete.take n).foldl (next 1) (created (fun _ => false) fun _ =>
        writtenSlice)) rejectedDelete[n] := by decide +kernel
  refine ⟨reachable_honest (hcreated.run rejectedDelete hrun), ?_, ?_⟩
  · decide +kernel
  · decide +kernel

end FileObjectLifecycle
