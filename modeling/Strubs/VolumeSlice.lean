import Strubs.SliceFile

/-! # The write side of a slice

A slice is written to a temporary file and renamed over the committed one. Every system
call may fail, and a failed write may leave part of its bytes. Committing and deleting
touch the byte accounting of the slice's volume in different ways, depending on whether
the object holds a reservation. -/
namespace VolumeSlice

open MessageDigest SliceFile

/-- The byte accounting of one volume. -/
structure Volume where
  bytesPending : ℕ
  bytesUsedData : ℕ
  bytesUsedParity : ℕ
  bytesFree : Option ℕ
  deriving DecidableEq, Repr

inductive SliceType where
  | data
  | parity
  deriving DecidableEq, Repr

inductive Mode where
  | write
  | read
  deriving DecidableEq, Repr

inductive SliceError where
  | io
  | headerRange
  | notOpenedForWriting
  | notOpen
  deriving DecidableEq, Repr

/-- The fields of a slice, its two files and its volume. `clock` counts system calls. -/
structure Slice where
  mode : Option Mode
  outputOpen : Bool
  isCommitted : Bool
  size : ℕ
  reservedBytes : ℕ
  hasReservation : Bool
  sliceType : SliceType
  committed : Option Bytes
  temporary : Option Bytes
  volume : Volume
  clock : ℕ

/-- The `n`-th system call succeeds, or fails after a number of written bytes. -/
abbrev Calls := ℕ → Option ℕ

namespace Volume

def releaseReservation (v : Volume) (bytes : ℕ) : Volume :=
  { v with bytesPending := v.bytesPending - bytes }

def applyCommittedBytes (v : Volume) (bytesReserved bytesWritten : ℕ) (t : SliceType) : Volume :=
  let v := releaseReservation v bytesReserved
  let v := match t with
    | .data => { v with bytesUsedData := v.bytesUsedData + bytesWritten }
    | .parity => { v with bytesUsedParity := v.bytesUsedParity + bytesWritten }
  { v with bytesFree := v.bytesFree.map (· - bytesWritten) }

def releaseCommittedBytes (v : Volume) (bytes : ℕ) (t : SliceType) : Volume :=
  let v := match t with
    | .data => { v with bytesUsedData := v.bytesUsedData - bytes }
    | .parity => { v with bytesUsedParity := v.bytesUsedParity - bytes }
  { v with bytesFree := v.bytesFree.map (· + bytes) }

end Volume

variable (calls : Calls)

def tick (s : Slice) : Slice := { s with clock := s.clock + 1 }

/-- Closes the handle and removes the temporary file, as far as the volume allows. -/
def cleanupOutputHandle (s : Slice) : Slice :=
  let s := { s with outputOpen := false }
  match calls s.clock with
  | none => { tick s with temporary := none }
  | some _ => tick s

/-- `header` is absent when a field of the object does not fit it. An abort that is noticed
once the file is open is a failed write of no bytes. -/
def create (header : Option Bytes) (s : Slice) : Except SliceError Unit × Slice :=
  let s := { s with size := ChunkPlan.fileHeaderSize }
  match calls s.clock with
  | some _ => (.error .io, tick s)
  | none =>
    let s := { tick s with temporary := some [], outputOpen := true }
    match header with
    | none => (.error .headerRange, s)
    | some bytes =>
      match calls s.clock with
      | some written =>
        (.error .io,
          cleanupOutputHandle calls { tick s with temporary := some (bytes.take written) })
      | none => (.ok (), { tick s with temporary := some bytes, mode := some .write })

def writeChunk (md5 : Md5) (data : Bytes) (s : Slice) : Except SliceError Unit × Slice :=
  if s.mode = some .write then
    let record := chunkRecord md5 data
    match calls s.clock with
    | some written =>
      (.error .io, { tick s with temporary := s.temporary.map (· ++ record.take written) })
    | none => (.ok (), { tick s with
        temporary := s.temporary.map (· ++ record), size := s.size + record.length })
  else (.error .notOpenedForWriting, s)

/-- In write mode the file is synced before its handle is closed. -/
def close (s : Slice) : Except SliceError Unit × Slice :=
  match s.mode with
  | none => (.error .notOpen, s)
  | some .read =>
    match calls s.clock with
    | some _ => (.error .io, tick s)
    | none => (.ok (), { tick s with mode := none })
  | some .write =>
    match calls s.clock with
    | some _ => (.error .io, tick s)
    | none =>
      let s := tick s
      match calls s.clock with
      | some _ => (.error .io, tick s)
      | none => (.ok (), { tick s with outputOpen := false, mode := none })

/-- Making the directory durable, the rename, and making the new name durable. -/
def commitTemporaryFile (s : Slice) : Except SliceError Unit × Slice :=
  match calls s.clock with
  | some _ => (.error .io, tick s)
  | none =>
    let s := tick s
    match calls s.clock, s.temporary with
    | some _, _ => (.error .io, tick s)
    | none, none => (.error .io, tick s)
    | none, some bytes =>
      let s := { tick s with committed := some bytes, temporary := none }
      match calls s.clock with
      | some _ => (.error .io, tick s)
      | none => (.ok (), tick s)

def commit (s : Slice) : Except SliceError Unit × Slice :=
  match commitTemporaryFile calls s with
  | (.error e, s) => (.error e, s)
  | (.ok _, s) =>
    let volume := if s.hasReservation
      then s.volume.applyCommittedBytes s.reservedBytes s.size s.sliceType else s.volume
    (.ok (), { s with volume, isCommitted := true, mode := none })

/-- Unlinks the committed file of a committed slice, else the temporary one. -/
def unlink (s : Slice) : Except SliceError Unit × Slice :=
  if s.isCommitted then
    match calls s.clock, s.committed with
    | none, some _ => (.ok (), { tick s with
        committed := none, volume := s.volume.releaseCommittedBytes s.size s.sliceType })
    | _, _ => (.error .io, tick s)
  else
    match calls s.clock, s.temporary with
    | none, some _ => (.ok (), { tick s with
        temporary := none
        volume := if s.hasReservation
          then s.volume.releaseReservation s.reservedBytes else s.volume })
    | _, _ => (.error .io, tick s)

def closeOutput (s : Slice) : Except SliceError Unit × Slice :=
  if s.mode = some .write ∧ s.outputOpen then
    match calls s.clock with
    | some _ => (.error .io, tick s)
    | none => (.ok (), { tick s with outputOpen := false })
  else (.ok (), s)

def delete (s : Slice) : Except SliceError Unit × Slice :=
  match closeOutput calls s with
  | (.error e, s) => (.error e, s)
  | (.ok _, s) =>
    match unlink calls s with
    | (.error e, s) => (.error e, s)
    | (.ok _, s) => (.ok (), { s with mode := none })

/-! What an operation leaves alone. -/

/-- The committed file and the accounting are as before, and so is what decides about
the accounting. -/
structure Untouched (s s' : Slice) : Prop where
  committed : s'.committed = s.committed
  volume : s'.volume = s.volume
  uncommitted : s'.isCommitted = s.isCommitted
  unreserved : s'.hasReservation = s.hasReservation

theorem Untouched.refl (s : Slice) : Untouched s s := ⟨rfl, rfl, rfl, rfl⟩

theorem Untouched.trans {a b c : Slice} (h : Untouched a b) (h' : Untouched b c) :
    Untouched a c :=
  ⟨h'.1.trans h.1, h'.2.trans h.2, h'.3.trans h.3, h'.4.trans h.4⟩

variable {calls}

theorem cleanupOutputHandle_untouched (s : Slice) :
    Untouched s (cleanupOutputHandle calls s) := by
  simp only [cleanupOutputHandle]
  split <;> exact ⟨rfl, rfl, rfl, rfl⟩

theorem create_untouched (header : Option Bytes) (s : Slice) :
    Untouched s (create calls header s).2 := by
  simp only [create]
  split
  · exact ⟨rfl, rfl, rfl, rfl⟩
  · split
    · exact ⟨rfl, rfl, rfl, rfl⟩
    · split
      · refine Untouched.trans ?_ (cleanupOutputHandle_untouched _)
        exact ⟨rfl, rfl, rfl, rfl⟩
      · exact ⟨rfl, rfl, rfl, rfl⟩

/-- A created slice holds its header and is open for writing. -/
theorem create_ok {header : Option Bytes} {s s' : Slice}
    (h : create calls header s = (.ok (), s')) :
    ∃ bytes, header = some bytes ∧ s'.temporary = some bytes ∧ s'.mode = some .write := by
  simp only [create] at h
  split at h
  · cases h
  · split at h
    · cases h
    · split at h
      · cases h
      · cases h
        exact ⟨_, rfl, rfl, rfl⟩

theorem writeChunk_untouched (md5 : Md5) (data : Bytes) (s : Slice) :
    Untouched s (writeChunk calls md5 data s).2 := by
  simp only [writeChunk]
  split
  · split <;> exact ⟨rfl, rfl, rfl, rfl⟩
  · exact .refl s

theorem writeChunk_ok {md5 : Md5} {data bytes : Bytes} {s s' : Slice}
    (h : writeChunk calls md5 data s = (.ok (), s')) (hs : s.temporary = some bytes) :
    s'.temporary = some (bytes ++ chunkRecord md5 data) := by
  simp only [writeChunk] at h
  split at h
  · split at h
    · cases h
    · cases h
      simp [hs]
  · cases h

theorem close_untouched (s : Slice) : Untouched s (close calls s).2 := by
  simp only [close]
  split
  · exact .refl s
  · split <;> exact ⟨rfl, rfl, rfl, rfl⟩
  · split
    · exact ⟨rfl, rfl, rfl, rfl⟩
    · split <;> exact ⟨rfl, rfl, rfl, rfl⟩

theorem close_temporary (s : Slice) : (close calls s).2.temporary = s.temporary := by
  simp only [close]
  split
  · rfl
  · split <;> rfl
  · split
    · rfl
    · split <;> rfl

/-- A slice without a reservation that was not committed: deleting it leaves the committed
file and the accounting alone. -/
theorem delete_untouched {s : Slice} (hc : s.isCommitted = false)
    (hr : s.hasReservation = false) : Untouched s (delete calls s).2 := by
  have hclose : Untouched s (closeOutput calls s).2 := by
    simp only [closeOutput]
    split
    · split <;> exact ⟨rfl, rfl, rfl, rfl⟩
    · exact .refl s
  have hunlink : ∀ s' : Slice, Untouched s s' → Untouched s' (unlink calls s').2 := by
    intro s' h
    simp only [unlink, h.uncommitted, hc, h.unreserved, hr, Bool.false_eq_true, ↓reduceIte]
    split
    · exact ⟨rfl, rfl, h.uncommitted.trans hc ▸ rfl, rfl⟩
    · exact ⟨rfl, rfl, rfl, rfl⟩
  simp only [delete]
  generalize closeOutput calls s = closed at hclose ⊢
  obtain ⟨result, s₁⟩ := closed
  cases result with
  | error e => exact hclose
  | ok _ =>
    have h₂ := hunlink s₁ hclose
    simp only
    generalize unlink calls s₁ = unlinked at h₂ ⊢
    obtain ⟨result, s₂⟩ := unlinked
    cases result with
    | error e => exact hclose.trans h₂
    | ok _ => exact (hclose.trans h₂).trans ⟨rfl, rfl, rfl, rfl⟩

/-- A commit installs the temporary file or nothing, and says so only when it has. Without a
reservation it leaves the accounting alone, and a failed commit leaves the slice uncommitted. -/
theorem commit_spec (s : Slice) (hr : s.hasReservation = false) :
    ((commit calls s).2.committed = s.committed ∨
      ∃ bytes, s.temporary = some bytes ∧ (commit calls s).2.committed = some bytes) ∧
    (commit calls s).2.volume = s.volume ∧ (commit calls s).2.hasReservation = false ∧
    ∀ e, (commit calls s).1 = .error e → (commit calls s).2.isCommitted = s.isCommitted := by
  simp only [commit, commitTemporaryFile]
  rcases hdir : calls s.clock with _ | n
  · simp only
    rcases hrename : calls (tick s).clock with _ | n
    · rcases htmp : (tick s).temporary with _ | bytes
      · exact ⟨.inl rfl, rfl, hr, fun _ _ => rfl⟩
      · simp only
        rcases hsync : calls (tick (tick s)).clock with _ | n
        · exact ⟨.inr ⟨bytes, htmp, rfl⟩, if_neg (by simp [tick, hr]), hr,
            fun e he => by cases he⟩
        · exact ⟨.inr ⟨bytes, htmp, rfl⟩, rfl, hr, fun _ _ => rfl⟩
    · exact ⟨.inl rfl, rfl, hr, fun _ _ => rfl⟩
  · exact ⟨.inl rfl, rfl, hr, fun _ _ => rfl⟩

/-- A commit never takes the committed file away, and one that succeeds has installed one. -/
theorem commit_installed (s : Slice) :
    ((commit calls s).2.committed = s.committed ∨ (commit calls s).2.committed.isSome) ∧
    ((commit calls s).1 = .ok () → (commit calls s).2.committed.isSome) := by
  simp only [commit, commitTemporaryFile]
  rcases calls s.clock with _ | n
  · simp only
    rcases calls (tick s).clock with _ | n
    · rcases (tick s).temporary with _ | bytes
      · exact ⟨.inl rfl, fun h => by cases h⟩
      · simp only
        rcases calls (tick (tick s)).clock with _ | n
        · exact ⟨.inr rfl, fun _ => rfl⟩
        · exact ⟨.inr rfl, fun h => by cases h⟩
    · exact ⟨.inl rfl, fun h => by cases h⟩
  · exact ⟨.inl rfl, fun h => by cases h⟩

end VolumeSlice
