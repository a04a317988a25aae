import Strubs.VolumeSlice

/-! # An upload that fails

Planning reserves room on the volume of every slice; the slices are created, written, closed
and committed together, the journal and the database come last. Whatever stops the upload, one
deletion follows: it unlinks the slices and gives their reservations back, but only of the
slices it reaches. The slices of a plan are on distinct volumes, so every slice is taken with
the accounting of its own. -/
namespace FailedUpload

open MessageDigest SliceFile ChunkPlan VolumeSlice

def reserveSpace (v : Volume) (bytes : ℕ) : Volume :=
  { v with bytesPending := v.bytesPending + bytes }

/-- What is planned: the object's shape, and the volumes of its slices before the plan. -/
structure Upload where
  size : ℕ
  dataSliceCount : ℕ
  paritySliceCount : ℕ
  chunkSize : ℕ
  volumes : ℕ → Volume
  data_pos : 0 < dataSliceCount
  chunk_large : 64 < chunkSize

namespace Upload

variable (u : Upload)

def totalSliceCount : ℕ := u.dataSliceCount + u.paritySliceCount

def sliceSize : ℕ :=
  (populatePlanDerivedFields u.size u.dataSliceCount u.chunkSize).sliceSize

/-- A slice of the plan, whose volume holds the reservation. -/
def plannedSlice (i : ℕ) : Slice where
  mode := none
  outputOpen := false
  isCommitted := false
  size := 0
  reservedBytes := u.sliceSize
  hasReservation := true
  sliceType := if i < u.dataSliceCount then .data else .parity
  committed := none
  temporary := none
  volume := reserveSpace (u.volumes i) u.sliceSize
  clock := 0

end Upload

/-- Everything that can go wrong. `instantiated` slices could be set up before one failed,
`chunks` are queued before the upload stops, `goesOn` says that all bytes came and the request
commits them, and `busy` slices are waited for in vain when they are deleted. -/
structure Script where
  calls : ℕ → Calls
  instantiated : ℕ
  header : ℕ → Option Bytes
  chunks : List (ℕ × Bytes)
  goesOn : Bool
  journalPut : Bool
  createObjectRecord : Bool
  recordObjectCreated : Bool
  busy : ℕ → Bool
  journalDelete : Bool
  deleteObjectById : Bool
  recordObjectDeleted : Bool

/-- `commitPromises` are still held when one of them was rejected, and so are the rejected
writes. -/
structure State where
  mode : Option Mode
  instantiated : ℕ
  slices : ℕ → Slice
  failedWrites : ℕ → Bool
  commitPromises : Bool
  journaledPut : Bool
  isPersisted : Bool

variable (md5 : Md5) (u : Upload) (s : Script)

/-- `Promise.all`: every slice goes through its operation, and all must succeed. -/
def each (operation : ℕ → Slice → Except SliceError Unit × Slice) (slices : ℕ → Slice) :
    Bool × (ℕ → Slice) :=
  ((List.range u.totalSliceCount).all fun i => (operation i (slices i)).1.isOk,
    fun i => if i < u.totalSliceCount then (operation i (slices i)).2 else slices i)

def planned : State where
  mode := none
  instantiated := 0
  slices := u.plannedSlice
  failedWrites := fun _ => false
  commitPromises := false
  journaledPut := false
  isPersisted := false

/-- A plan without parity slices is incomplete; it has reserved its room all the same. -/
def createWithSize : Bool × State :=
  if u.paritySliceCount = 0 then (false, planned u)
  else if s.instantiated < u.totalSliceCount then
    (false, { planned u with instantiated := s.instantiated })
  else
    let (ok, slices) := each u (fun i => create (s.calls i) (s.header i)) (planned u).slices
    (ok, { planned u with
      mode := if ok then some .write else none
      instantiated := u.totalSliceCount
      slices := slices })

/-- A slice whose last write was rejected ends the upload at its next write. -/
def queueSliceWrite (progress : Bool × State) (chunk : ℕ × Bytes) : Bool × State :=
  match progress with
  | (false, t) => (false, t)
  | (true, t) =>
    if t.failedWrites chunk.1 then (false, t)
    else
      match writeChunk (s.calls chunk.1) md5 chunk.2 (t.slices chunk.1) with
      | (.ok _, slice) => (true, { t with slices := Function.update t.slices chunk.1 slice })
      | (.error _, slice) => (true, { t with
          slices := Function.update t.slices chunk.1 slice
          failedWrites := Function.update t.failedWrites chunk.1 true })

/-- `finish` waits for the writes still held. -/
def finish (progress : Bool × State) : Bool × State :=
  (progress.1 && s.goesOn &&
    (List.range u.totalSliceCount).all fun i => !progress.2.failedWrites i, progress.2)

def commitWriter (t : State) : Bool × State :=
  match each u (fun i => close (s.calls i)) t.slices with
  | (false, slices) => (false, { t with slices, commitPromises := true })
  | (true, slices) =>
    match each u (fun i => commit (s.calls i)) slices with
    | (false, slices) => (false, { t with slices, commitPromises := true })
    | (true, slices) => (true, { t with slices })

def commitObject (t : State) : Bool × State :=
  match commitWriter u s t with
  | (false, t) => (false, t)
  | (true, t) =>
    if !s.journalPut then (false, t)
    else if !s.createObjectRecord then (false, { t with journaledPut := true })
    else if !s.recordObjectCreated then
      (false, { t with journaledPut := true, isPersisted := true })
    else (true, { t with journaledPut := true, isPersisted := true, mode := none })

/-- Whether the object is stored, and the state in which a failed upload is deleted. -/
def upload : Bool × State :=
  match createWithSize u s with
  | (false, t) => (false, t)
  | (true, t) =>
    match finish u s (s.chunks.foldl (queueSliceWrite md5 s) (true, t)) with
    | (false, t) => (false, t)
    | (true, t) => commitObject u s t

/-- The promises of a commit and of a slice's last write are awaited first: one that was
rejected ends the deletion, of all slices or of that one. -/
def abort (t : State) : ℕ → Slice :=
  if t.commitPromises then t.slices
  else fun i =>
    if i < t.instantiated ∧ !t.failedWrites i ∧ !s.busy i then
      (VolumeSlice.delete (s.calls i) (t.slices i)).2
    else t.slices i

/-- `FileObject.delete` while the object is being written. -/
def deleteObject (t : State) : ℕ → Slice :=
  if (t.isPersisted ∨ t.journaledPut) ∧ !s.journalDelete then t.slices
  else if t.isPersisted ∧ !(s.deleteObjectById && s.recordObjectDeleted) then t.slices
  else abort s t

/-- An object whose slices could not be created is only aborted. -/
def cleanup (t : State) : ℕ → Slice :=
  if t.mode = some .write then deleteObject s t else abort s t

/-- No call of the slice's volume has failed. -/
def Smooth (calls : Calls) (x : Slice) : Prop := ∀ n < x.clock, calls n = none

/-- Nothing is left behind: every volume has its reservation back, and no file of the object
is on a volume whose calls have all succeeded. -/
structure Clean (slices : ℕ → Slice) : Prop where
  released : ∀ i < u.totalSliceCount,
    (slices i).volume.bytesPending = (u.volumes i).bytesPending
  removed : ∀ i < u.totalSliceCount, Smooth (s.calls i) (slices i) →
    (slices i).temporary = none ∧ (slices i).committed = none

/-- The temporary file is there, its handle closes and it can be unlinked. -/
structure Deletable (calls : Calls) (x : Slice) : Prop where
  present : x.temporary.isSome
  first : calls x.clock = none
  second : x.mode = some .write → x.outputOpen → calls (x.clock + 1) = none

/-- The deletion reaches slice `i`: nothing it awaits on the way was rejected. -/
structure Reached (t : State) (i : ℕ) : Prop where
  instantiated : i < t.instantiated
  settled : t.commitPromises = false
  written : t.failedWrites i = false
  idle : s.busy i = false
  journaled : t.isPersisted ∨ t.journaledPut → s.journalDelete
  persisted : t.isPersisted → s.deleteObjectById ∧ s.recordObjectDeleted

/-- The deletion reaches every slice, and those that are not committed can be deleted. -/
structure Recoverable (t : State) : Prop where
  reached : ∀ i < u.totalSliceCount, Reached s t i
  deletable : ∀ i < u.totalSliceCount, (t.slices i).isCommitted = false →
    Deletable (s.calls i) (t.slices i)

instance (calls : Calls) (x : Slice) : Decidable (Deletable calls x) :=
  decidable_of_iff (x.temporary.isSome ∧ calls x.clock = none ∧
      (x.mode = some .write → x.outputOpen → calls (x.clock + 1) = none))
    ⟨fun h => ⟨h.1, h.2.1, h.2.2⟩, fun h => ⟨h.1, h.2, h.3⟩⟩

instance (t : State) (i : ℕ) : Decidable (Reached s t i) :=
  decidable_of_iff (i < t.instantiated ∧ t.commitPromises = false ∧ t.failedWrites i = false ∧
      s.busy i = false ∧ (t.isPersisted ∨ t.journaledPut → s.journalDelete) ∧
      (t.isPersisted → s.deleteObjectById ∧ s.recordObjectDeleted))
    ⟨fun h => ⟨h.1, h.2.1, h.2.2.1, h.2.2.2.1, h.2.2.2.2.1, h.2.2.2.2.2⟩,
      fun h => ⟨h.1, h.2, h.3, h.4, h.5, h.6⟩⟩

instance (t : State) : Decidable (Recoverable u s t) :=
  decidable_of_iff ((∀ i < u.totalSliceCount, Reached s t i) ∧
      ∀ i < u.totalSliceCount, (t.slices i).isCommitted = false →
        Deletable (s.calls i) (t.slices i))
    ⟨fun h => ⟨h.1, h.2⟩, fun h => ⟨h.1, h.2⟩⟩

/-! One slice. -/

/-- The slice is not committed, and its volume holds its reservation on top of `before`. -/
structure Reserved (r before : ℕ) (x : Slice) : Prop where
  uncommitted : x.isCommitted = false
  reservation : x.hasReservation = true
  amount : x.reservedBytes = r
  pending : x.volume.bytesPending = before + r

/-- The slice is committed and its reservation used up, without a failed call. -/
structure Stored (calls : Calls) (before : ℕ) (x : Slice) : Prop where
  committed : x.isCommitted = true
  installed : x.committed.isSome
  renamed : x.temporary = none
  closed : x.mode = none
  pending : x.volume.bytesPending = before
  smooth : Smooth calls x

variable {md5 u s} {calls : Calls} {r before : ℕ} {x x' : Slice}

theorem Reserved.of_untouched (h : Reserved r before x) (hu : Untouched x x')
    (hr : x'.reservedBytes = x.reservedBytes) : Reserved r before x' where
  uncommitted := hu.uncommitted.trans h.uncommitted
  reservation := hu.unreserved.trans h.reservation
  amount := hr.trans h.amount
  pending := hu.volume ▸ h.pending

theorem Smooth.tick (h : Smooth calls x) (hx : calls x.clock = none)
    (hclock : x'.clock = x.clock + 1) : Smooth calls x' := by
  intro n hn
  rcases Nat.lt_succ_iff_lt_or_eq.mp (hclock ▸ hn) with hn | rfl
  · exact h n hn
  · exact hx

theorem create_reservedBytes (header : Option Bytes) (x : Slice) :
    (create calls header x).2.reservedBytes = x.reservedBytes := by
  simp only [create, cleanupOutputHandle]
  split
  · rfl
  · split
    · rfl
    · split
      · split <;> rfl
      · rfl

theorem create_smooth {header : Option Bytes} (h : Smooth calls x)
    (hok : (create calls header x).1.isOk) : Smooth calls (create calls header x).2 := by
  simp only [create] at hok ⊢
  split at hok
  · cases hok
  · next hopen =>
    split at hok
    · cases hok
    · split at hok
      · cases hok
      · next hwrite =>
        have hopened : Smooth calls (tick x) := h.tick hopen rfl
        exact hopened.tick hwrite rfl

theorem writeChunk_reservedBytes (data : Bytes) (x : Slice) :
    (writeChunk calls md5 data x).2.reservedBytes = x.reservedBytes := by
  simp only [writeChunk]
  split
  · split <;> rfl
  · rfl

theorem writeChunk_smooth {data : Bytes} (h : Smooth calls x)
    (hok : (writeChunk calls md5 data x).1.isOk) :
    Smooth calls (writeChunk calls md5 data x).2 := by
  simp only [writeChunk] at hok ⊢
  split at hok
  · split at hok
    · cases hok
    · next hmode _ hwrite =>
      simp only [hmode, ↓reduceIte]
      exact h.tick hwrite rfl
  · cases hok

theorem close_reservedBytes (x : Slice) :
    (close calls x).2.reservedBytes = x.reservedBytes := by
  simp only [close]
  split
  · rfl
  · split <;> rfl
  · split
    · rfl
    · split <;> rfl

theorem close_smooth (h : Smooth calls x) (hok : (close calls x).1.isOk) :
    Smooth calls (close calls x).2 := by
  simp only [close] at hok ⊢
  split at hok
  · cases hok
  · split at hok
    · cases hok
    · next hclose => exact h.tick hclose rfl
  · split at hok
    · cases hok
    · next hsync =>
      split at hok
      · cases hok
      · next hclose =>
        have hsynced : Smooth calls (tick x) := h.tick hsync rfl
        exact hsynced.tick hclose rfl

/-- A commit that fails leaves the reservation, whatever became of the files. -/
theorem commit_reserved (h : Reserved r before x) (herr : ¬(commit calls x).1.isOk) :
    Reserved r before (commit calls x).2 := by
  simp only [commit, commitTemporaryFile] at herr ⊢
  rcases hdir : calls x.clock with _ | n
  · simp only [hdir] at herr ⊢
    rcases hrename : calls (tick x).clock with _ | n
    · rcases htmp : (tick x).temporary with _ | bytes
      · exact ⟨h.uncommitted, h.reservation, h.amount, h.pending⟩
      · simp only [hrename, htmp] at herr ⊢
        rcases hsync : calls (tick (tick x)).clock with _ | n
        · simp [hsync, Except.isOk, Except.toBool] at herr
        · exact ⟨h.uncommitted, h.reservation, h.amount, h.pending⟩
    · exact ⟨h.uncommitted, h.reservation, h.amount, h.pending⟩
  · exact ⟨h.uncommitted, h.reservation, h.amount, h.pending⟩

theorem applyCommittedBytes_pending (v : Volume) (reserved written : ℕ) (t : SliceType) :
    (v.applyCommittedBytes reserved written t).bytesPending = v.bytesPending - reserved := by
  cases t <;> rfl

theorem commit_stored (h : Reserved r before x) (hs : Smooth calls x)
    (hok : (commit calls x).1.isOk) : Stored calls before (commit calls x).2 := by
  simp only [commit, commitTemporaryFile] at hok ⊢
  rcases hdir : calls x.clock with _ | n
  · simp only [hdir] at hok ⊢
    rcases hrename : calls (tick x).clock with _ | n
    · rcases htmp : (tick x).temporary with _ | bytes
      · simp [hrename, htmp, Except.isOk, Except.toBool] at hok
      · simp only [hrename, htmp] at hok ⊢
        rcases hsync : calls (tick (tick x)).clock with _ | n
        · have h₁ : Smooth calls (tick x) := hs.tick hdir rfl
          have h₂ : Smooth calls (tick (tick x)) := h₁.tick hrename rfl
          have h₃ : Smooth calls (tick (tick (tick x))) := h₂.tick hsync rfl
          refine ⟨rfl, rfl, rfl, rfl, ?_, h₃⟩
          simp [tick, h.reservation, applyCommittedBytes_pending, h.amount, h.pending]
        · simp [hsync, Except.isOk, Except.toBool] at hok
    · simp [hrename, Except.isOk, Except.toBool] at hok
  · simp [hdir, Except.isOk, Except.toBool] at hok

/-- Unlinking the temporary file is what gives the reservation back. -/
theorem unlink_reserved (h : Reserved r before x) (hr : 0 < r) :
    ((unlink calls x).2.volume.bytesPending = before ↔
      calls x.clock = none ∧ x.temporary.isSome) ∧
    ((unlink calls x).1.isOk ↔ calls x.clock = none ∧ x.temporary.isSome) := by
  simp only [unlink, h.uncommitted, Bool.false_eq_true, ↓reduceIte]
  have hkept : x.volume.bytesPending ≠ before := by
    have := h.pending
    omega
  rcases calls x.clock with _ | n
  · rcases x.temporary with _ | bytes
    · simp [tick, hkept, Except.isOk, Except.toBool]
    · simp [h.reservation, h.amount, h.pending, Volume.releaseReservation, Except.isOk,
        Except.toBool]
  · simp [tick, hkept, Except.isOk, Except.toBool]

/-- Once the handle is closed, a deletion is the unlinking. -/
theorem delete_closed (h : closeOutput calls x = (.ok (), x')) :
    (VolumeSlice.delete calls x).2.volume = (unlink calls x').2.volume ∧
    (VolumeSlice.delete calls x).2.temporary = (unlink calls x').2.temporary ∧
    (VolumeSlice.delete calls x).2.committed = (unlink calls x').2.committed ∧
    (VolumeSlice.delete calls x).2.clock = (unlink calls x').2.clock := by
  simp only [VolumeSlice.delete, h]
  generalize unlink calls x' = unlinked
  obtain ⟨result, y⟩ := unlinked
  cases result <;> exact ⟨rfl, rfl, rfl, rfl⟩

/-- The handle is closed, or its closing is what fails. -/
theorem closeOutput_spec (calls : Calls) (h : Reserved r before x) :
    (∃ x', closeOutput calls x = (.ok (), x') ∧ Reserved r before x' ∧
      x'.temporary = x.temporary ∧ x'.committed = x.committed ∧
      (Deletable calls x ↔ calls x'.clock = none ∧ x'.temporary.isSome)) ∨
    ((VolumeSlice.delete calls x).2.volume = x.volume ∧ ¬Deletable calls x) := by
  have hkeep : ∀ opened clock, Reserved r before { x with outputOpen := opened, clock := clock } :=
    fun _ _ => ⟨h.uncommitted, h.reservation, h.amount, h.pending⟩
  by_cases hopen : x.mode = some .write ∧ x.outputOpen
  · rcases hclose : calls x.clock with _ | n
    · refine .inl ⟨{ tick x with outputOpen := false },
        by simp only [closeOutput, if_pos hopen, hclose], hkeep false (x.clock + 1), rfl, rfl, ?_⟩
      exact ⟨fun hd => ⟨hd.second hopen.1 hopen.2, hd.present⟩,
        fun hd => ⟨hd.2, hclose, fun _ _ => hd.1⟩⟩
    · refine .inr ⟨?_, fun hd => absurd hd.first (by simp [hclose])⟩
      simp only [VolumeSlice.delete, closeOutput, if_pos hopen, hclose]
      rfl
  · refine .inl ⟨x, by simp only [closeOutput, if_neg hopen], h, rfl, rfl, ?_⟩
    exact ⟨fun hd => ⟨hd.first, hd.present⟩,
      fun hd => ⟨hd.2, hd.1, fun hmode hout => absurd ⟨hmode, hout⟩ hopen⟩⟩

/-- The deletion of a slice that is not committed gives its reservation back exactly when it
goes through. -/
theorem delete_reserved (h : Reserved r before x) (hr : 0 < r) :
    (VolumeSlice.delete calls x).2.volume.bytesPending = before ↔ Deletable calls x := by
  rcases closeOutput_spec calls h with ⟨x', hclosed, hx', -, -, hiff⟩ | ⟨hvolume, hnot⟩
  · rw [(delete_closed hclosed).1, hiff]
    exact (unlink_reserved hx' hr).1
  · have := h.pending
    simp only [hvolume, hnot, iff_false]
    omega

theorem delete_removed (h : Reserved r before x) (hd : Deletable calls x) :
    (VolumeSlice.delete calls x).2.temporary = none ∧
    (VolumeSlice.delete calls x).2.committed = x.committed := by
  rcases closeOutput_spec calls h with ⟨x', hclosed, hx', -, hcommitted, hiff⟩ | ⟨-, hnot⟩
  · obtain ⟨-, htemporary, hfile, -⟩ := delete_closed hclosed
    obtain ⟨hcall, hpresent⟩ := hiff.mp hd
    obtain ⟨bytes, hbytes⟩ := Option.isSome_iff_exists.mp hpresent
    have hunlink : (unlink calls x').2.temporary = none ∧
        (unlink calls x').2.committed = x'.committed := by
      simp [unlink, hx'.uncommitted, hcall, hbytes, tick]
    exact ⟨htemporary.trans hunlink.1, hfile.trans (hunlink.2.trans hcommitted)⟩
  · exact absurd hd hnot

/-- A committed slice is unlinked, or the call that fails says so. -/
theorem delete_stored (h : Stored calls before x) :
    (VolumeSlice.delete calls x).2.volume.bytesPending = before ∧
    (Smooth calls (VolumeSlice.delete calls x).2 →
      (VolumeSlice.delete calls x).2.temporary = none ∧
      (VolumeSlice.delete calls x).2.committed = none) := by
  have hclosed : closeOutput calls x = (.ok (), x) := by simp [closeOutput, h.closed]
  obtain ⟨hvolume, htemporary, hfile, hclock⟩ := delete_closed hclosed
  obtain ⟨bytes, hbytes⟩ := Option.isSome_iff_exists.mp h.installed
  rw [hvolume, htemporary, hfile, Smooth, hclock]
  rcases hcall : calls x.clock with _ | n
  · refine ⟨?_, fun _ => ?_⟩
    · simp only [unlink, h.committed, hcall, hbytes, ↓reduceIte]
      rw [← h.pending]
      cases x.sliceType <;> rfl
    · simp [unlink, h.committed, hcall, hbytes, h.renamed, tick]
  · refine ⟨by simp [unlink, h.committed, hcall, h.pending, tick], fun hsmooth => ?_⟩
    have hlate := hsmooth x.clock (by simp [unlink, h.committed, hcall, tick])
    simp [hcall] at hlate

/-! The slices together. -/

theorem sliceSize_pos : 0 < u.sliceSize := by
  have hlarge := u.chunk_large
  have hcount : 0 ≤ ceilDivInt ((u.size ⌈/⌉ u.dataSliceCount : ℕ) -
      ((u.chunkSize : ℤ) - fileHeaderSize) + chunkHeaderSize) (u.chunkSize - chunkHeaderSize) := by
    simp only [ceilDivInt, fileHeaderSize, chunkHeaderSize]
    have hlt : -((u.size ⌈/⌉ u.dataSliceCount : ℕ) - ((u.chunkSize : ℤ) - (48 : ℕ)) + (16 : ℕ)) /
        ((u.chunkSize - 16 : ℕ) : ℤ) < 1 := Int.ediv_lt_of_lt_mul (by omega) (by omega)
    omega
  simp only [Upload.sliceSize, populatePlanDerivedFields]
  simp only [fileHeaderSize, chunkHeaderSize] at hcount ⊢
  omega

theorem each_ok {operation : ℕ → Slice → Except SliceError Unit × Slice} {slices : ℕ → Slice} :
    (each u operation slices).1 ↔
      ∀ i < u.totalSliceCount, (operation i (slices i)).1.isOk := by
  simp [each]

theorem each_slice {operation : ℕ → Slice → Except SliceError Unit × Slice}
    {slices : ℕ → Slice} {i : ℕ} (hi : i < u.totalSliceCount) :
    (each u operation slices).2 i = (operation i (slices i)).2 := if_pos hi

/-- Until the commit every slice holds its reservation and has installed no file, and only the
volume of a rejected write has failed. -/
structure Writing (u : Upload) (s : Script) (t : State) : Prop where
  reserved : ∀ i < u.totalSliceCount,
    Reserved u.sliceSize (u.volumes i).bytesPending (t.slices i)
  unfiled : ∀ i < u.totalSliceCount, (t.slices i).committed = none
  smooth : ∀ i < u.totalSliceCount, t.failedWrites i = false → Smooth (s.calls i) (t.slices i)
  unnamed : t.isPersisted = false ∧ t.journaledPut = false
  writing : t.mode = some .write

/-- How far an upload can have come when it is deleted. -/
structure Failed (u : Upload) (s : Script) (t : State) : Prop where
  held : ∀ i < u.totalSliceCount,
    Reserved u.sliceSize (u.volumes i).bytesPending (t.slices i) ∨
      Stored (s.calls i) (u.volumes i).bytesPending (t.slices i)
  unfiled : t.commitPromises = false → ∀ i < u.totalSliceCount,
    (t.slices i).isCommitted = false → (t.slices i).committed = none
  named : t.isPersisted ∨ t.journaledPut → t.mode = some .write

/-- Before the commit all there is are the reservations. -/
theorem Failed.of_reserved {t : State}
    (reserved : ∀ i < u.totalSliceCount,
      Reserved u.sliceSize (u.volumes i).bytesPending (t.slices i))
    (unfiled : ∀ i < u.totalSliceCount, (t.slices i).committed = none)
    (unnamed : t.isPersisted = false ∧ t.journaledPut = false) : Failed u s t where
  held := fun i hi => .inl (reserved i hi)
  unfiled := fun _ i hi _ => unfiled i hi
  named := by simp [unnamed.1, unnamed.2]

theorem Writing.failed {t : State} (h : Writing u s t) : Failed u s t :=
  .of_reserved h.reserved h.unfiled h.unnamed

theorem planned_reserved (i : ℕ) :
    Reserved u.sliceSize (u.volumes i).bytesPending (u.plannedSlice i) := ⟨rfl, rfl, rfl, rfl⟩

theorem createWithSize_spec {t : State} :
    (createWithSize u s = (true, t) → Writing u s t) ∧
    (createWithSize u s = (false, t) → Failed u s t) := by
  have hplanned : ∀ t : State, t.slices = u.plannedSlice →
      t.isPersisted = false ∧ t.journaledPut = false → Failed u s t := fun t ht =>
    .of_reserved (fun i _ => ht ▸ planned_reserved i) (fun i _ => by rw [ht]; rfl)
  have hreserved : ∀ i < u.totalSliceCount, Reserved u.sliceSize (u.volumes i).bytesPending
      ((each u (fun i => create (s.calls i) (s.header i)) u.plannedSlice).2 i) := by
    intro i hi
    rw [each_slice hi]
    exact (planned_reserved i).of_untouched (create_untouched _ _) (create_reservedBytes _ _)
  have hunfiled : ∀ i < u.totalSliceCount,
      ((each u (fun i => create (s.calls i) (s.header i)) u.plannedSlice).2 i).committed =
        none := by
    intro i hi
    rw [each_slice hi]
    exact (create_untouched _ _).committed
  have hsmooth : (each u (fun i => create (s.calls i) (s.header i)) u.plannedSlice).1 →
      ∀ i < u.totalSliceCount, Smooth (s.calls i)
        ((each u (fun i => create (s.calls i) (s.header i)) u.plannedSlice).2 i) := by
    intro hok i hi
    rw [each_slice hi]
    exact create_smooth nofun (each_ok.mp hok i hi)
  unfold createWithSize
  split
  · exact ⟨nofun, by rintro ⟨⟩; exact hplanned _ rfl ⟨rfl, rfl⟩⟩
  · split
    · exact ⟨nofun, by rintro ⟨⟩; exact hplanned _ rfl ⟨rfl, rfl⟩⟩
    · constructor
      · intro h
        obtain ⟨hok, rfl⟩ := Prod.mk.inj h
        exact ⟨hreserved, hunfiled, fun i hi _ => hsmooth hok i hi, ⟨rfl, rfl⟩, if_pos hok⟩
      · intro h
        obtain ⟨-, rfl⟩ := Prod.mk.inj h
        exact .of_reserved hreserved hunfiled ⟨rfl, rfl⟩

/-- One slice has been written to; when that failed, its volume no longer counts as working. -/
theorem Writing.update {t : State} (h : Writing u s t) {i : ℕ} {failed : ℕ → Bool}
    (hu : Untouched (t.slices i) x) (hr : x.reservedBytes = (t.slices i).reservedBytes)
    (hfailed : ∀ j, failed j = false → t.failedWrites j = false)
    (hsmooth : i < u.totalSliceCount → failed i = false → Smooth (s.calls i) x) :
    Writing u s { t with slices := Function.update t.slices i x, failedWrites := failed } where
  reserved j hj := by
    by_cases hij : j = i
    · subst hij
      simpa using (h.reserved j hj).of_untouched hu hr
    · simpa [hij] using h.reserved j hj
  unfiled j hj := by
    by_cases hij : j = i
    · subst hij
      simpa using hu.committed.trans (h.unfiled j hj)
    · simpa [hij] using h.unfiled j hj
  smooth j hj hf := by
    by_cases hij : j = i
    · subst hij
      simpa using hsmooth hj hf
    · simpa [hij] using h.smooth j hj (hfailed j hf)
  unnamed := h.unnamed
  writing := h.writing

theorem queueSliceWrite_writing {p : Bool × State} (h : Writing u s p.2) (chunk : ℕ × Bytes) :
    Writing u s (queueSliceWrite md5 s p chunk).2 := by
  obtain ⟨going, t⟩ := p
  obtain ⟨i, data⟩ := chunk
  cases going with
  | false => exact h
  | true =>
    simp only [queueSliceWrite]
    split
    · exact h
    · next hwritten =>
      have hu := @writeChunk_untouched (s.calls i) md5 data (t.slices i)
      have hr := @writeChunk_reservedBytes md5 (s.calls i) data (t.slices i)
      have hok := fun hi => @writeChunk_smooth md5 (s.calls i) (t.slices i) data
        (h.smooth i hi (by simpa using hwritten))
      generalize writeChunk (s.calls i) md5 data (t.slices i) = written at hu hr hok
      obtain ⟨result, slice⟩ := written
      cases result with
      | ok _ => exact h.update hu hr (fun _ hj => hj) fun hi _ => hok hi rfl
      | error e =>
        refine h.update hu hr (fun j hj => ?_) fun _ hf => absurd hf (by simp)
        by_cases hij : j = i
        · subst hij
          simp at hj
        · simpa [hij] using hj

theorem chunks_writing {p : Bool × State} (h : Writing u s p.2) (chunks : List (ℕ × Bytes)) :
    Writing u s (chunks.foldl (queueSliceWrite md5 s) p).2 := by
  induction chunks generalizing p with
  | nil => exact h
  | cons chunk rest ih => exact ih (queueSliceWrite_writing h chunk)

/-- A rejected close or rename leaves its slice with the reservation. -/
theorem Writing.rejected {t : State} (h : Writing u s t) {slices : ℕ → Slice}
    (hheld : ∀ i < u.totalSliceCount,
      Reserved u.sliceSize (u.volumes i).bytesPending (slices i) ∨
        Stored (s.calls i) (u.volumes i).bytesPending (slices i)) :
    Failed u s { t with slices := slices, commitPromises := true } where
  held := hheld
  unfiled := nofun
  named hn := absurd hn (by simp [h.unnamed.1, h.unnamed.2])

/-- A commit leaves every slice stored, or rejected promises behind. -/
theorem commitWriter_spec {t t' : State} (h : Writing u s t)
    (hwritten : ∀ i < u.totalSliceCount, t.failedWrites i = false) :
    (commitWriter u s t = (true, t') → t' = { t with slices := t'.slices } ∧
      ∀ i < u.totalSliceCount,
        Stored (s.calls i) (u.volumes i).bytesPending (t'.slices i)) ∧
    (commitWriter u s t = (false, t') → Failed u s t') := by
  have hreserved : ∀ i < u.totalSliceCount, Reserved u.sliceSize (u.volumes i).bytesPending
      ((each u (fun i => close (s.calls i)) t.slices).2 i) := by
    intro i hi
    rw [each_slice hi]
    exact (h.reserved i hi).of_untouched (close_untouched _) (close_reservedBytes _)
  have hclosed : ∀ i < u.totalSliceCount, (each u (fun i => close (s.calls i)) t.slices).1 →
      Smooth (s.calls i) ((each u (fun i => close (s.calls i)) t.slices).2 i) := by
    intro i hi hok
    rw [each_slice hi]
    exact close_smooth (h.smooth i hi (hwritten i hi)) (each_ok.mp hok i hi)
  simp only [commitWriter]
  generalize each u (fun i => close (s.calls i)) t.slices = closing at hreserved hclosed
  obtain ⟨allClosed, slices⟩ := closing
  cases allClosed with
  | false =>
    refine ⟨nofun, ?_⟩
    rintro ⟨⟩
    exact h.rejected fun i hi => .inl (hreserved i hi)
  | true =>
    have hstored : ∀ i < u.totalSliceCount, (commit (s.calls i) (slices i)).1.isOk →
        Stored (s.calls i) (u.volumes i).bytesPending (commit (s.calls i) (slices i)).2 :=
      fun i hi => commit_stored (hreserved i hi) (hclosed i hi rfl)
    have hkept : ∀ i < u.totalSliceCount, ¬(commit (s.calls i) (slices i)).1.isOk →
        Reserved u.sliceSize (u.volumes i).bytesPending (commit (s.calls i) (slices i)).2 :=
      fun i hi => commit_reserved (hreserved i hi)
    have hok := @each_ok u (fun i => commit (s.calls i)) slices
    have hslice := fun i => @each_slice u (fun i => commit (s.calls i)) slices i
    dsimp only
    generalize each u (fun i => commit (s.calls i)) slices = committing at hok hslice
    obtain ⟨allCommitted, renamed⟩ := committing
    replace hslice : ∀ i < u.totalSliceCount, renamed i = (commit (s.calls i) (slices i)).2 :=
      hslice
    cases allCommitted with
    | false =>
      refine ⟨nofun, ?_⟩
      rintro ⟨⟩
      refine h.rejected fun i hi => ?_
      rw [hslice i hi]
      by_cases hok' : (commit (s.calls i) (slices i)).1.isOk
      · exact .inr (hstored i hi hok')
      · exact .inl (hkept i hi hok')
    | true =>
      refine ⟨?_, nofun⟩
      rintro ⟨⟩
      refine ⟨rfl, fun i hi => ?_⟩
      simpa only [hslice i hi] using hstored i hi (hok.mp rfl i hi)

theorem commitObject_spec {t t' : State} (h : Writing u s t)
    (hwritten : ∀ i < u.totalSliceCount, t.failedWrites i = false)
    (hc : commitObject u s t = (false, t')) : Failed u s t' := by
  have hspec := fun t' => @commitWriter_spec _ _ _ t' h hwritten
  simp only [commitObject] at hc
  generalize commitWriter u s t = committed at hspec hc
  obtain ⟨ok, t₁⟩ := committed
  cases ok with
  | false =>
    obtain rfl : t₁ = t' := by simpa using hc
    exact (hspec t₁).2 rfl
  | true =>
    obtain ⟨heq, hstored⟩ := (hspec t₁).1 rfl
    -- From here on the slices stay as the commit left them.
    have hfailed : t'.slices = t₁.slices → t'.mode = t₁.mode → Failed u s t' := by
      intro hslices hmode
      have hkept : ∀ i < u.totalSliceCount,
          Stored (s.calls i) (u.volumes i).bytesPending (t'.slices i) := hslices ▸ hstored
      exact {
        held := fun i hi => .inr (hkept i hi)
        unfiled := fun _ i hi hun => absurd ((hkept i hi).committed.symm.trans hun) (by simp)
        named := fun _ => hmode.trans (by rw [heq]; exact h.writing) }
    simp only at hc
    split at hc
    · cases hc
      exact hfailed rfl rfl
    · split at hc
      · cases hc
        exact hfailed rfl rfl
      · split at hc
        · cases hc
          exact hfailed rfl rfl
        · cases hc

/-- Whatever step an upload stops at, each of its slices is reserved or stored. -/
theorem upload_failed {t : State} (h : upload md5 u s = (false, t)) : Failed u s t := by
  have hcreate := fun t => @createWithSize_spec u s t
  simp only [upload] at h
  generalize createWithSize u s = created at hcreate h
  obtain ⟨ok, t₁⟩ := created
  cases ok with
  | false =>
    obtain rfl : t₁ = t := by simpa using h
    exact (hcreate t₁).2 rfl
  | true =>
    have hwriting := @chunks_writing md5 u s (true, t₁) ((hcreate t₁).1 rfl) s.chunks
    simp only at h
    generalize s.chunks.foldl (queueSliceWrite md5 s) (true, t₁) = written at hwriting h
    simp only [finish] at h
    split at h
    · next hfinish =>
      cases h
      obtain ⟨-, rfl⟩ := Prod.mk.inj hfinish
      exact hwriting.failed
    · next hfinish =>
      obtain ⟨hfinished, rfl⟩ := Prod.mk.inj hfinish
      have hwritten : ∀ i < u.totalSliceCount, written.2.failedWrites i = false := by
        simp only [Bool.and_eq_true, List.all_eq_true, List.mem_range,
          Bool.not_eq_true'] at hfinished
        exact hfinished.2
      exact commitObject_spec hwriting hwritten h

/-! The deletion. -/

theorem abort_slice (t : State) (i : ℕ) : abort s t i =
    if t.commitPromises = false ∧ i < t.instantiated ∧ t.failedWrites i = false ∧
      s.busy i = false then (VolumeSlice.delete (s.calls i) (t.slices i)).2 else t.slices i := by
  cases hp : t.commitPromises <;> simp [abort, hp]

theorem cleanup_reached {t : State} {i : ℕ} (h : Reached s t i) :
    cleanup s t i = (VolumeSlice.delete (s.calls i) (t.slices i)).2 := by
  have habort : abort s t i = (VolumeSlice.delete (s.calls i) (t.slices i)).2 := by
    rw [abort_slice, if_pos ⟨h.settled, h.instantiated, h.written, h.idle⟩]
  have hj : ¬((t.isPersisted ∨ t.journaledPut) ∧ !s.journalDelete) :=
    fun hn => absurd (h.journaled hn.1) (by simpa using hn.2)
  have hp : ¬(t.isPersisted ∧ !(s.deleteObjectById && s.recordObjectDeleted)) :=
    fun hn => absurd hn.2 (by simp [h.persisted hn.1])
  simp only [cleanup, deleteObject, if_neg hj, if_neg hp, ite_self, habort]

/-- A slice the deletion does not reach stays as the upload left it. -/
theorem cleanup_unreached {t : State} (h : Failed u s t) {i : ℕ} (hr : ¬Reached s t i) :
    cleanup s t i = t.slices i := by
  have habort : (t.isPersisted ∨ t.journaledPut → s.journalDelete) →
      (t.isPersisted → s.deleteObjectById ∧ s.recordObjectDeleted) →
      abort s t i = t.slices i := by
    intro hj hp
    rw [abort_slice]
    exact if_neg fun hc => hr ⟨hc.2.1, hc.1, hc.2.2.1, hc.2.2.2, hj, hp⟩
  simp only [cleanup, deleteObject]
  split
  · split
    · rfl
    · next hj =>
      split
      · rfl
      · next hp =>
        exact habort (by simpa using hj) (by simpa using hp)
  · next hmode =>
    have hunnamed := fun hn => hmode (h.named hn)
    exact habort (fun hn => absurd hn hunnamed) fun hn => absurd (.inl hn) hunnamed

theorem Failed.clean_iff {t : State} (hf : Failed u s t) :
    Clean u s (cleanup s t) ↔ Recoverable u s t := by
  constructor
  · intro hc
    have hreached : ∀ i < u.totalSliceCount, Reached s t i := by
      intro i hi
      by_contra hn
      have hreleased := hc.released i hi
      have hremoved := hc.removed i hi
      rw [cleanup_unreached hf hn] at hreleased hremoved
      rcases hf.held i hi with hheld | hstored
      · have := hheld.pending
        have := sliceSize_pos (u := u)
        omega
      · have hinstalled := hstored.installed
        simp [(hremoved hstored.smooth).2] at hinstalled
    refine ⟨hreached, fun i hi hun => ?_⟩
    have hreleased := hc.released i hi
    rw [cleanup_reached (hreached i hi)] at hreleased
    rcases hf.held i hi with hheld | hstored
    · exact (delete_reserved hheld sliceSize_pos).mp hreleased
    · exact absurd (hstored.committed.symm.trans hun) (by simp)
  · intro hr
    have hdeleted : ∀ i < u.totalSliceCount, (cleanup s t i).volume.bytesPending =
          (u.volumes i).bytesPending ∧ (Smooth (s.calls i) (cleanup s t i) →
        (cleanup s t i).temporary = none ∧ (cleanup s t i).committed = none) := by
      intro i hi
      rw [cleanup_reached (hr.reached i hi)]
      rcases hf.held i hi with hheld | hstored
      · have hd := hr.deletable i hi hheld.uncommitted
        obtain ⟨htemporary, hcommitted⟩ := delete_removed hheld hd
        have hunfiled := hf.unfiled (hr.reached i hi).settled i hi hheld.uncommitted
        exact ⟨(delete_reserved hheld sliceSize_pos).mpr hd,
          fun _ => ⟨htemporary, hcommitted.trans hunfiled⟩⟩
      · exact delete_stored hstored
    exact ⟨fun i hi => (hdeleted i hi).1, fun i hi => (hdeleted i hi).2⟩

/-- The deletion of a failed upload leaves nothing behind exactly when it reaches every slice
and none of the uncommitted ones resists. -/
theorem cleanup_clean_iff (h : (upload md5 u s).1 = false) :
    Clean u s (cleanup s (upload md5 u s).2) ↔ Recoverable u s (upload md5 u s).2 :=
  (upload_failed (Prod.ext h rfl)).clean_iff

/-- One data and one parity slice, on volumes with nothing pending. -/
def mirrored : Upload where
  size := 8
  dataSliceCount := 1
  paritySliceCount := 1
  chunkSize := 128
  volumes := fun _ => ⟨0, 0, 0, some 1024⟩
  data_pos := Nat.one_pos
  chunk_large := by decide

/-- Both slices are written, and only the calls given may fail. -/
def attempt (calls : ℕ → Calls) (goesOn : Bool) : Script where
  calls := calls
  instantiated := 2
  header := fun _ => some (List.replicate 48 0)
  chunks := [(0, List.replicate 8 1), (1, List.replicate 8 1)]
  goesOn := goesOn
  journalPut := true
  createObjectRecord := true
  recordObjectCreated := true
  busy := fun _ => false
  journalDelete := true
  deleteObjectById := true
  recordObjectDeleted := true

/-- The digest of the client does not match, and the upload is deleted. -/
theorem mismatch_clean : Clean mirrored (attempt (fun _ _ => none) false)
    (cleanup (attempt (fun _ _ => none) false)
      (upload standard mirrored (attempt (fun _ _ => none) false)).2) :=
  (cleanup_clean_iff (by decide +kernel)).mpr (by decide +kernel)

/-- The seventh call of the second volume, its rename, fails. -/
def renameFails : Script :=
  attempt (fun i n => if i = 1 ∧ n = 6 then some 0 else none) true

/-- The rejected rename ends the deletion before it begins: the second volume keeps the
reservation, and the first, none of whose calls failed, the committed file. -/
theorem renameFails_remains : (upload standard mirrored renameFails).1 = false ∧
    ¬Clean mirrored renameFails
      (cleanup renameFails (upload standard mirrored renameFails).2) := by
  refine ⟨by decide +kernel, fun hc => ?_⟩
  have hremoved := (hc.removed 0 (by decide) fun n _ => rfl).2
  have hkept : (cleanup renameFails
      (upload standard mirrored renameFails).2 0).committed.isSome := by decide +kernel
  simp [hremoved] at hkept

end FailedUpload
