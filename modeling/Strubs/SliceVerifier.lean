import Mathlib.Data.Set.Function
import Strubs.ObjectRoundTrip
import Strubs.SliceRelocation

/-! # The slice verifier

The verifier opens a slice and reads it from the head with the sizes of the three groups: one start
chunk, the standard chunks, and an end chunk if the plan has one. What it accepts is decided by the
chunks of the plan alone: each of them is there and carries its own checksum. -/
namespace SliceVerifier

open ByteBuffer ErasureCode ChunkPlan MessageDigest SliceFile FileObjectBase
open FileObjectWriter (Written chunkAt sliceFiles sliceContent length_chunkAt)
open ObjectRoundTrip (spreadObject spreadObject_fits written_sliceFiles)

inductive VerifyMode where
  | light | full
  deriving DecidableEq, Repr

/-- A slice that is open for reading. -/
structure OpenSlice where
  file : Bytes
  cursorOffset : ℕ
  advisoryHeaderMd5Ok : Bool

def OpenSlice.seekToHead (s : OpenSlice) : OpenSlice := { s with cursorOffset := fileHeaderSize }

def OpenSlice.seekTo (s : OpenSlice) (p : Plan) (chunkIndex : ℕ) : OpenSlice :=
  { s with cursorOffset := seekToChunkIndex p chunkIndex }

section Verifier

variable (md5 : Md5) (o : FileObject)

/-- The header's own checksum is looked at, but does not keep the slice from opening. -/
def openSlice (sliceIndex : ℕ) (file : Bytes) : Except FaultCode OpenSlice := do
  openHeader o sliceIndex file
  return ⟨file, fileHeaderSize, slice file 7 23 = md5.digest (slice file 23 48)⟩

/-- The read goes to a buffer of one chunk, and does not begin if it would not fit. -/
def readChunk (b : Base) (s : OpenSlice) : Except FaultCode (Bytes × OpenSlice) :=
  if o.chunkSize < chunkHeaderSize + b.chunkDataSize then .error (.other "ERR_OUT_OF_RANGE")
  else do
    let data ← readChunkAt md5 s.file s.cursorOffset b.chunkDataSize
    return (data, { s with cursorOffset := s.cursorOffset + (chunkHeaderSize + b.chunkDataSize) })

/-- The next `n` chunks of one group. The delays between them change nothing. -/
def readNext (b : Base) : ℕ → OpenSlice → Except FaultCode OpenSlice
  | 0, s => .ok s
  | n + 1, s => do
    let (_, s) ← readChunk md5 o b s
    readNext b n s

def verifyOpenSlice (b : Base) (s : OpenSlice) : Except FaultCode OpenSlice :=
  if o.size = 0 then .ok s
  else do
    let start := configureStartState o.toGeometry b
    let s ← readNext md5 o start 1 s.seekToHead
    let (b, s) ← if o.plan.standardChunkCountPerSlice > 0 then do
        let middle := configureMiddleState o.toGeometry start
        let s ← readNext md5 o middle o.plan.standardChunkCountPerSlice s
        pure (middle, s)
      else pure (start, s)
    if o.plan.endChunkDataSize > 0 then readNext md5 o (configureEndState o.toGeometry b) 1 s
    else .ok s

/-- Neither a context that cannot be created nor a slice that is not there has an error code. -/
def verifySlice (rs : Codec) (memory : ℕ → UInt8) (mode : VerifyMode) (checkHeaderMd5 : Bool)
    (sliceIndex : ℕ) (file : Bytes) : Except FaultCode Unit :=
  if rs.create o.dataSliceCount o.paritySliceCount ∧ sliceIndex < o.totalSliceCount then do
    let s ← openSlice md5 o sliceIndex file
    if checkHeaderMd5 ∧ s.advisoryHeaderMd5Ok = false then
      throw (.other "EHDRSUM")
    if mode = .full then
      let _ ← verifyOpenSlice md5 o (configureInternals o.toGeometry memory) s
    return ()
  else .error .unset

end Verifier

/-! ## Where the chunks are -/

section Places

variable (o : FileObject) (file : Bytes) (k : ℕ)

def checksumAt : Bytes :=
  slice file (seekToChunkIndex o.plan k) (seekToChunkIndex o.plan k + chunkHeaderSize)

def payloadAt : Bytes :=
  slice file (seekToChunkIndex o.plan k + chunkHeaderSize)
    (seekToChunkIndex o.plan k + (chunkHeaderSize + o.chunkDataSizeAt k))

/-- The chunk is there and carries its own checksum. -/
structure ChunkIntact (md5 : Md5) : Prop where
  whole : seekToChunkIndex o.plan k + (chunkHeaderSize + o.chunkDataSizeAt k) ≤ file.length
  checksum : md5.digest (payloadAt o file k) = checksumAt o file k

end Places

section Walk

variable {md5 : Md5} {o : FileObject} {file : Bytes}

theorem readChunkAt_isOk_iff (cursor n : ℕ) : (readChunkAt md5 file cursor n).isOk ↔
    cursor + (chunkHeaderSize + n) ≤ file.length ∧
      md5.digest (slice file (cursor + chunkHeaderSize) (cursor + (chunkHeaderSize + n))) =
        slice file cursor (cursor + chunkHeaderSize) := by
  have hdrop : (slice file cursor (cursor + (chunkHeaderSize + n))).drop chunkHeaderSize =
      slice file (cursor + chunkHeaderSize) (cursor + (chunkHeaderSize + n)) := by
    simp [slice, List.drop_drop]
  have htake : (slice file cursor (cursor + (chunkHeaderSize + n))).take chunkHeaderSize =
      slice file cursor (cursor + chunkHeaderSize) := by
    rw [← slice_zero, slice_slice _ _ _ _ _ (by omega), Nat.add_zero]
  have hlen : (slice file cursor (cursor + (chunkHeaderSize + n))).length = chunkHeaderSize + n ↔
      cursor + (chunkHeaderSize + n) ≤ file.length := by
    rw [length_slice]
    have := show 0 < chunkHeaderSize by decide
    omega
  simp only [readChunkAt, hdrop, htake]
  by_cases hwhole : cursor + (chunkHeaderSize + n) ≤ file.length
  · rw [if_neg (not_not.mpr (hlen.mpr hwhole))]
    by_cases hsum : md5.digest (slice file (cursor + chunkHeaderSize)
        (cursor + (chunkHeaderSize + n))) = slice file cursor (cursor + chunkHeaderSize)
    · simp [hsum, hwhole, Except.isOk, Except.toBool]
    · simp [hsum, Except.isOk, Except.toBool]
  · rw [if_pos (mt hlen.mp hwhole)]
    simp [hwhole, Except.isOk, Except.toBool]

theorem readChunkAt_isOk_iff_intact (k : ℕ) :
    (readChunkAt md5 file (seekToChunkIndex o.plan k) (o.chunkDataSizeAt k)).isOk ↔
      ChunkIntact o file k md5 := by
  rw [readChunkAt_isOk_iff]
  exact ⟨fun h => ⟨h.1, h.2⟩, fun h => ⟨h.whole, h.checksum⟩⟩

/-- Behind a chunk of the first two groups stands the next one. -/
theorem seekToChunkIndex_succ {k : ℕ} (h : k ≤ o.plan.standardChunkCountPerSlice) :
    seekToChunkIndex o.plan (k + 1) =
      seekToChunkIndex o.plan k + (chunkHeaderSize + o.chunkDataSizeAt k) := by
  unfold seekToChunkIndex Geometry.chunkDataSizeAt
  rcases Nat.eq_zero_or_pos k with rfl | hpos
  · simp
  · obtain ⟨j, rfl⟩ : ∃ j, k = j + 1 := ⟨k - 1, by omega⟩
    rw [if_pos (by omega), if_pos (by omega), if_neg (by omega), if_pos h]
    simp only [Nat.add_sub_cancel]
    ring

theorem bind_eq_ok_iff {ε α β : Type} {x : Except ε α} {f : α → Except ε β} {b : β} :
    x >>= f = .ok b ↔ ∃ a, x = .ok a ∧ f a = .ok b := by
  cases x with
  | error e =>
    constructor
    · intro h
      cases h
    · rintro ⟨_, h, -⟩
      cases h
  | ok a =>
    constructor
    · exact fun h => ⟨a, rfl, h⟩
    · rintro ⟨_, h, hf⟩
      cases h
      exact hf

theorem isOk_iff {ε α : Type} {x : Except ε α} : x.isOk ↔ ∃ a, x = .ok a := by
  cases x with
  | error e => simp [Except.isOk, Except.toBool]
  | ok a => simp [Except.isOk, Except.toBool]

theorem readChunk_ok_iff {b : Base} {s t : OpenSlice} {k : ℕ}
    (hcursor : s.cursorOffset = seekToChunkIndex o.plan k)
    (hsize : b.chunkDataSize = o.chunkDataSizeAt k) :
    (∃ data, readChunk md5 o b s = .ok (data, t)) ↔ ChunkIntact o s.file k md5 ∧
      t = { s with cursorOffset :=
        seekToChunkIndex o.plan k + (chunkHeaderSize + o.chunkDataSizeAt k) } := by
  have hfit : ¬o.chunkSize < chunkHeaderSize + o.chunkDataSizeAt k := by
    have hle := (o.chunkDataSizeAt_spec k).2
    have hlarge := o.chunk_large
    have hheader : chunkHeaderSize = 16 := rfl
    rw [o.plan_standard] at hle
    omega
  rw [← readChunkAt_isOk_iff_intact, isOk_iff]
  simp only [readChunk, hsize, hcursor]
  simp only [if_neg hfit, bind_eq_ok_iff]
  constructor
  · rintro ⟨data, data', hread, hresult⟩
    cases hresult
    exact ⟨⟨_, hread⟩, rfl⟩
  · rintro ⟨⟨data, hread⟩, rfl⟩
    exact ⟨data, data, hread, rfl⟩

/-- Reading on through one group checks each of its chunks. -/
theorem readNext_ok_iff {b : Base} {n k : ℕ} {s t : OpenSlice}
    (hcursor : s.cursorOffset = seekToChunkIndex o.plan k)
    (hsize : ∀ j < n, b.chunkDataSize = o.chunkDataSizeAt (k + j))
    (hgroup : k + n ≤ o.plan.standardChunkCountPerSlice + 1) :
    readNext md5 o b n s = .ok t ↔ (∀ j < n, ChunkIntact o s.file (k + j) md5) ∧
      t = { s with cursorOffset := seekToChunkIndex o.plan (k + n) } := by
  induction n generalizing s k with
  | zero =>
    rw [readNext, Nat.add_zero, ← hcursor]
    constructor
    · exact fun h => ⟨fun j hj => absurd hj (Nat.not_lt_zero j), (Except.ok.inj h).symm⟩
    · rintro ⟨-, rfl⟩
      rfl
  | succ n ih =>
    have hshift : ∀ j, k + (j + 1) = k + 1 + j := fun j => by omega
    have hsucc := seekToChunkIndex_succ (show k ≤ o.plan.standardChunkCountPerSlice by omega)
    have hfirst : ∀ u, (∃ data, readChunk md5 o b s = .ok (data, u)) ↔ _ :=
      fun u => readChunk_ok_iff hcursor (hsize 0 n.succ_pos)
    have hrest : ∀ j < n, b.chunkDataSize = o.chunkDataSizeAt (k + 1 + j) := fun j hj => by
      rw [← hshift]
      exact hsize (j + 1) (by omega)
    rw [readNext, bind_eq_ok_iff]
    constructor
    · rintro ⟨⟨data, u⟩, hread, hnext⟩
      obtain ⟨hintact, rfl⟩ := (hfirst u).mp ⟨data, hread⟩
      obtain ⟨hall, rfl⟩ := (ih hsucc.symm hrest (by omega)).mp hnext
      refine ⟨fun j hj => ?_, by rw [hshift n]⟩
      rcases j with _ | j
      · exact hintact
      · rw [hshift]
        exact hall j (by omega)
    · rintro ⟨hall, rfl⟩
      obtain ⟨data, hread⟩ := (hfirst _).mpr ⟨hall 0 n.succ_pos, rfl⟩
      refine ⟨_, hread, (ih hsucc.symm hrest (by omega)).mpr ⟨fun j hj => ?_, by rw [hshift n]⟩⟩
      rw [← hshift]
      exact hall (j + 1) (by omega)

theorem readNext_one_iff {b : Base} {k : ℕ} {s t : OpenSlice}
    (hcursor : s.cursorOffset = seekToChunkIndex o.plan k)
    (hsize : b.chunkDataSize = o.chunkDataSizeAt k) :
    readNext md5 o b 1 s = .ok t ↔ ChunkIntact o s.file k md5 ∧
      t = { s with cursorOffset :=
        seekToChunkIndex o.plan k + (chunkHeaderSize + o.chunkDataSizeAt k) } := by
  rw [← readChunk_ok_iff hcursor hsize, readNext, bind_eq_ok_iff]
  constructor
  · rintro ⟨⟨data, u⟩, hread, hdone⟩
    cases hdone
    exact ⟨data, hread⟩
  · rintro ⟨data, hread⟩
    exact ⟨_, hread, rfl⟩

theorem end_pos_iff : 0 < o.plan.endChunkDataSize ↔ o.plan.endChunkSetDataOffset < o.size := by
  constructor
  · intro hpos
    by_contra hle
    exact absurd (o.end_of_le (not_lt.mp hle)) hpos.ne'
  · exact fun hlt => (o.end_spec hlt).2.1

/-- The chunk sets are those of the three groups. -/
theorem forall_lt_chunkSetCount (hsize : 0 < o.size) {P : ℕ → Prop} :
    (∀ k < o.chunkSetCount, P k) ↔ P 0 ∧ (∀ j < o.plan.standardChunkCountPerSlice, P (1 + j)) ∧
      (0 < o.plan.endChunkDataSize → P (o.plan.standardChunkCountPerSlice + 1)) := by
  have hcount : o.chunkSetCount = o.plan.standardChunkCountPerSlice + 1 +
      if 0 < o.plan.endChunkDataSize then 1 else 0 := by
    simp only [end_pos_iff, Geometry.chunkSetCount, if_neg hsize.ne']
    by_cases hend : o.plan.endChunkSetDataOffset < o.size
    · rw [if_neg (by omega), if_pos hend]
    · rw [if_pos (by omega), if_neg hend]
  rw [hcount]
  constructor
  · intro h
    refine ⟨h 0 (by omega), fun j hj => h (1 + j) (by omega), fun hend => h _ ?_⟩
    rw [if_pos hend]
    omega
  · rintro ⟨hstart, hmiddle, hend⟩ k hk
    rcases Nat.eq_zero_or_pos k with rfl | hpos
    · exact hstart
    · by_cases hlast : k = o.plan.standardChunkCountPerSlice + 1
      · subst hlast
        by_cases hpos' : 0 < o.plan.endChunkDataSize
        · exact hend hpos'
        · rw [if_neg hpos'] at hk
          omega
      · obtain ⟨j, rfl⟩ : ∃ j, k = 1 + j := ⟨k - 1, by omega⟩
        split_ifs at hk <;> exact hmiddle j (by omega)

/-- The walk checks the chunks of the object, and no others. -/
theorem verifyOpenSlice_isOk_iff (b : Base) (s : OpenSlice) :
    (verifyOpenSlice md5 o b s).isOk ↔ ∀ k < o.chunkSetCount, ChunkIntact o s.file k md5 := by
  by_cases hsize : o.size = 0
  · simp [verifyOpenSlice, hsize, Geometry.chunkSetCount, Except.isOk, Except.toBool]
  rw [forall_lt_chunkSetCount (Nat.pos_of_ne_zero hsize), isOk_iff, verifyOpenSlice, if_neg hsize]
  simp only [bind_eq_ok_iff]
  have hseek : seekToChunkIndex o.plan 1 = seekToChunkIndex o.plan 0 +
      (chunkHeaderSize + o.chunkDataSizeAt 0) := seekToChunkIndex_succ (Nat.zero_le _)
  have hstart : ∀ t, readNext md5 o (configureStartState o.toGeometry b) 1 s.seekToHead = .ok t ↔
      ChunkIntact o s.file 0 md5 ∧ t = s.seekTo o.plan 1 := by
    intro t
    rw [OpenSlice.seekTo, hseek]
    exact readNext_one_iff (by simp [OpenSlice.seekToHead, seekToChunkIndex])
      (configureStartState_spec b).1.chunk
  have hmiddle : ∀ b t, readNext md5 o (configureMiddleState o.toGeometry b)
      o.plan.standardChunkCountPerSlice (s.seekTo o.plan 1) = .ok t ↔
      (∀ j < o.plan.standardChunkCountPerSlice, ChunkIntact o s.file (1 + j) md5) ∧
        t = s.seekTo o.plan (o.plan.standardChunkCountPerSlice + 1) := by
    intro b t
    rw [Nat.add_comm _ 1]
    exact readNext_ok_iff rfl (fun j hj => (configureMiddleState_spec b (by omega)
      (by omega)).1.chunk) (by omega)
  have hend : ∀ b, (∃ t, (if o.plan.endChunkDataSize > 0 then
      readNext md5 o (configureEndState o.toGeometry b) 1
        (s.seekTo o.plan (o.plan.standardChunkCountPerSlice + 1))
      else .ok (s.seekTo o.plan (o.plan.standardChunkCountPerSlice + 1))) = .ok t) ↔
      (0 < o.plan.endChunkDataSize →
        ChunkIntact o s.file (o.plan.standardChunkCountPerSlice + 1) md5) := by
    intro b
    by_cases hpos : 0 < o.plan.endChunkDataSize
    · have hone := fun t : OpenSlice => @readNext_one_iff md5 o _ _
        (s.seekTo o.plan (o.plan.standardChunkCountPerSlice + 1)) t rfl
        (configureEndState_spec b (Nat.lt_succ_self _)).1.chunk
      rw [if_pos hpos]
      simp only [hone, exists_and_left, exists_eq, and_true]
      exact ⟨fun h _ => h, fun h => h hpos⟩
    · rw [if_neg hpos]
      exact ⟨fun _ h => absurd h hpos, fun _ => ⟨_, rfl⟩⟩
  by_cases hstd : 0 < o.plan.standardChunkCountPerSlice
  · simp only [if_pos hstd, pure_bind]
    simp only [bind_eq_ok_iff, hstart]
    constructor
    · rintro ⟨t, _, ⟨hfirst, rfl⟩, s₂, hread, hlast⟩
      obtain ⟨hall, rfl⟩ := (hmiddle _ _).mp hread
      exact ⟨hfirst, hall, (hend _).mp ⟨t, hlast⟩⟩
    · rintro ⟨hfirst, hall, hlast⟩
      obtain ⟨t, ht⟩ := (hend _).mpr hlast
      exact ⟨t, _, ⟨hfirst, rfl⟩, _, (hmiddle _ _).mpr ⟨hall, rfl⟩, ht⟩
  · have hzero : o.plan.standardChunkCountPerSlice = 0 := Nat.eq_zero_of_not_pos hstd
    simp only [if_neg hstd, pure_bind, hstart]
    rw [hzero] at hend ⊢
    constructor
    · rintro ⟨t, _, ⟨hfirst, rfl⟩, hlast⟩
      exact ⟨hfirst, fun j hj => absurd hj (Nat.not_lt_zero j), (hend _).mp ⟨t, hlast⟩⟩
    · rintro ⟨hfirst, -, hlast⟩
      obtain ⟨t, ht⟩ := (hend _).mpr hlast
      exact ⟨t, _, ⟨hfirst, rfl⟩, ht⟩

end Walk

section Verdict

variable {md5 : Md5} {o : FileObject} {rs : Codec} {i : ℕ} {file : Bytes} {check : Bool}
  {memory : ℕ → UInt8}

/-- The header's own checksum stands over its fields. -/
def HeaderMd5Ok (md5 : Md5) (file : Bytes) : Prop := slice file 7 23 = md5.digest (slice file 23 48)

theorem verifySlice_full_iff (hcreate : rs.create o.dataSliceCount o.paritySliceCount)
    (hi : i < o.totalSliceCount) : verifySlice md5 o rs memory .full check i file = .ok () ↔
      openHeader o i file = .ok () ∧ (check → HeaderMd5Ok md5 file) ∧
        ∀ k < o.chunkSetCount, ChunkIntact o file k md5 := by
  rw [verifySlice, if_pos ⟨hcreate, hi⟩, openSlice]
  cases hopen : openHeader o i file with
  | error e =>
    constructor
    · intro h
      cases h
    · rintro ⟨h, -⟩
      cases h
  | ok u =>
    have hwalk := @verifyOpenSlice_isOk_iff md5 o (configureInternals o.toGeometry memory)
      ⟨file, fileHeaderSize, slice file 7 23 = md5.digest (slice file 23 48)⟩
    rw [isOk_iff] at hwalk
    show (if check ∧ decide (slice file 7 23 = md5.digest (slice file 23 48)) = false
      then .error (.other "EHDRSUM")
      else verifyOpenSlice md5 o (configureInternals o.toGeometry memory) _ >>= fun _ => .ok ()) =
        Except.ok () ↔ _
    have hsum : (check ∧ decide (slice file 7 23 = md5.digest (slice file 23 48)) = false) ↔
        ¬(check → HeaderMd5Ok md5 file) := by
      rw [decide_eq_false_iff_not, Classical.not_imp]
      exact Iff.rfl
    by_cases hok : check → HeaderMd5Ok md5 file
    · rw [if_neg (mt hsum.mp (not_not.mpr hok)), bind_eq_ok_iff, ← hwalk]
      exact ⟨fun ⟨t, ht, _⟩ => ⟨rfl, hok, t, ht⟩, fun ⟨_, _, t, ht⟩ => ⟨t, ht, rfl⟩⟩
    · rw [if_pos (hsum.mpr hok)]
      exact ⟨fun h => (by cases h), fun h => absurd h.2.1 hok⟩

/-- The relocation of slices asks for the same thing. -/
theorem verifySlice_eq_relocation (hcreate : rs.create o.dataSliceCount o.paritySliceCount)
    (hi : i < o.totalSliceCount) : verifySlice md5 o rs memory .full false i file = .ok () ↔
      SliceRelocation.verifySlice md5 o i file := by
  rw [verifySlice_full_iff hcreate hi, SliceRelocation.verifySlice, Bool.and_eq_true, isOk_iff,
    List.all_eq_true]
  simp only [List.mem_range, readChunkAt_isOk_iff_intact]
  constructor
  · rintro ⟨hopen, -, hall⟩
    exact ⟨⟨_, hopen⟩, hall⟩
  · rintro ⟨⟨⟨⟩, hopen⟩, hall⟩
    exact ⟨hopen, fun h => absurd h Bool.false_ne_true, hall⟩

end Verdict

/-! ## What the writer wrote -/

section WrittenFile

variable {md5 : Md5} {o : FileObject} {header : Bytes} {chunks : List Bytes}

theorem chunkIntact_fileContent (hheader : header.length = fileHeaderSize)
    (hsizes : ∀ k, ∀ chunk ∈ chunks[k]?, chunk.length = o.chunkDataSizeAt k)
    (hcount : chunks.length ≤ o.plan.standardChunkCountPerSlice + 2) {k : ℕ}
    (hk : k < chunks.length) : ChunkIntact o (fileContent md5 header chunks) k md5 := by
  rw [← readChunkAt_isOk_iff_intact, isOk_iff]
  exact ⟨_, readChunkAt_fileContent o.toGeometry md5 hheader hsizes hcount
    (List.getElem?_eq_getElem hk)⟩

/-- A file ends with its last chunk. -/
theorem length_fileContent_snoc (hheader : header.length = fileHeaderSize) {chunk : Bytes}
    (hsizes : ∀ k, ∀ c ∈ (chunks ++ [chunk])[k]?, c.length = o.chunkDataSizeAt k)
    (hcount : chunks.length ≤ o.plan.standardChunkCountPerSlice + 1) :
    (fileContent md5 header (chunks ++ [chunk])).length =
      seekToChunkIndex o.plan chunks.length +
        (chunkHeaderSize + o.chunkDataSizeAt chunks.length) := by
  have hinit : ∀ k, ∀ c ∈ chunks[k]?, c.length = o.chunkDataSizeAt k := by
    intro k c hc
    have hk := (List.getElem?_eq_some_iff.mp hc).1
    exact hsizes k c (by rw [List.getElem?_append_left hk]; exact hc)
  rw [fileContent_snoc, List.length_append, length_chunkRecord,
    seekToChunkIndex_eq o.toGeometry md5 hheader hinit hcount, hsizes chunks.length chunk (by simp)]

theorem headerMd5Ok_fileContent (i : ℕ) :
    HeaderMd5Ok md5 (fileContent md5 (headerBytes md5 o i) chunks) := by
  have hhi : 48 ≤ (headerBytes md5 o i).length := (length_headerBytes md5 o i).ge
  have hdigest := md5.length_digest (descriptiveFields o i)
  have hleft : (sliceMagic ++ [1] ++ leBytes fileHeaderSize 2).length = 7 := by
    simp [sliceMagic]
  have hbefore : (sliceMagic ++ [1] ++ leBytes fileHeaderSize 2 ++
      md5.digest (descriptiveFields o i)).length = 23 := by
    rw [List.length_append, hleft, hdigest]
  have hsum : slice (headerBytes md5 o i) 7 23 = md5.digest (descriptiveFields o i) := by
    rw [headerBytes, slice_append_left hbefore.ge, slice_append_right hleft.le, hleft,
      show 23 - 7 = (md5.digest (descriptiveFields o i)).length by rw [hdigest], Nat.sub_self,
      slice_zero_length]
  have hfields : slice (headerBytes md5 o i) 23 48 = descriptiveFields o i := by
    rw [headerBytes, slice_append_right hbefore.le, hbefore,
      show 48 - 23 = (descriptiveFields o i).length by simp, Nat.sub_self, slice_zero_length]
  rw [HeaderMd5Ok, fileContent, slice_append_left (by omega), slice_append_left hhi, hsum, hfields]

/-- A written slice has its header, all of its chunks, and nothing behind the last one. -/
theorem sliceFiles_spec {rs : Codec} {memory : ℕ → UInt8} {plaintext : Bytes} {i : ℕ}
    (hrs : rs.KeepsData o.dataSliceCount o.paritySliceCount) (hi : i < o.totalSliceCount)
    (henc : Encodable o i) (hsize : 0 < o.size) :
    openHeader o i (sliceFiles md5 rs o memory plaintext i) = .ok () ∧
    HeaderMd5Ok md5 (sliceFiles md5 rs o memory plaintext i) ∧
    (∀ k < o.chunkSetCount, ChunkIntact o (sliceFiles md5 rs o memory plaintext i) k md5) ∧
    ∃ k < o.chunkSetCount, (sliceFiles md5 rs o memory plaintext i).length =
      seekToChunkIndex o.plan k + (chunkHeaderSize + o.chunkDataSizeAt k) := by
  obtain ⟨last, hcount, -, hle, -⟩ := o.chunkSetCount_spec hsize
  have hfile : sliceFiles md5 rs o memory plaintext i = fileContent md5 (headerBytes md5 o i)
      ((List.range o.chunkSetCount).map (chunkAt rs o memory plaintext · i)) := by
    simp [sliceFiles, sliceContent, hi]
  have hsizes : ∀ k, ∀ c ∈ ((List.range o.chunkSetCount).map
      (chunkAt rs o memory plaintext · i))[k]?, c.length = o.chunkDataSizeAt k := by
    intro k c hc
    simp only [List.getElem?_map, Option.mem_def, Option.map_eq_some_iff] at hc
    obtain ⟨j, hj, rfl⟩ := hc
    obtain ⟨_, hget⟩ := List.getElem?_eq_some_iff.mp hj
    obtain rfl : k = j := by simpa using hget
    exact length_chunkAt hrs k hi
  have hheader := length_headerBytes md5 o i
  rw [hfile]
  refine ⟨openHeader_fileContent md5 o henc _, headerMd5Ok_fileContent i, fun k hk => ?_, ?_⟩
  · exact chunkIntact_fileContent hheader hsizes (by simpa using o.chunkSetCount_le)
      (by simpa using hk)
  · refine ⟨last, by omega, ?_⟩
    rw [hcount, List.range_succ, List.map_append] at hsizes ⊢
    have hlen := @length_fileContent_snoc md5 o _ _ hheader _ hsizes (by simpa using hle)
    rw [List.length_map, List.length_range] at hlen
    exact hlen

end WrittenFile

/-! ## Damage -/

/-- What of a header says which slice of which object it is. -/
inductive HeaderField where
  | objectId | dataSliceCount | paritySliceCount | sliceIndex | chunkSize
  deriving DecidableEq, Repr

def fieldAt (file : Bytes) : HeaderField → Bytes
  | .objectId => slice file 23 35
  | .dataSliceCount => slice file 40 41
  | .paritySliceCount => slice file 41 42
  | .sliceIndex => slice file 42 43
  | .chunkSize => slice file 43 46

/-- One of these has been done to a slice file, whatever else has. -/
inductive Damaged (o : FileObject) (file file' : Bytes) : Prop where
  | payload (k : ℕ) (hk : k < o.chunkSetCount) (changed : payloadAt o file' k ≠ payloadAt o file k)
      (kept : checksumAt o file' k = checksumAt o file k)
  | checksum (k : ℕ) (hk : k < o.chunkSetCount)
      (changed : checksumAt o file' k ≠ checksumAt o file k)
      (kept : payloadAt o file' k = payloadAt o file k)
  | header (f : HeaderField) (changed : fieldAt file' f ≠ fieldAt file f)
  | truncated (shorter : file'.length < file.length)

section Damage

variable {md5 : Md5} {o : FileObject} {i : ℕ} {file file' : Bytes}

theorem readUIntLE_injective {a b : Bytes} (hlen : a.length = b.length)
    (h : readUIntLE a = readUIntLE b) : a = b := by
  induction a generalizing b with
  | nil => exact (List.eq_nil_of_length_eq_zero hlen.symm).symm
  | cons d a ih =>
    obtain ⟨e, b, rfl⟩ := List.exists_cons_of_length_eq_add_one hlen.symm
    have hd := d.toNat_lt
    have he := e.toNat_lt
    simp only [readUIntLE, List.foldr_cons] at h
    have hrest := @ih b (by simpa using hlen) (by simp only [readUIntLE]; omega)
    have hfirst : d = e := UInt8.toNat_inj.mp (by omega)
    rw [hfirst, hrest]

theorem readUIntLE_lt (b : Bytes) : readUIntLE b < 256 ^ b.length := by
  induction b with
  | nil => exact Nat.one_pos
  | cons d b ih =>
    have hd := d.toNat_lt
    simp only [readUIntLE, List.foldr_cons, List.length_cons, pow_succ] at ih ⊢
    omega

theorem readInt24LE_injective {a b : Bytes} (ha : a.length = 3) (hb : b.length = 3)
    (h : readInt24LE a = readInt24LE b) : a = b := by
  apply readUIntLE_injective (ha.trans hb.symm)
  have hlt := readUIntLE_lt a
  have hlt' := readUIntLE_lt b
  rw [ha] at hlt
  rw [hb] at hlt'
  unfold readInt24LE at h
  split_ifs at h <;> omega

/-- What an accepted header says is what the object says. -/
structure Describes (o : FileObject) (i : ℕ) (file : Bytes) : Prop where
  whole : 48 ≤ file.length
  objectId : slice file 23 35 = o.idBuf
  dataSliceCount : (file[40]?.getD 0).toNat = o.dataSliceCount
  paritySliceCount : (file[41]?.getD 0).toNat = o.paritySliceCount
  sliceIndex : (file[42]?.getD 0).toNat = i
  chunkSize : readInt24LE (slice file 43 46) = o.chunkSize

theorem describes_of_openHeader (h : openHeader o i file = .ok ()) : Describes o i file := by
  have hbytes : ∀ {lo hi}, hi ≤ 48 → slice (slice file 0 fileHeaderSize) lo hi = slice file lo hi :=
    fun {lo hi} hle => by
      rw [slice_slice _ _ _ _ _ (by rw [Nat.zero_add]; exact hle), Nat.zero_add, Nat.zero_add]
  have hbyte : ∀ j < 48, (slice file 0 fileHeaderSize)[j]? = file[j]? := fun j hj => by
    rw [getElem?_slice, if_pos (by rw [Nat.zero_add]; exact hj), Nat.zero_add]
  rw [openHeader] at h
  split_ifs at h with hlen hvalid
  have hwhole : 48 ≤ file.length := by
    rw [not_not, length_slice, show fileHeaderSize = 48 from rfl] at hlen
    omega
  simp only [validateHeader, Bool.decide_and, Bool.and_eq_true, decide_eq_true_eq,
    hbytes (show 35 ≤ 48 by decide), hbytes (show 46 ≤ 48 by decide),
    hbyte 40 (by decide), hbyte 41 (by decide), hbyte 42 (by decide)] at hvalid
  obtain ⟨hid, hdata, hparity, hindex, hchunk⟩ := hvalid
  exact ⟨hwhole, hid, hdata, hparity, hindex, hchunk⟩

theorem slice_byte_eq {j : ℕ} (hj : j < file.length) (hj' : j < file'.length)
    (h : (file'[j]?.getD 0).toNat = (file[j]?.getD 0).toNat) :
    slice file' j (j + 1) = slice file j (j + 1) := by
  apply slice_eq_slice
  intro l hl hl'
  obtain rfl : l = j := by omega
  rw [List.getElem?_eq_getElem hj, List.getElem?_eq_getElem hj'] at h ⊢
  exact congrArg some (UInt8.toNat_inj.mp h)

/-- Two headers that the same slice accepts agree in every field. -/
theorem Describes.fieldAt_eq (h : Describes o i file) (h' : Describes o i file') (f : HeaderField) :
    fieldAt file' f = fieldAt file f := by
  have hlen := h.whole
  have hlen' := h'.whole
  cases f with
  | objectId => exact h'.objectId.trans h.objectId.symm
  | dataSliceCount =>
    exact slice_byte_eq (by omega) (by omega) (h'.dataSliceCount.trans h.dataSliceCount.symm)
  | paritySliceCount =>
    exact slice_byte_eq (by omega) (by omega) (h'.paritySliceCount.trans h.paritySliceCount.symm)
  | sliceIndex => exact slice_byte_eq (by omega) (by omega) (h'.sliceIndex.trans h.sliceIndex.symm)
  | chunkSize =>
    exact @readInt24LE_injective (slice file' 43 46) (slice file 43 46) (by simp; omega)
      (by simp; omega) (h'.chunkSize.trans h.chunkSize.symm)

/-- A slice accepts no damaged form of a file it accepts and whose end is its last chunk's. -/
theorem not_intact_of_damaged (hlast : ∃ k < o.chunkSetCount, file.length =
      seekToChunkIndex o.plan k + (chunkHeaderSize + o.chunkDataSizeAt k))
    (hopen : openHeader o i file = .ok ())
    (hintact : ∀ k < o.chunkSetCount, ChunkIntact o file k md5)
    (hmd5 : ∀ k < o.chunkSetCount, Set.InjOn md5.digest {payloadAt o file k, payloadAt o file' k})
    (hdamaged : Damaged o file file') :
    ¬(openHeader o i file' = .ok () ∧ ∀ k < o.chunkSetCount, ChunkIntact o file' k md5) := by
  rintro ⟨hopen', hintact'⟩
  cases hdamaged with
  | payload k hk changed kept =>
    have hsame : md5.digest (payloadAt o file' k) = md5.digest (payloadAt o file k) := by
      rw [(hintact' k hk).checksum, (hintact k hk).checksum, kept]
    exact changed (hmd5 k hk (.inr rfl) (.inl rfl) hsame)
  | checksum k hk changed kept =>
    apply changed
    rw [← (hintact' k hk).checksum, ← (hintact k hk).checksum, kept]
  | header f changed =>
    exact changed ((describes_of_openHeader hopen).fieldAt_eq (describes_of_openHeader hopen') f)
  | truncated shorter =>
    obtain ⟨k, hk, hlen⟩ := hlast
    have hwhole := (hintact' k hk).whole
    omega

end Damage

/-- The verifier passes every slice file of the writer, with and without a look at the checksum of
the header, and no damaged one. Two different payloads of one chunk are not to have one digest. -/
theorem verifier_passes_written_only (md5 : Md5) (rs : Codec) (o : FileObject) (plaintext : Bytes)
    (files : ℕ → Bytes) (hsize : 1 ≤ o.size)
    (hrs : rs.create o.dataSliceCount o.paritySliceCount = true →
      rs.KeepsData o.dataSliceCount o.paritySliceCount)
    (hw : Written md5 rs o plaintext files) (i : ℕ) (hi : i < o.totalSliceCount)
    (memory : ℕ → UInt8) (check : Bool) :
    verifySlice md5 o rs memory .full check i (files i) = .ok () ∧
    ∀ file', Damaged o (files i) file' →
      (∀ k < o.chunkSetCount,
        Set.InjOn md5.digest {payloadAt o (files i) k, payloadAt o file' k}) →
      ∃ e, verifySlice md5 o rs memory .full check i file' = .error e := by
  obtain ⟨hcreate, henc, -, memory', rfl⟩ := hw.spec hrs
  obtain ⟨hopen, hsum, hintact, hlast⟩ := @sliceFiles_spec md5 o rs memory' plaintext i
    (hrs hcreate) hi (henc i hi) hsize
  refine ⟨(verifySlice_full_iff hcreate hi).mpr ⟨hopen, fun _ => hsum, hintact⟩, ?_⟩
  intro file' hdamaged hmd5
  have hfails : verifySlice md5 o rs memory .full check i file' ≠ .ok () := by
    intro hok
    obtain ⟨hopen', -, hintact'⟩ := (verifySlice_full_iff hcreate hi).mp hok
    exact not_intact_of_damaged hlast hopen hintact hmd5 hdamaged ⟨hopen', hintact'⟩
  cases hresult : verifySlice md5 o rs memory .full check i file' with
  | error e => exact ⟨e, rfl⟩
  | ok u => exact absurd hresult hfails

/-- The parity of an object of three chunk sets. -/
def spreadFile : Bytes :=
  sliceFiles standard mirror spreadObject (fun _ => 0) ((List.range 120).map UInt8.ofNat) 1

/-- A byte of the payload in the middle is another one. -/
def flippedFile : Bytes := copyInto spreadFile 100 [255]

theorem verifier_passes_written_only_spread :
    verifySlice standard spreadObject mirror (fun _ => 0) .full true 1 spreadFile = .ok () ∧
      payloadAt spreadObject flippedFile 1 ≠ payloadAt spreadObject spreadFile 1 ∧
      ∃ e, verifySlice standard spreadObject mirror (fun _ => 0) .full true 1 flippedFile =
        .error e := by
  have hrs := (mirror_lawful 1 1 rfl).keepsData
  have hwritten : Written standard mirror spreadObject ((List.range 120).map UInt8.ofNat)
      (sliceFiles standard mirror spreadObject (fun _ => 0)
        ((List.range 120).map UInt8.ofNat)) :=
    written_sliceFiles rfl hrs spreadObject_fits (by decide)
  obtain ⟨hpasses, hrejects⟩ := verifier_passes_written_only standard mirror spreadObject _ _
    (by decide) (fun _ => hrs) hwritten 1 (by decide) (fun _ => 0) true
  have hchanged : payloadAt spreadObject flippedFile 1 ≠ payloadAt spreadObject spreadFile 1 := by
    decide +kernel
  have hkept : checksumAt spreadObject flippedFile 1 = checksumAt spreadObject spreadFile 1 := by
    decide +kernel
  have hdigests : ∀ k < spreadObject.chunkSetCount,
      standard.digest (payloadAt spreadObject spreadFile k) =
          standard.digest (payloadAt spreadObject flippedFile k) →
        payloadAt spreadObject spreadFile k = payloadAt spreadObject flippedFile k := by
    decide +kernel
  refine ⟨hpasses, hchanged, hrejects _ (.payload 1 (by decide) hchanged hkept) fun k hk => ?_⟩
  rintro _ (rfl | rfl) _ (rfl | rfl) hsame
  · rfl
  · exact hdigests k hk hsame
  · exact (hdigests k hk hsame.symm).symm
  · rfl

end SliceVerifier
