import Strubs.FileObjectBase
import Mathlib.Logic.Function.Basic

/-! # Writing an object

The writer fills one chunk set at a time, sends each data chunk to its slice as soon as
it is complete, and the parity chunks when all of them are. What it must have written
after any prefix of the plaintext is a function of the prefix alone. -/
namespace FileObjectWriter

open ByteBuffer ErasureCode ChunkPlan MessageDigest SliceFile FileObjectBase

structure Writer extends Base where
  bytesWritten : ℕ
  md5Hasher : Option Bytes
  md5 : Option Bytes
  files : ℕ → Bytes

variable (md5 : Md5) (rs : Codec) (o : FileObject)

def rsSourcesBits : BitVec 32 := Codec.dataFlags o.dataSliceCount
def rsTargetsBits : BitVec 32 := Codec.parityFlags o.dataSliceCount o.paritySliceCount

/-- Every slice writes its header to a fresh temporary file. -/
def prepare (memory : ℕ → UInt8) : Except ObjectError Writer :=
  if rs.create o.dataSliceCount o.paritySliceCount then
    match (List.range o.totalSliceCount).mapM (createHeader md5 o) with
    | some headers => .ok
        { configureStartState o.toGeometry (configureInternals o.toGeometry memory) with
          bytesWritten := 0
          md5Hasher := some []
          md5 := none
          files := fun i => headers[i]?.getD [] }
    | none => .error .headerRange
  else .error .contextRejected

def queueSliceWrite (w : Writer) (sliceIndex : ℕ) (data : Bytes) : Writer :=
  { w with
    files := Function.update w.files sliceIndex (w.files sliceIndex ++ chunkRecord md5 data) }

def readySlice (w : Writer) : Bool :=
  w.chunkSetNextSliceOffset ≤ w.chunkSetBufferPosition ∧
    w.chunkSetNextSliceIndex ≤ o.dataSliceCount

def writeNextSlice (w : Writer) : Writer :=
  let sliceIndexToWrite := w.chunkSetNextSliceIndex - 1
  let sliceData := slice w.chunkSetBuffer (w.chunkDataSize * sliceIndexToWrite)
    (w.chunkDataSize * w.chunkSetNextSliceIndex)
  { queueSliceWrite md5 w sliceIndexToWrite sliceData with
    chunkSetNextSliceIndex := w.chunkSetNextSliceIndex + 1
    chunkSetNextSliceOffset := w.chunkSetNextSliceOffset + w.chunkDataSize }

/-- The loop ends by its own condition within as many rounds as there are slices left. -/
def writeReadySlices : ℕ → Writer → Writer
  | 0, w => w
  | rounds + 1, w =>
    if readySlice o w then writeReadySlices rounds (writeNextSlice md5 w) else w

def writeParitySlices (w : Writer) : Writer :=
  (List.range' o.dataSliceCount o.paritySliceCount).foldl (fun w sliceIndex =>
    let sliceOffset := w.chunkSetSliceOffsets[sliceIndex]?.getD 0
    queueSliceWrite md5 w sliceIndex
      (slice w.chunkSetBuffer sliceOffset (sliceOffset + w.chunkDataSize))) w

def computeAndWriteParity (w : Writer) : Except ObjectError Writer :=
  (computeParity o.toGeometry rs (rsSourcesBits o) (rsTargetsBits o) w.toBase).map fun b =>
    writeParitySlices md5 o { w with toBase := b }

def writeBuffer (w : Writer) : Except ObjectError Writer :=
  let w := writeReadySlices md5 o (o.dataSliceCount + 1 - w.chunkSetNextSliceIndex) w
  if w.chunkSetNextSliceIndex > o.dataSliceCount then
    match computeAndWriteParity md5 rs o w with
    | .error e => .error e
    | .ok w =>
      if w.dataOffset = w.nextChunkGroupOffset then
        (configureNextChunkGroup o.toGeometry w.toBase).map fun b => { w with toBase := b }
      else .ok { w with toBase := resetBufferPositions w.toBase }
  else .ok w

def takeBytes (w : Writer) (buffer : Bytes) (bytesToWrite : ℕ) : Writer :=
  { w with
    chunkSetBuffer :=
      copyInto w.chunkSetBuffer w.chunkSetBufferPosition (buffer.take bytesToWrite)
    chunkSetBufferPosition := w.chunkSetBufferPosition + bytesToWrite
    chunkSetBufferRemaining := w.chunkSetBufferRemaining - bytesToWrite
    dataOffset := w.dataOffset + bytesToWrite }

def writeRound (w : Writer) (buffer : Bytes) : Except ObjectError (Writer × Bytes) :=
  let bytesToWrite := min buffer.length w.chunkSetBufferRemaining
  let w := takeBytes w buffer bytesToWrite
  let rest := buffer.drop bytesToWrite
  if w.chunkSetBufferRemaining = 0 ∨ w.chunkSetNextSliceOffset ≤ w.chunkSetBufferPosition then
    (writeBuffer md5 rs o w).map (·, rest)
  else .ok (w, rest)

/-- `none` is a loop that has not ended after `fuel` rounds. -/
def writeLoop : ℕ → Writer → Bytes → Option (Except ObjectError Writer)
  | _, w, [] => some (.ok w)
  | 0, _, _ :: _ => none
  | fuel + 1, w, d :: ds =>
    match writeRound md5 rs o w (d :: ds) with
    | .ok (w, rest) => writeLoop fuel w rest
    | .error e => some (.error e)

def write (fuel : ℕ) (w : Writer) (data : Bytes) : Option (Except ObjectError Writer) :=
  match w.md5Hasher with
  | none => some (.error .hashFinished)
  | some hashed => writeLoop md5 rs o fuel
      { w with bytesWritten := w.bytesWritten + data.length, md5Hasher := some (hashed ++ data) }
      data

/-- The rest of the chunk-set buffer is zeroed, not only the rest of its data region. -/
def padChunkSet (w : Writer) : Writer :=
  { w with
    chunkSetBuffer := fillFrom w.chunkSetBuffer w.chunkSetBufferPosition 0
    chunkSetBufferPosition := w.chunkSetDataSize
    chunkSetBufferRemaining := 0 }

def finish (w : Writer) : Except ObjectError Writer :=
  if w.bytesWritten ≠ o.size then .error (.sizeMismatch o.size w.bytesWritten)
  else
    let flushed :=
      if 0 < w.chunkSetBufferPosition then writeBuffer md5 rs o (padChunkSet w) else .ok w
    match flushed with
    | .error e => .error e
    | .ok w =>
      match w.md5Hasher with
      | none => .error .hashFinished
      | some hashed => .ok { w with md5 := some (md5.digest hashed), md5Hasher := none }

/-- Successive writes, then `finish`. -/
def writeAll (fuel : ℕ) (w : Writer) : List Bytes → Option (Except ObjectError Writer)
  | [] => some (finish md5 rs o w)
  | data :: rest =>
    match write md5 rs o fuel w data with
    | some (.ok w) => writeAll fuel w rest
    | stopped => stopped

/-! What the plaintext alone determines. -/

variable (memory : ℕ → UInt8) (plaintext : Bytes)

/-- The buffer at the moment the parity of chunk set `k` is computed. -/
def filled (buffer : Bytes) (k : ℕ) : Bytes :=
  let copied := copyInto buffer 0
    (slice plaintext (o.chunkSetOffset k) (o.chunkSetOffset (k + 1)))
  if o.chunkSetOffset (k + 1) ≤ o.size then copied
  else fillFrom copied (o.size - o.chunkSetOffset k) 0

/-- The buffer when chunk set `k` begins. -/
def setBuffer : ℕ → Bytes
  | 0 => allocUnsafe memory (maxBufferSize o.toGeometry)
  | k + 1 => rs.run o.dataSliceCount o.paritySliceCount (o.chunkDataSizeAt k)
      (rsSourcesBits o) (rsTargetsBits o) (filled o plaintext (setBuffer k) k)

def chunkAt (k i : ℕ) : Bytes :=
  block (setBuffer rs o memory plaintext (k + 1)) (o.chunkDataSizeAt k) i

/-- Slice `i` when `k` chunk sets are complete and `q` chunks of the next one are written. -/
def sliceContent (k q i : ℕ) : Bytes :=
  if i < o.totalSliceCount then
    fileContent md5 (headerBytes md5 o i)
      ((List.range k).map (chunkAt rs o memory plaintext · i) ++
        if i < q then [chunkAt rs o memory plaintext k i] else [])
  else []

/-- The slice files of the object. -/
def sliceFiles : ℕ → Bytes := sliceContent md5 rs o memory plaintext o.chunkSetCount 0

variable {md5 rs o memory plaintext}

/-- The slices hold what they should after `k` chunk sets and `q` chunks. -/
structure Progress (md5 : Md5) (rs : Codec) (o : FileObject) (memory : ℕ → UInt8)
    (plaintext : Bytes) (w : Writer) (k q : ℕ) : Prop where
  configured : Configured o.toGeometry w.toBase k
  next_index : w.chunkSetNextSliceIndex = q + 1
  next_offset : w.chunkSetNextSliceOffset = (q + 1) * o.chunkDataSizeAt k
  index_le : q ≤ o.dataSliceCount
  files : w.files = sliceContent md5 rs o memory plaintext k q

/-- Between two rounds of `write`: the buffer holds the plaintext since the chunk set began. -/
structure Filling (md5 : Md5) (rs : Codec) (o : FileObject) (memory : ℕ → UInt8)
    (plaintext : Bytes) (w : Writer) (k q : ℕ) : Prop extends
    Progress md5 rs o memory plaintext w k q where
  set_le : k ≤ o.chunkSetCount
  offset : w.dataOffset = o.chunkSetOffset k + w.chunkSetBufferPosition
  remaining : w.chunkSetBufferPosition + w.chunkSetBufferRemaining =
    o.chunkDataSizeAt k * o.dataSliceCount
  room : 0 < o.chunkDataSizeAt k → 0 < w.chunkSetBufferRemaining
  started : 0 < q → 0 < w.chunkSetBufferPosition
  buffer : w.chunkSetBuffer = copyInto (setBuffer rs o memory plaintext k) 0
    (slice plaintext (o.chunkSetOffset k) w.dataOffset)

theorem length_filled (buffer : Bytes) (k : ℕ) :
    (filled o plaintext buffer k).length = buffer.length := by
  unfold filled
  split_ifs <;> simp

theorem length_setBuffer (hrs : rs.KeepsData o.dataSliceCount o.paritySliceCount) (k : ℕ) :
    (setBuffer rs o memory plaintext k).length = maxBufferSize o.toGeometry := by
  induction k with
  | zero => simp [setBuffer]
  | succ k ih =>
    have hfit := blocks_fit (g := o.toGeometry) k
    have hlen : (filled o plaintext (setBuffer rs o memory plaintext k) k).length =
      maxBufferSize o.toGeometry := by rw [length_filled, ih]
    rw [setBuffer, ← hlen]
    exact hrs.length_run _ _ (by rw [hlen]; exact hfit)

/-- Computing the parity does not change a data chunk. -/
theorem chunkAt_data (hrs : rs.KeepsData o.dataSliceCount o.paritySliceCount) (k : ℕ) {i : ℕ}
    (hi : i < o.dataSliceCount) : chunkAt rs o memory plaintext k i =
      block (filled o plaintext (setBuffer rs o memory plaintext k) k) (o.chunkDataSizeAt k) i := by
  have hlen : (filled o plaintext (setBuffer rs o memory plaintext k) k).length =
    maxBufferSize o.toGeometry := by rw [length_filled, length_setBuffer hrs]
  have hkeep := hrs.keeps (o.chunkDataSizeAt k) _ (by
    rw [hlen]; exact blocks_fit (g := o.toGeometry) k)
  rw [chunkAt, setBuffer, ← block_clip _ hi]
  exact (congrArg (block · _ i) hkeep).trans (block_clip _ hi)

theorem length_chunkAt (hrs : rs.KeepsData o.dataSliceCount o.paritySliceCount) (k : ℕ) {i : ℕ}
    (hi : i < o.totalSliceCount) :
    (chunkAt rs o memory plaintext k i).length = o.chunkDataSizeAt k := by
  apply length_block
  rw [length_setBuffer hrs]
  exact (Nat.mul_le_mul_right _ hi).trans (blocks_fit k)

/-- The next chunk of a slice goes behind the ones it has. -/
theorem update_sliceContent {k q : ℕ} (hq : q < o.totalSliceCount) :
    Function.update (sliceContent md5 rs o memory plaintext k q) q
      (sliceContent md5 rs o memory plaintext k q q ++
        chunkRecord md5 (chunkAt rs o memory plaintext k q)) =
      sliceContent md5 rs o memory plaintext k (q + 1) := by
  funext i
  by_cases hi : i = q
  · subst hi
    simp [sliceContent, hq, fileContent_snoc]
  · rw [Function.update_of_ne hi]
    have : i < q + 1 ↔ i < q := by omega
    simp only [sliceContent, this]

/-- A chunk set whose every slice is written begins the next one. -/
theorem sliceContent_complete {k q : ℕ} (hq : o.totalSliceCount ≤ q) :
    sliceContent md5 rs o memory plaintext k q =
      sliceContent md5 rs o memory plaintext (k + 1) 0 := by
  funext i
  unfold sliceContent
  split_ifs with h1 h2 h3 <;> first | omega | simp [List.range_succ]

theorem writeNextSlice_progress {w : Writer} {k q : ℕ}
    (h : Progress md5 rs o memory plaintext w k q) (hq : q < o.dataSliceCount)
    (hblock : block w.chunkSetBuffer (o.chunkDataSizeAt k) q =
      chunkAt rs o memory plaintext k q) :
    Progress md5 rs o memory plaintext (writeNextSlice md5 w) k (q + 1) := by
  have hc := h.configured
  refine ⟨⟨hc.chunk, hc.data_size, hc.parity_offset, hc.parity_size, hc.slice_offsets, hc.group⟩,
    ?_, ?_, hq, ?_⟩
  · simp only [writeNextSlice, queueSliceWrite, h.next_index]
  · simp only [writeNextSlice, queueSliceWrite, h.next_offset, hc.chunk]
    ring
  · rw [← update_sliceContent (show q < o.totalSliceCount by
      unfold Geometry.totalSliceCount; omega), ← hblock, ← h.files]
    simp only [writeNextSlice, queueSliceWrite, h.next_index, hc.chunk, Nat.add_sub_cancel, block]
    congr 4 <;> ring

/-- Everything but the slices and their index is as before. -/
def SameBuffer (w w' : Writer) : Prop :=
  w'.dataOffset = w.dataOffset ∧ w'.chunkSetBuffer = w.chunkSetBuffer ∧
  w'.chunkSetBufferPosition = w.chunkSetBufferPosition ∧
  w'.chunkSetBufferRemaining = w.chunkSetBufferRemaining ∧
  w'.bytesWritten = w.bytesWritten ∧ w'.md5Hasher = w.md5Hasher

/-- A round sends a slice whose chunk is in the buffer. What each of them keeps holds afterwards,
and no slice is left whose chunk is there. -/
theorem writeReadySlices_keeps {P : Writer → ℕ → Prop} {size : ℕ} (rounds : ℕ) {w : Writer} {q : ℕ}
    (hnext : ∀ {w q}, P w q → w.chunkSetNextSliceIndex = q + 1 ∧
      w.chunkSetNextSliceOffset = (q + 1) * size ∧ q ≤ o.dataSliceCount)
    (hstep : ∀ {w' q}, SameBuffer w w' → P w' q → q < o.dataSliceCount →
      (q + 1) * size ≤ w.chunkSetBufferPosition → P (writeNextSlice md5 w') (q + 1))
    (h : P w q) (hr : o.dataSliceCount ≤ q + rounds) :
    ∃ q', P (writeReadySlices md5 o rounds w) q' ∧
      SameBuffer w (writeReadySlices md5 o rounds w) ∧
      (q' = q ∨ q' * size ≤ w.chunkSetBufferPosition) ∧
      (q' = o.dataSliceCount ∨ w.chunkSetBufferPosition < (q' + 1) * size) := by
  induction rounds generalizing w q with
  | zero =>
    have hle := (hnext h).2.2
    exact ⟨q, h, ⟨rfl, rfl, rfl, rfl, rfl, rfl⟩, .inl rfl, .inl (by omega)⟩
  | succ rounds ih =>
    obtain ⟨hindex, hoffset, hle⟩ := hnext h
    have hready : readySlice o w = true ↔
        (q + 1) * size ≤ w.chunkSetBufferPosition ∧ q < o.dataSliceCount := by
      simp only [readySlice, hoffset, hindex, decide_eq_true_eq]
      rfl
    rw [writeReadySlices]
    by_cases hcond : readySlice o w = true
    · obtain ⟨hpos, hq⟩ := hready.mp hcond
      rw [if_pos hcond]
      have hsent := hstep ⟨rfl, rfl, rfl, rfl, rfl, rfl⟩ h hq hpos
      obtain ⟨q', hp, hs, hw, hx⟩ := ih (w := writeNextSlice md5 w) hstep hsent (by omega)
      refine ⟨q', hp, hs, .inr ?_, hx⟩
      rcases hw with rfl | hw
      · exact hpos
      · exact hw
    · rw [if_neg hcond]
      refine ⟨q, h, ⟨rfl, rfl, rfl, rfl, rfl, rfl⟩, .inl rfl, ?_⟩
      rw [hready] at hcond
      omega

/-- With a full buffer no data slice is left. -/
theorem sent_of_full {size position q : ℕ} (hfull : position = size * o.dataSliceCount)
    (hle : q ≤ o.dataSliceCount) (hleft : q = o.dataSliceCount ∨ position < (q + 1) * size) :
    q = o.dataSliceCount := by
  rcases hleft with hq | hlt
  · exact hq
  · by_contra hne
    have := Nat.mul_le_mul_right size (show q + 1 ≤ o.dataSliceCount by omega)
    rw [hfull, Nat.mul_comm size] at hlt
    omega

theorem writeReadySlices_spec (rounds : ℕ) {w : Writer} {k q : ℕ}
    (h : Progress md5 rs o memory plaintext w k q) (hr : o.dataSliceCount ≤ q + rounds)
    (hblocks : ∀ i, i < o.dataSliceCount →
      (i + 1) * o.chunkDataSizeAt k ≤ w.chunkSetBufferPosition →
      block w.chunkSetBuffer (o.chunkDataSizeAt k) i = chunkAt rs o memory plaintext k i) :
    ∃ q', Progress md5 rs o memory plaintext (writeReadySlices md5 o rounds w) k q' ∧
      SameBuffer w (writeReadySlices md5 o rounds w) ∧
      (q' = q ∨ (q' * o.chunkDataSizeAt k ≤ w.chunkSetBufferPosition)) ∧
      (q' = o.dataSliceCount ∨ w.chunkSetBufferPosition < (q' + 1) * o.chunkDataSizeAt k) := by
  refine writeReadySlices_keeps (P := fun w q => Progress md5 rs o memory plaintext w k q) rounds
    (fun h => ⟨h.next_index, h.next_offset, h.index_le⟩) ?_ h hr
  intro w' q hsame hp hq hpos
  apply writeNextSlice_progress hp hq
  rw [hsame.2.1]
  exact hblocks q hq hpos

private theorem queueParity_fold {w : Writer} {k : ℕ} (hc : Configured o.toGeometry w.toBase k)
    (hbuf : w.chunkSetBuffer = setBuffer rs o memory plaintext (k + 1))
    (hfiles : w.files = sliceContent md5 rs o memory plaintext k o.dataSliceCount) (j : ℕ)
    (hj : j ≤ o.paritySliceCount) :
    (List.range' o.dataSliceCount j).foldl (fun w sliceIndex =>
      queueSliceWrite md5 w sliceIndex (slice w.chunkSetBuffer
        (w.chunkSetSliceOffsets[sliceIndex]?.getD 0)
        (w.chunkSetSliceOffsets[sliceIndex]?.getD 0 + w.chunkDataSize))) w =
      { w with files := sliceContent md5 rs o memory plaintext k (o.dataSliceCount + j) } := by
  induction j with
  | zero => simp [← hfiles]
  | succ j ih =>
    have hlt : o.dataSliceCount + j < o.totalSliceCount := by
      unfold Geometry.totalSliceCount; omega
    have hoff : w.chunkSetSliceOffsets[o.dataSliceCount + j]?.getD 0 =
        (o.dataSliceCount + j) * o.chunkDataSizeAt k := by
      simp only [hc.slice_offsets, List.getElem?_map, List.getElem?_range hlt, Option.map_some,
        Option.getD_some]
    rw [List.range'_1_concat, List.foldl_append, ih (by omega), List.foldl_cons, List.foldl_nil]
    simp only [queueSliceWrite, hoff, hc.chunk, hbuf]
    rw [← Nat.add_assoc, ← update_sliceContent hlt, chunkAt, block]

/-- With a full data region of some bytes the redundancy is computed and sent out. -/
theorem computeAndWriteParity_eq (hrs : rs.KeepsData o.dataSliceCount o.paritySliceCount)
    {w : Writer} {k : ℕ} (h : Progress md5 rs o memory plaintext w k o.dataSliceCount)
    (hsize : 0 < o.chunkDataSizeAt k)
    (hbuf : w.chunkSetBuffer = filled o plaintext (setBuffer rs o memory plaintext k) k) :
    computeAndWriteParity md5 rs o w = .ok
      { w with
        chunkSetBuffer := setBuffer rs o memory plaintext (k + 1)
        files := sliceContent md5 rs o memory plaintext (k + 1) 0 } := by
  have hfit : (o.dataSliceCount + o.paritySliceCount) * o.chunkDataSizeAt k ≤
      w.chunkSetBuffer.length := by
    rw [hbuf, length_filled, length_setBuffer hrs]
    exact blocks_fit k
  have hcompute := computeParity_taken h.configured
    ((hrs.taken _ _ (o.chunkDataSizeAt_spec k).1 hfit).mpr hsize)
  rw [hbuf] at hcompute
  rw [computeAndWriteParity, rsSourcesBits, rsTargetsBits, hcompute,
    ← sliceContent_complete (q := o.dataSliceCount + o.paritySliceCount) le_rfl]
  exact congrArg Except.ok (queueParity_fold
    (w := { w with chunkSetBuffer := setBuffer rs o memory plaintext (k + 1) })
    (h.configured.withBuffer _) rfl h.files o.paritySliceCount le_rfl)

/-- A full data region sends out the rest of the chunk set and begins the next one. -/
theorem writeBuffer_complete (hB : Bounded o.toGeometry)
    (hrs : rs.KeepsData o.dataSliceCount o.paritySliceCount) {w : Writer} {k q : ℕ}
    (h : Progress md5 rs o memory plaintext w k q)
    (hk : k ≤ o.plan.standardChunkCountPerSlice + 1) (hsize : 0 < o.chunkDataSizeAt k)
    (hpos : w.chunkSetBufferPosition = o.chunkDataSizeAt k * o.dataSliceCount)
    (hbuf : w.chunkSetBuffer = filled o plaintext (setBuffer rs o memory plaintext k) k)
    (hoff : w.dataOffset = o.chunkSetOffset (k + 1) ∨
      w.dataOffset ≠ groupEnd o.toGeometry k) :
    ∃ w', writeBuffer md5 rs o w = .ok w' ∧
      w'.files = sliceContent md5 rs o memory plaintext (k + 1) 0 ∧
      w'.chunkSetBuffer = setBuffer rs o memory plaintext (k + 1) ∧
      w'.dataOffset = w.dataOffset ∧ w'.bytesWritten = w.bytesWritten ∧
      w'.md5Hasher = w.md5Hasher ∧
      (w.dataOffset = o.chunkSetOffset (k + 1) →
        Configured o.toGeometry w'.toBase (k + 1) ∧ Rewound o.toGeometry w'.toBase (k + 1)) := by
  obtain ⟨q', hp, ⟨hso, hsb, -, -, hsw, hsh⟩, -, hq'⟩ := writeReadySlices_spec
    (o.dataSliceCount + 1 - w.chunkSetNextSliceIndex) h
    (by have := h.next_index; have := h.index_le; omega)
    (fun i hi _ => by rw [chunkAt_data hrs k hi, hbuf])
  have hqD : q' = o.dataSliceCount := sent_of_full hpos hp.index_le hq'
  subst hqD
  unfold writeBuffer
  generalize writeReadySlices md5 o _ w = sent at *
  have hdone : sent.chunkSetNextSliceIndex > o.dataSliceCount := by
    rw [hp.next_index]; exact Nat.lt_succ_self _
  simp only [hdone, ↓reduceIte, computeAndWriteParity_eq hrs hp hsize (hsb.trans hbuf)]
  obtain ⟨b, hb⟩ : ∃ b, b = { sent.toBase with
      chunkSetBuffer := setBuffer rs o memory plaintext (k + 1) } := ⟨_, rfl⟩
  have hcfg : Configured o.toGeometry b k := hb ▸ hp.configured.withBuffer _
  have hd : b.dataOffset = w.dataOffset := by rw [hb]; exact hso
  have hrun : b.chunkSetBuffer = setBuffer rs o memory plaintext (k + 1) := by rw [hb]
  rw [← hb]
  by_cases hend : b.dataOffset = b.nextChunkGroupOffset
  · rw [hcfg.group, hd] at hend
    have hset := hoff.resolve_right fun hne => hne hend
    obtain ⟨b', hb', hc', hr', ho', hbuf'⟩ := configureNextChunkGroup_spec hB hk
      (hd.trans hset) (hd.trans hend)
    rw [if_pos (by rw [hso, hp.configured.group]; exact hend), hb']
    refine ⟨_, rfl, rfl, ?_, ?_, hsw, hsh, fun _ => ⟨hc', hr'⟩⟩
    · exact hbuf'.trans hrun
    · exact ho'.trans hd
  · rw [hcfg.group, hd] at hend
    obtain ⟨hc', -, ho', hbuf'⟩ := resetBufferPositions_spec hcfg
    rw [if_neg (by rw [hso, hp.configured.group]; exact hend)]
    refine ⟨_, rfl, rfl, ?_, ?_, hsw, hsh, ?_⟩
    · exact hbuf'.trans hrun
    · exact ho'.trans hd
    · intro hset
      have hnext := hcfg.next hB hk (by rw [← hset]; exact hend)
      have hspec := resetBufferPositions_spec hnext
      exact ⟨hspec.1, hspec.2.1⟩

/-- An incomplete data region sends out the chunks that are complete. -/
theorem writeBuffer_partial {w : Writer} {k q : ℕ}
    (h : Progress md5 rs o memory plaintext w k q)
    (hpos : w.chunkSetBufferPosition < o.chunkDataSizeAt k * o.dataSliceCount)
    (hq : q * o.chunkDataSizeAt k ≤ w.chunkSetBufferPosition)
    (hblocks : ∀ i, i < o.dataSliceCount →
      (i + 1) * o.chunkDataSizeAt k ≤ w.chunkSetBufferPosition →
      block w.chunkSetBuffer (o.chunkDataSizeAt k) i = chunkAt rs o memory plaintext k i) :
    ∃ w' q', writeBuffer md5 rs o w = .ok w' ∧ Progress md5 rs o memory plaintext w' k q' ∧
      SameBuffer w w' ∧ q' * o.chunkDataSizeAt k ≤ w.chunkSetBufferPosition := by
  obtain ⟨q', hp, hs, hw, -⟩ := writeReadySlices_spec
    (o.dataSliceCount + 1 - w.chunkSetNextSliceIndex) h
    (by have := h.next_index; have := h.index_le; omega) hblocks
  have hq' : q' * o.chunkDataSizeAt k ≤ w.chunkSetBufferPosition := by
    rcases hw with rfl | hw
    · exact hq
    · exact hw
  have hlt : q' < o.dataSliceCount := by
    by_contra hge
    have := Nat.mul_le_mul_right (o.chunkDataSizeAt k) (show o.dataSliceCount ≤ q' by omega)
    rw [Nat.mul_comm] at hpos
    omega
  refine ⟨_, q', ?_, hp, hs, hq'⟩
  have hmore : ¬ (writeReadySlices md5 o (o.dataSliceCount + 1 - w.chunkSetNextSliceIndex)
      w).chunkSetNextSliceIndex > o.dataSliceCount := by
    rw [hp.next_index]; omega
  simp only [writeBuffer, hmore, ↓reduceIte]

private theorem getElem?_copied {b : Bytes} {lo hi j : ℕ} (hj : lo + j < hi)
    (hhi : hi ≤ plaintext.length) (hfit : hi - lo ≤ b.length) :
    (copyInto b 0 (slice plaintext lo hi))[j]? = plaintext[lo + j]? := by
  rw [getElem?_copyInto _ _ _ _ (by simp; omega), if_pos (by simp; omega), getElem?_slice]
  simp [hj]

theorem getElem?_filled (hlen : plaintext.length = o.size) {b : Bytes} {k j : ℕ}
    (hb : o.chunkDataSizeAt k * o.dataSliceCount ≤ b.length)
    (hj : o.chunkSetOffset k + j < o.chunkSetOffset (k + 1)) :
    (filled o plaintext b k)[j]? =
      if o.chunkSetOffset k + j < o.size then plaintext[o.chunkSetOffset k + j]? else some 0 := by
  have hsucc := o.chunkSetOffset_succ k
  have hcopied : ∀ i, o.chunkSetOffset k + i < o.size → o.chunkSetOffset k + i <
      o.chunkSetOffset (k + 1) → (copyInto b 0 (slice plaintext (o.chunkSetOffset k)
        (o.chunkSetOffset (k + 1))))[i]? = plaintext[o.chunkSetOffset k + i]? := by
    intro i hi hset
    rw [getElem?_copyInto _ _ _ _ (by simp; omega), if_pos (by simp; omega), getElem?_slice]
    simp [hset]
  unfold filled
  split_ifs with hset hin hin
  · exact hcopied j hin hj
  · omega
  · rw [getElem?_fillFrom _ _ _ _ (by simp; omega), if_pos (by omega)]
    exact hcopied j hin hj
  · rw [getElem?_fillFrom _ _ _ _ (by simp; omega), if_neg (by omega),
      if_pos (by simp; omega)]

theorem data_size_fits (hrs : rs.KeepsData o.dataSliceCount o.paritySliceCount) (k : ℕ) :
    o.chunkDataSizeAt k * o.dataSliceCount ≤ (setBuffer rs o memory plaintext k).length := by
  rw [length_setBuffer hrs, Nat.mul_comm]
  exact data_fits k

/-- A data chunk is complete as soon as the plaintext has passed its end. -/
theorem block_copied (hlen : plaintext.length = o.size)
    (hrs : rs.KeepsData o.dataSliceCount o.paritySliceCount) {k i N : ℕ}
    (hN : N ≤ o.size) (hset : N ≤ o.chunkSetOffset (k + 1)) (hi : i < o.dataSliceCount)
    (hdone : o.chunkSetOffset k + (i + 1) * o.chunkDataSizeAt k ≤ N) :
    block (copyInto (setBuffer rs o memory plaintext k) 0
      (slice plaintext (o.chunkSetOffset k) N)) (o.chunkDataSizeAt k) i =
      chunkAt rs o memory plaintext k i := by
  have hfit := (@data_size_fits _ _ memory plaintext) hrs k
  have hsucc := o.chunkSetOffset_succ k
  rw [Nat.add_mul, Nat.one_mul] at hdone
  rw [chunkAt_data hrs k hi]
  apply slice_eq_slice
  intro j _ hj
  rw [getElem?_copied (by omega) (by omega) (by omega),
    getElem?_filled hlen hfit (by omega), if_pos (by omega)]

private theorem takeBytes_buffer (hlen : plaintext.length = o.size)
    (hrs : rs.KeepsData o.dataSliceCount o.paritySliceCount) {w : Writer} {k q b : ℕ}
    (h : Filling md5 rs o memory plaintext w k q) {buffer : Bytes}
    (hin : slice plaintext w.dataOffset (w.dataOffset + buffer.length) = buffer)
    (hfit : w.dataOffset + buffer.length ≤ o.size) (hb : b ≤ buffer.length)
    (hrem : b ≤ w.chunkSetBufferRemaining) :
    (takeBytes w buffer b).chunkSetBuffer = copyInto (setBuffer rs o memory plaintext k) 0
      (slice plaintext (o.chunkSetOffset k) (w.dataOffset + b)) := by
  have hsize := (@data_size_fits _ _ memory plaintext) hrs k
  have hoff := h.offset
  have hremaining := h.remaining
  have htake : buffer.take b = slice plaintext w.dataOffset (w.dataOffset + b) := by
    rw [← slice_zero, ← hin, slice_slice _ _ _ _ _ (by omega), Nat.add_zero]
  have hpos : w.chunkSetBufferPosition =
      0 + (slice plaintext (o.chunkSetOffset k) w.dataOffset).length := by
    rw [length_slice]; omega
  simp only [takeBytes, h.buffer, htake]
  rw [hpos, copyInto_copyInto_append (by simp; omega),
    slice_append_slice _ (by omega) (by omega) (by omega)]

/-- One round of `write` takes some bytes and keeps the invariant. -/
theorem writeRound_spec (hB : Bounded o.toGeometry) (hlen : plaintext.length = o.size)
    (hrs : rs.KeepsData o.dataSliceCount o.paritySliceCount) {w : Writer} {k q : ℕ}
    (h : Filling md5 rs o memory plaintext w k q) {buffer : Bytes} (hne : 0 < buffer.length)
    (hin : slice plaintext w.dataOffset (w.dataOffset + buffer.length) = buffer)
    (hfit : w.dataOffset + buffer.length ≤ o.size) :
    ∃ w' k' q' b, 0 < b ∧ b ≤ buffer.length ∧
      writeRound md5 rs o w buffer = .ok (w', buffer.drop b) ∧
      Filling md5 rs o memory plaintext w' k' q' ∧ w'.dataOffset = w.dataOffset + b ∧
      w'.bytesWritten = w.bytesWritten ∧ w'.md5Hasher = w.md5Hasher := by
  have hoff := h.offset
  have hremaining := h.remaining
  have hsucc := o.chunkSetOffset_succ k
  have hk : k < o.chunkSetCount := o.lt_chunkSetCount_iff.mpr (by omega)
  have hkn : k ≤ o.plan.standardChunkCountPerSlice + 1 := by
    have := o.chunkSetCount_le; omega
  have hroom := h.room (o.chunkDataSizeAt_pos_of_lt hk)
  obtain ⟨b, hb⟩ : ∃ b, b = min buffer.length w.chunkSetBufferRemaining := ⟨_, rfl⟩
  have hbuf := takeBytes_buffer hlen hrs h hin hfit (b := b) (by omega) (by omega)
  have hc := h.configured
  have hprog : Progress md5 rs o memory plaintext (takeBytes w buffer b) k q :=
    ⟨⟨hc.chunk, hc.data_size, hc.parity_offset, hc.parity_size, hc.slice_offsets, hc.group⟩,
      h.next_index, h.next_offset, h.index_le, h.files⟩
  have hstay : ∀ {w' : Writer} {q' : ℕ}, Progress md5 rs o memory plaintext w' k q' →
      SameBuffer (takeBytes w buffer b) w' → 0 < w.chunkSetBufferRemaining - b →
      Filling md5 rs o memory plaintext w' k q' := by
    rintro w' q' hp ⟨hs1, hs2, hs3, hs4, -, -⟩ hleft
    refine ⟨hp, h.set_le, ?_, ?_, ?_, ?_, ?_⟩
    · rw [hs1, hs3]; simp only [takeBytes]; omega
    · rw [hs3, hs4]; simp only [takeBytes]; omega
    · rw [hs4]; exact fun _ => hleft
    · rw [hs3]; simp only [takeBytes]; omega
    · rw [hs2, hs1, hbuf]; rfl
  simp only [writeRound, ← hb]
  by_cases hfull : w.chunkSetBufferRemaining - b = 0
  · have hend : w.dataOffset + b = o.chunkSetOffset (k + 1) := by omega
    obtain ⟨w', hw', hf', hb', ho', hbw, hh, hcr⟩ := writeBuffer_complete hB hrs hprog hkn
      (o.chunkDataSizeAt_pos_of_lt hk) (by simp only [takeBytes]; omega)
      (by rw [hbuf, filled, hend, if_pos (by omega)]) (.inl hend)
    obtain ⟨hc', hr'⟩ := hcr hend
    refine ⟨w', k + 1, 0, b, by omega, by omega, ?_, ?_, ho', hbw, hh⟩
    · rw [if_pos (.inl hfull), hw']; rfl
    · refine ⟨⟨hc', hr'.next_index, ?_, Nat.zero_le _, hf'⟩, hk, ?_, ?_, ?_, ?_, ?_⟩
      · rw [hr'.next_offset, Nat.zero_add, Nat.one_mul]
      · rw [ho', hr'.position]; exact hend
      · rw [hr'.position, hr'.remaining, Nat.zero_add]
      · intro hpos
        rw [hr'.remaining]
        exact Nat.mul_pos hpos o.data_pos
      · intro h0; exact absurd h0 (lt_irrefl 0)
      · rw [hb', ho', show (takeBytes w buffer b).dataOffset = _ from hend, slice_self,
          copyInto_nil]
  · by_cases hready : w.chunkSetNextSliceOffset ≤ w.chunkSetBufferPosition + b
    · have hqle : q * o.chunkDataSizeAt k ≤ w.chunkSetBufferPosition + b := by
        have := h.next_offset
        rw [Nat.add_mul] at this
        omega
      obtain ⟨w', q', hw', hp', hs', -⟩ := writeBuffer_partial hprog
        (by simp only [takeBytes]; omega) hqle (fun i hi hpos => by
          simp only [takeBytes] at hpos
          rw [hbuf]
          exact block_copied hlen hrs (by omega) (by omega) hi (by omega))
      refine ⟨w', k, q', b, by omega, by omega, ?_, hstay hp' hs' (by omega), hs'.1,
        hs'.2.2.2.2.1, hs'.2.2.2.2.2⟩
      rw [if_pos (.inr hready), hw']
      rfl
    · refine ⟨_, k, q, b, by omega, by omega, ?_,
        hstay hprog ⟨rfl, rfl, rfl, rfl, rfl, rfl⟩ (by omega), rfl, rfl, rfl⟩
      rw [if_neg]
      rintro (hz | hz)
      · exact hfull hz
      · exact hready hz

theorem writeLoop_spec (hB : Bounded o.toGeometry) (hlen : plaintext.length = o.size)
    (hrs : rs.KeepsData o.dataSliceCount o.paritySliceCount) (fuel : ℕ) {w : Writer} {k q : ℕ}
    (h : Filling md5 rs o memory plaintext w k q) {buffer : Bytes} (hfuel : buffer.length ≤ fuel)
    (hin : slice plaintext w.dataOffset (w.dataOffset + buffer.length) = buffer)
    (hfit : w.dataOffset + buffer.length ≤ o.size) :
    ∃ w' k' q', writeLoop md5 rs o fuel w buffer = some (.ok w') ∧
      Filling md5 rs o memory plaintext w' k' q' ∧
      w'.dataOffset = w.dataOffset + buffer.length ∧
      w'.bytesWritten = w.bytesWritten ∧ w'.md5Hasher = w.md5Hasher := by
  induction fuel generalizing w k q buffer with
  | zero =>
    obtain rfl := List.eq_nil_of_length_eq_zero (Nat.le_zero.mp hfuel)
    exact ⟨w, k, q, by rw [writeLoop], h, rfl, rfl, rfl⟩
  | succ fuel ih =>
    rcases buffer with _ | ⟨d, ds⟩
    · exact ⟨w, k, q, by rw [writeLoop], h, rfl, rfl, rfl⟩
    · obtain ⟨w₁, k₁, q₁, b, hb0, hble, hround, hfill, hoff, hbytes, hhash⟩ :=
        writeRound_spec hB hlen hrs h (by simp) hin hfit
      have hrest : ((d :: ds).drop b).length = (d :: ds).length - b := List.length_drop
      have hin' : slice plaintext w₁.dataOffset (w₁.dataOffset + ((d :: ds).drop b).length) =
          (d :: ds).drop b := by
        rw [hrest, hoff]
        conv_rhs => rw [← hin]
        apply List.ext_getElem?
        intro j
        rw [getElem?_slice, List.getElem?_drop, getElem?_slice]
        split_ifs <;> first | omega | rfl | (congr 1; omega)
      obtain ⟨w', k', q', hloop, hfill', hoff', hbytes', hhash'⟩ :=
        ih hfill (by omega) hin' (by omega)
      refine ⟨w', k', q', ?_, hfill', by omega, hbytes'.trans hbytes, hhash'.trans hhash⟩
      rw [writeLoop, hround]
      exact hloop

theorem finish_spec (hB : Bounded o.toGeometry) (hlen : plaintext.length = o.size)
    (hrs : rs.KeepsData o.dataSliceCount o.paritySliceCount) {w : Writer} {k q : ℕ}
    (h : Filling md5 rs o memory plaintext w k q) (hend : w.dataOffset = o.size)
    (hbytes : w.bytesWritten = o.size) (hhash : w.md5Hasher = some plaintext) :
    ∃ w', finish md5 rs o w = .ok w' ∧ w'.files = sliceFiles md5 rs o memory plaintext ∧
      w'.md5 = some (md5.digest plaintext) := by
  have hoff := h.offset
  have hremaining := h.remaining
  have hsucc := o.chunkSetOffset_succ k
  simp only [finish, hbytes, ne_eq, not_true_eq_false, ↓reduceIte]
  by_cases hpos : 0 < w.chunkSetBufferPosition
  · have hk : k < o.chunkSetCount := o.lt_chunkSetCount_iff.mpr (by omega)
    have hroom := h.room (o.chunkDataSizeAt_pos_of_lt hk)
    have hkn := o.chunkSetCount_le
    have hc := h.configured
    have hlast : k + 1 = o.chunkSetCount := by
      by_contra hne
      have := o.lt_chunkSetCount_iff.mp (show k + 1 < o.chunkSetCount by omega)
      omega
    have hprog : Progress md5 rs o memory plaintext (padChunkSet w) k q :=
      ⟨⟨hc.chunk, hc.data_size, hc.parity_offset, hc.parity_size, hc.slice_offsets, hc.group⟩,
        h.next_index, h.next_offset, h.index_le, h.files⟩
    have hmore : ¬ o.chunkSetOffset (k + 1) ≤ o.size := by omega
    have hbuf : (padChunkSet w).chunkSetBuffer =
        filled o plaintext (setBuffer rs o memory plaintext k) k := by
      rw [filled, if_neg hmore, slice_clip (by omega), hlen, ← hend, ← h.buffer]
      simp only [padChunkSet]
      congr 1
      omega
    have hgroup : (padChunkSet w).dataOffset ≠ groupEnd o.toGeometry k := by
      have := chunkSetOffset_le_groupEnd hB (k := k) (by omega)
      simp only [padChunkSet]
      omega
    obtain ⟨w', hw', hf', -, -, -, hh', -⟩ := writeBuffer_complete hB hrs hprog (by omega)
      (o.chunkDataSizeAt_pos_of_lt hk) (by simp only [padChunkSet, hc.data_size]) hbuf
      (.inr hgroup)
    have hh : w'.md5Hasher = some plaintext := hh'.trans hhash
    rw [if_pos hpos, hw']
    simp only [hh]
    exact ⟨_, rfl, by rw [sliceFiles, ← hlast]; exact hf', rfl⟩
  · have hcount : k = o.chunkSetCount := by
      by_contra hne
      have := o.lt_chunkSetCount_iff.mp (show k < o.chunkSetCount by have := h.set_le; omega)
      omega
    have hq : q = 0 := by
      by_contra hq0
      exact hpos (h.started (by omega))
    rw [if_neg hpos]
    simp only [hhash]
    exact ⟨_, rfl, by rw [sliceFiles, ← hcount, ← hq]; exact h.files, rfl⟩

private theorem mapM_eq_some {α β : Type*} {f : α → Option β} {g : α → β} {l : List α}
    (h : ∀ a ∈ l, f a = some (g a)) : l.mapM f = some (l.map g) := by
  induction l with
  | nil => rfl
  | cons a l ih =>
    rw [List.mapM_cons, h a List.mem_cons_self, ih fun b hb => h b (List.mem_cons_of_mem _ hb)]
    rfl

/-- A prepared writer has written every header and nothing else. -/
theorem prepare_spec (hcreate : rs.create o.dataSliceCount o.paritySliceCount = true)
    (henc : ∀ i, i < o.totalSliceCount → Encodable o i) (memory : ℕ → UInt8)
    (plaintext : Bytes) :
    ∃ w, prepare md5 rs o memory = .ok w ∧ Filling md5 rs o memory plaintext w 0 0 ∧
      w.dataOffset = 0 ∧ w.bytesWritten = 0 ∧ w.md5Hasher = some [] := by
  have hheaders : (List.range o.totalSliceCount).mapM (createHeader md5 o) =
      some ((List.range o.totalSliceCount).map (headerBytes md5 o)) := by
    apply mapM_eq_some
    intro i hi
    rw [createHeader, if_pos (henc i (List.mem_range.mp hi))]
  obtain ⟨hc, hr⟩ := configureStartState_spec (g := o.toGeometry)
    (configureInternals o.toGeometry memory)
  refine ⟨_, by rw [prepare, if_pos hcreate, hheaders], ?_, rfl, rfl, rfl⟩
  refine ⟨⟨hc, hr.next_index, ?_, Nat.zero_le _, ?_⟩, Nat.zero_le _, rfl, ?_, ?_, ?_, ?_⟩
  · exact hr.next_offset.trans (by rw [Nat.zero_add, Nat.one_mul])
  · funext i
    by_cases hi : i < o.totalSliceCount
    · simp [sliceContent, hi, fileContent]
    · simp [sliceContent, hi]
  · exact (congrArg₂ (· + ·) hr.position hr.remaining).trans (Nat.zero_add _)
  · intro hpos
    exact hr.remaining ▸ Nat.mul_pos hpos o.data_pos
  · intro h0; exact absurd h0 (lt_irrefl 0)
  · change _ = copyInto _ 0 (slice plaintext 0 0)
    rw [slice_self, copyInto_nil]
    rfl

/-- However the plaintext is split, the slices end up the same. -/
theorem writeAll_spec (hB : Bounded o.toGeometry) (hlen : plaintext.length = o.size)
    (hrs : rs.KeepsData o.dataSliceCount o.paritySliceCount) {fuel : ℕ} (hfuel : o.size ≤ fuel)
    {pieces : List Bytes} {taken : Bytes} (hsplit : taken ++ pieces.flatten = plaintext)
    {w : Writer} {k q : ℕ} (h : Filling md5 rs o memory plaintext w k q)
    (hoff : w.dataOffset = taken.length) (hbytes : w.bytesWritten = taken.length)
    (hhash : w.md5Hasher = some taken) :
    ∃ w', writeAll md5 rs o fuel w pieces = some (.ok w') ∧
      w'.files = sliceFiles md5 rs o memory plaintext ∧
      w'.md5 = some (md5.digest plaintext) := by
  induction pieces generalizing taken w k q with
  | nil =>
    rw [List.flatten_nil, List.append_nil] at hsplit
    subst hsplit
    obtain ⟨w', hw', hfiles, hmd5⟩ := finish_spec hB hlen hrs h (hoff.trans hlen)
      (hbytes.trans hlen) hhash
    exact ⟨w', by rw [writeAll, hw'], hfiles, hmd5⟩
  | cons piece pieces ih =>
    have hsum := congrArg List.length hsplit
    simp only [List.flatten_cons, List.length_append] at hsum
    have hin : slice plaintext w.dataOffset (w.dataOffset + piece.length) = piece := by
      rw [hoff, ← hsplit, slice_append_right le_rfl, Nat.sub_self, Nat.add_sub_cancel_left,
        List.flatten_cons, slice_append_left le_rfl, slice_zero_length]
    obtain ⟨w₁, k₁, q₁, hloop, hfill, hoff₁, hbytes₁, hhash₁⟩ :=
      @writeLoop_spec _ _ _ _ _ hB hlen hrs fuel
      { w with
        bytesWritten := w.bytesWritten + piece.length, md5Hasher := some (taken ++ piece) }
      k q ⟨⟨h.configured, h.next_index, h.next_offset, h.index_le, h.files⟩,
        h.set_le, h.offset, h.remaining, h.room, h.started, h.buffer⟩
      piece (by omega) hin (by rw [hoff]; omega)
    obtain ⟨w', hw', hfiles, hmd5⟩ := @ih (taken ++ piece)
      (by rw [← hsplit, List.flatten_cons, List.append_assoc]) _ _ _ hfill
      (by rw [hoff₁, List.length_append, ← hoff]) (by rw [hbytes₁, List.length_append, ← hbytes])
      hhash₁
    refine ⟨w', ?_, hfiles, hmd5⟩
    simp only [writeAll, write, hhash, hloop]
    exact hw'

/-! What the chunks of a written object say about its plaintext. -/

/-- The plaintext of chunk set `k`, padded with zeros to the whole data region. -/
def dataRegion (o : FileObject) (plaintext : Bytes) (k : ℕ) : Bytes :=
  let piece := slice plaintext (o.chunkSetOffset k) (o.chunkSetOffset (k + 1))
  piece ++ List.replicate (o.chunkDataSizeAt k * o.dataSliceCount - piece.length) 0

theorem length_dataRegion (o : FileObject) (plaintext : Bytes) (k : ℕ) :
    (dataRegion o plaintext k).length = o.dataSliceCount * o.chunkDataSizeAt k := by
  have := o.chunkSetOffset_succ k
  rw [dataRegion, List.length_append, List.length_replicate, length_slice,
    Nat.mul_comm o.dataSliceCount]
  omega

theorem slice_filled (hlen : plaintext.length = o.size) {b : Bytes} {k : ℕ}
    (hb : o.chunkDataSizeAt k * o.dataSliceCount ≤ b.length) :
    slice (filled o plaintext b k) 0 (o.dataSliceCount * o.chunkDataSizeAt k) =
      dataRegion o plaintext k := by
  have hsucc := o.chunkSetOffset_succ k
  apply List.ext_getElem?
  intro j
  rw [getElem?_slice, Nat.mul_comm, Nat.zero_add]
  split_ifs with hj
  · rw [getElem?_filled hlen hb (by omega), dataRegion, List.getElem?_append, length_slice,
      getElem?_slice, List.getElem?_replicate]
    split_ifs <;> first | omega | rfl
  · refine (List.getElem?_eq_none ?_).symm
    rw [length_dataRegion, Nat.mul_comm]
    omega

theorem chunkAt_eq_block (hlen : plaintext.length = o.size)
    (hrs : rs.KeepsData o.dataSliceCount o.paritySliceCount) {k i : ℕ}
    (hi : i < o.dataSliceCount) :
    chunkAt rs o memory plaintext k i =
      block (dataRegion o plaintext k) (o.chunkDataSizeAt k) i := by
  rw [chunkAt_data hrs k hi, ← block_clip _ hi, slice_filled hlen (data_size_fits hrs k)]

/-- The chunks of one set are the shards of its data region. -/
theorem chunkAt_eq_shard (hlen : plaintext.length = o.size)
    (hrs : rs.Recovers o.dataSliceCount o.paritySliceCount) {k i : ℕ}
    (hi : i < o.totalSliceCount) :
    chunkAt rs o memory plaintext k i = rs.shard o.dataSliceCount o.paritySliceCount
      (o.chunkDataSizeAt k) (dataRegion o plaintext k) i := by
  rw [chunkAt, setBuffer]
  apply hrs.run_parity (o.chunkDataSizeAt_spec k).1 _
    (slice_filled hlen (data_size_fits hrs.keepsData k)).symm hi
  rw [length_filled, length_setBuffer hrs.keepsData]
  exact blocks_fit k

/-- The plaintext inside chunk set `k` is at the front of its data region. -/
theorem slice_dataRegion (hlen : plaintext.length = o.size) {k lo hi : ℕ}
    (hlo : o.chunkSetOffset k ≤ lo) (hhi : hi ≤ o.chunkSetOffset (k + 1)) (hS : hi ≤ o.size) :
    slice (dataRegion o plaintext k) (lo - o.chunkSetOffset k) (hi - o.chunkSetOffset k) =
      slice plaintext lo hi := by
  have hsucc := o.chunkSetOffset_succ k
  rcases Nat.lt_or_ge lo hi with hlt | hge
  · rw [dataRegion, slice_append_left (by rw [length_slice]; omega),
      slice_slice _ _ _ _ _ (by omega)]
    congr 1 <;> omega
  · rw [slice_eq_nil_of_le (by omega), slice_eq_nil_of_le hge]

/-! A finished writer had the right plaintext. -/

theorem writeReadySlices_bytes (rounds : ℕ) (w : Writer) :
    (writeReadySlices md5 o rounds w).bytesWritten = w.bytesWritten := by
  induction rounds generalizing w with
  | zero => rfl
  | succ rounds ih =>
    rw [writeReadySlices]
    split_ifs
    · exact ih _
    · rfl

theorem writeParitySlices_bytes (w : Writer) :
    (writeParitySlices md5 o w).bytesWritten = w.bytesWritten := by
  have hfold : ∀ (l : List ℕ) (w : Writer), (l.foldl (fun w sliceIndex =>
      queueSliceWrite md5 w sliceIndex (slice w.chunkSetBuffer
        (w.chunkSetSliceOffsets[sliceIndex]?.getD 0)
        (w.chunkSetSliceOffsets[sliceIndex]?.getD 0 + w.chunkDataSize))) w).bytesWritten =
      w.bytesWritten := by
    intro l
    induction l with
    | nil => exact fun _ => rfl
    | cons i l ih => exact fun w => ih _
  exact hfold _ _

theorem computeAndWriteParity_bytes {w w' : Writer}
    (h : computeAndWriteParity md5 rs o w = .ok w') : w'.bytesWritten = w.bytesWritten := by
  rw [computeAndWriteParity] at h
  rcases hb : computeParity o.toGeometry rs (rsSourcesBits o) (rsTargetsBits o) w.toBase with e | b
  · rw [hb] at h
    cases h
  · rw [hb] at h
    cases h
    exact writeParitySlices_bytes _

theorem writeBuffer_bytes {w w' : Writer} (h : writeBuffer md5 rs o w = .ok w') :
    w'.bytesWritten = w.bytesWritten := by
  have hready := @writeReadySlices_bytes md5 o
    (o.dataSliceCount + 1 - w.chunkSetNextSliceIndex) w
  unfold writeBuffer at h
  simp only at h
  split_ifs at h
  · rcases hparity : computeAndWriteParity md5 rs o _ with e | sent
    · rw [hparity] at h
      cases h
    · have hsent := (computeAndWriteParity_bytes hparity).trans hready
      rw [hparity] at h
      simp only at h
      split_ifs at h
      · rcases hg : configureNextChunkGroup o.toGeometry _ with e | b
        · rw [hg] at h; cases h
        · rw [hg] at h
          cases h
          exact hsent
      · cases h
        exact hsent
  · cases h
    exact hready

theorem writeLoop_bytes {fuel : ℕ} {w w' : Writer} {buffer : Bytes}
    (h : writeLoop md5 rs o fuel w buffer = some (.ok w')) :
    w'.bytesWritten = w.bytesWritten := by
  induction fuel generalizing w buffer with
  | zero =>
    rcases buffer with _ | ⟨d, ds⟩
    · rw [writeLoop] at h; cases h; rfl
    · cases h
  | succ fuel ih =>
    rcases buffer with _ | ⟨d, ds⟩
    · rw [writeLoop] at h; cases h; rfl
    · rw [writeLoop] at h
      rcases hround : writeRound md5 rs o w (d :: ds) with e | ⟨w₁, rest⟩
      · rw [hround] at h; cases h
      · rw [hround] at h
        refine (ih h).trans ?_
        unfold writeRound at hround
        simp only at hround
        split_ifs at hround
        · rcases hwrite : writeBuffer md5 rs o _ with e | w₂
          · rw [hwrite] at hround; cases hround
          · rw [hwrite] at hround
            cases hround
            have hbytes := writeBuffer_bytes hwrite
            exact hbytes
        · cases hround
          rfl

/-- `finish` accepts a plaintext of the announced size only. -/
theorem writeAll_size {fuel : ℕ} {pieces : List Bytes} {w w' : Writer}
    (h : writeAll md5 rs o fuel w pieces = some (.ok w')) :
    w.bytesWritten + pieces.flatten.length = o.size := by
  induction pieces generalizing w with
  | nil =>
    rw [writeAll] at h
    have hfinish := Option.some.inj h
    unfold finish at hfinish
    by_cases hsize : w.bytesWritten = o.size
    · simpa using hsize
    · rw [if_pos hsize] at hfinish
      cases hfinish
  | cons piece rest ih =>
    rw [writeAll] at h
    unfold write at h
    rcases hhash : w.md5Hasher with _ | hashed
    · rw [hhash] at h; cases h
    · rw [hhash] at h
      simp only at h
      rcases hloop : writeLoop md5 rs o fuel _ piece with _ | (e | w₁)
      · rw [hloop] at h; cases h
      · rw [hloop] at h; cases h
      · rw [hloop] at h
        have hbytes := writeLoop_bytes hloop
        have hrest := ih h
        simp only [List.flatten_cons, List.length_append] at hbytes hrest ⊢
        omega

/-- More fuel does not change where a loop ends. -/
theorem writeLoop_fuel {fuel : ℕ} {w : Writer} {buffer : Bytes}
    {result : Except ObjectError Writer} (h : writeLoop md5 rs o fuel w buffer = some result)
    {more : ℕ} (hmore : fuel ≤ more) : writeLoop md5 rs o more w buffer = some result := by
  induction fuel generalizing w buffer more with
  | zero =>
    rcases buffer with _ | ⟨d, ds⟩
    · rw [writeLoop] at h ⊢; exact h
    · cases h
  | succ fuel ih =>
    rcases buffer with _ | ⟨d, ds⟩
    · rw [writeLoop] at h ⊢; exact h
    · obtain ⟨more, rfl⟩ : ∃ n, more = n + 1 := ⟨more - 1, by omega⟩
      rw [writeLoop] at h ⊢
      rcases hround : writeRound md5 rs o w (d :: ds) with e | ⟨w₁, rest⟩
      · rw [hround] at h; exact h
      · rw [hround] at h
        exact ih h (by omega)

theorem writeAll_fuel {fuel : ℕ} {pieces : List Bytes} {w : Writer}
    {result : Except ObjectError Writer} (h : writeAll md5 rs o fuel w pieces = some result)
    {more : ℕ} (hmore : fuel ≤ more) : writeAll md5 rs o more w pieces = some result := by
  induction pieces generalizing w with
  | nil => exact h
  | cons piece rest ih =>
    rw [writeAll] at h ⊢
    unfold write at h ⊢
    rcases hhash : w.md5Hasher with _ | hashed
    · rw [hhash] at h; exact h
    · rw [hhash] at h
      simp only at h ⊢
      rcases hloop : writeLoop md5 rs o fuel _ piece with _ | (e | w₁)
      · rw [hloop] at h; cases h
      · rw [hloop] at h
        rw [writeLoop_fuel hloop hmore]
        exact h
      · rw [hloop] at h
        rw [writeLoop_fuel hloop hmore]
        exact ih h

theorem prepare_ok {memory : ℕ → UInt8} {w : Writer} (h : prepare md5 rs o memory = .ok w) :
    rs.create o.dataSliceCount o.paritySliceCount = true ∧
    ∀ i, i < o.totalSliceCount → Encodable o i := by
  have hsome : ∀ {l : List ℕ} {headers : List Bytes},
      l.mapM (createHeader md5 o) = some headers → ∀ i ∈ l, Encodable o i := by
    intro l
    induction l with
    | nil => simp
    | cons j l ih =>
      intro headers hm i hi
      rw [List.mapM_cons] at hm
      rcases hj : createHeader md5 o j with _ | header
      · rw [hj] at hm; cases hm
      · rcases hl : l.mapM (createHeader md5 o) with _ | rest
        · rw [hj, hl] at hm; cases hm
        · rcases List.mem_cons.mp hi with rfl | hi
          · unfold createHeader at hj
            split_ifs at hj with henc
            exact henc
          · exact ih hl i hi
  unfold prepare at h
  split_ifs at h with hcreate
  rcases hm : (List.range o.totalSliceCount).mapM (createHeader md5 o) with _ | headers
  · rw [hm] at h; cases h
  · exact ⟨hcreate, fun i hi => hsome hm i (List.mem_range.mpr hi)⟩

/-- The slice files that some run of the writer leaves for the plaintext. -/
def Written (md5 : Md5) (rs : Codec) (o : FileObject) (plaintext : Bytes) (files : ℕ → Bytes) :
    Prop :=
  ∃ memory fuel pieces w w', prepare md5 rs o memory = .ok w ∧ pieces.flatten = plaintext ∧
    writeAll md5 rs o fuel w pieces = some (.ok w') ∧ w'.files = files

theorem Written.spec {files : ℕ → Bytes}
    (hrs : rs.create o.dataSliceCount o.paritySliceCount = true →
      rs.KeepsData o.dataSliceCount o.paritySliceCount)
    (h : Written md5 rs o plaintext files) :
    rs.create o.dataSliceCount o.paritySliceCount = true ∧
    (∀ i, i < o.totalSliceCount → Encodable o i) ∧ plaintext.length = o.size ∧
    ∃ memory, files = sliceFiles md5 rs o memory plaintext := by
  obtain ⟨memory, fuel, pieces, w, w', hprep, rfl, hwrite, rfl⟩ := h
  obtain ⟨hcreate, henc⟩ := prepare_ok hprep
  obtain ⟨w₀, hprep₀, hfill, hoff, hbytes, hhash⟩ := prepare_spec hcreate henc memory
    pieces.flatten
  obtain rfl : w₀ = w := Except.ok.inj (hprep₀.symm.trans hprep)
  have hlen : pieces.flatten.length = o.size := by
    have := writeAll_size hwrite
    omega
  have hB : Bounded o.toGeometry := bounded_of_encodable
    (henc 0 (Nat.add_pos_left o.data_pos _))
  obtain ⟨w₁, hw₁, hfiles, -⟩ := @writeAll_spec _ _ _ _ _ hB hlen (hrs hcreate) _
    (le_max_right fuel o.size) pieces [] rfl _ _ _ hfill hoff hbytes hhash
  have hsame := hw₁.symm.trans (writeAll_fuel hwrite (le_max_left fuel o.size))
  obtain rfl : w₁ = w' := Except.ok.inj (Option.some.inj hsame)
  exact ⟨hcreate, henc, hlen, memory, hfiles⟩

end FileObjectWriter
