import Strubs.ErasureCode
import Strubs.SliceFile

/-! # The chunk-set cursor shared by reader and writer

Both walk an object chunk set by chunk set and take the size of the next one from the
group they are in: start, middle or end. The cursor moves between groups by comparing
offsets, and `Configured` says which chunk set it stands on. -/
namespace FileObjectBase

open ByteBuffer ErasureCode ChunkPlan MessageDigest SliceFile

structure QuorumDetails where
  requiredSlices : ℕ
  availableSlices : ℕ
  totalSlices : ℕ
  chunkIndex : ℕ
  availableSliceIndexes : List ℕ
  missingSliceIndexes : List ℕ
  failedSliceIndexes : List ℕ
  deriving DecidableEq, Repr

inductive ObjectError where
  | contextRejected
  | headerRange
  | invalidDataOffset
  | sizeMismatch (expected received : ℕ)
  | quorum (details : QuorumDetails)
  | ioAbort
  | misaligned
  | hashFinished
  | encodeRefused
  deriving DecidableEq, Repr

structure Base where
  dataOffset : ℕ
  chunkSetBuffer : Bytes
  chunkSetBufferPosition : ℕ
  chunkSetBufferRemaining : ℕ
  nextChunkGroupOffset : ℕ
  chunkDataSize : ℕ
  chunkSetDataSize : ℕ
  chunkSetParityOffset : ℕ
  chunkSetParitySize : ℕ
  chunkSetSliceOffsets : List ℕ
  chunkSetNextSliceIndex : ℕ
  chunkSetNextSliceOffset : ℕ

variable (g : Geometry)

/-- `Buffer.allocUnsafe` leaves whatever the memory held. -/
def allocUnsafe (memory : ℕ → UInt8) (size : ℕ) : Bytes := (List.range size).map memory

def maxBufferSize : ℕ := g.plan.standardChunkDataSize * g.totalSliceCount

def configureInternals (memory : ℕ → UInt8) : Base where
  dataOffset := 0
  chunkSetBuffer := allocUnsafe memory (maxBufferSize g)
  chunkSetBufferPosition := 0
  chunkSetBufferRemaining := 0
  nextChunkGroupOffset := 0
  chunkDataSize := 0
  chunkSetDataSize := 0
  chunkSetParityOffset := 0
  chunkSetParitySize := 0
  chunkSetSliceOffsets := []
  chunkSetNextSliceIndex := 0
  chunkSetNextSliceOffset := 0

def resetBufferPositions (b : Base) : Base :=
  { b with
    chunkSetNextSliceIndex := 1
    chunkSetNextSliceOffset := b.chunkSetSliceOffsets[1]?.getD 0
    chunkSetBufferPosition := 0
    chunkSetBufferRemaining := b.chunkSetDataSize }

def configureCommonState (b : Base) : Base :=
  resetBufferPositions { b with
    chunkSetDataSize := b.chunkDataSize * g.dataSliceCount
    chunkSetParityOffset := b.chunkDataSize * g.dataSliceCount
    chunkSetParitySize := b.chunkDataSize * g.paritySliceCount
    chunkSetSliceOffsets := (List.range g.totalSliceCount).map (· * b.chunkDataSize) }

def configureStartState (b : Base) : Base :=
  configureCommonState g { b with
    chunkDataSize := g.plan.startChunkDataSize
    nextChunkGroupOffset := g.plan.standardChunkSetOffset }

def configureMiddleState (b : Base) : Base :=
  configureCommonState g { b with
    chunkDataSize := g.plan.standardChunkDataSize
    nextChunkGroupOffset := g.plan.endChunkSetDataOffset }

def configureEndState (b : Base) : Base :=
  configureCommonState g { b with
    chunkDataSize := g.plan.endChunkDataSize
    nextChunkGroupOffset := maxSafeInteger }

def configureNextChunkGroup (b : Base) : Except ObjectError Base :=
  if b.dataOffset = g.plan.endChunkSetDataOffset then .ok (configureEndState g b)
  else if b.dataOffset = g.plan.standardChunkSetOffset then .ok (configureMiddleState g b)
  else .error .invalidDataOffset

def computeParity (rs : Codec) (sourcesBits targetsBits : BitVec 32) (b : Base) :
    Except ObjectError Base :=
  match rs.encode g.dataSliceCount g.paritySliceCount sourcesBits targetsBits
      b.chunkSetBuffer 0 b.chunkSetDataSize b.chunkSetParityOffset b.chunkSetParitySize with
  | some buffer => .ok { b with chunkSetBuffer := buffer }
  | none => .error .encodeRefused

/-- Where the group of the `k`-th chunk set ends. -/
def groupEnd (k : ℕ) : ℕ :=
  if k = 0 then g.plan.standardChunkSetOffset
  else if k ≤ g.plan.standardChunkCountPerSlice then g.plan.endChunkSetDataOffset
  else maxSafeInteger

structure Configured (b : Base) (k : ℕ) : Prop where
  chunk : b.chunkDataSize = g.chunkDataSizeAt k
  data_size : b.chunkSetDataSize = g.chunkDataSizeAt k * g.dataSliceCount
  parity_offset : b.chunkSetParityOffset = g.chunkDataSizeAt k * g.dataSliceCount
  parity_size : b.chunkSetParitySize = g.chunkDataSizeAt k * g.paritySliceCount
  slice_offsets : b.chunkSetSliceOffsets =
    (List.range g.totalSliceCount).map (· * g.chunkDataSizeAt k)
  group : b.nextChunkGroupOffset = groupEnd g k

structure Rewound (b : Base) (k : ℕ) : Prop where
  next_index : b.chunkSetNextSliceIndex = 1
  next_offset : b.chunkSetNextSliceOffset = g.chunkDataSizeAt k
  position : b.chunkSetBufferPosition = 0
  remaining : b.chunkSetBufferRemaining = g.chunkDataSizeAt k * g.dataSliceCount

/-- An object too small to reach the offset that stands for the end of the last group. -/
def Bounded : Prop := g.size + 8 * g.dataSliceCount < maxSafeInteger

@[simp] theorem length_allocUnsafe (memory : ℕ → UInt8) (size : ℕ) :
    (allocUnsafe memory size).length = size := by
  simp [allocUnsafe]

theorem bounded_of_encodable {o : FileObject} {i : ℕ} (h : Encodable o i) :
    Bounded o.toGeometry := by
  obtain ⟨hS, hD, -⟩ := h
  unfold Bounded maxSafeInteger
  omega

variable {g}

/-- The blocks of every chunk set fit the buffer. -/
theorem blocks_fit (k : ℕ) : g.totalSliceCount * g.chunkDataSizeAt k ≤ maxBufferSize g := by
  rw [maxBufferSize, Nat.mul_comm]
  exact Nat.mul_le_mul_right _ (g.chunkDataSizeAt_spec k).2

theorem data_fits (k : ℕ) : g.dataSliceCount * g.chunkDataSizeAt k ≤ maxBufferSize g :=
  (Nat.mul_le_mul_right _ (Nat.le_add_right _ _)).trans (blocks_fit k)

theorem resetBufferPositions_spec {b : Base} {k : ℕ} (h : Configured g b k) :
    Configured g (resetBufferPositions b) k ∧ Rewound g (resetBufferPositions b) k ∧
    (resetBufferPositions b).dataOffset = b.dataOffset ∧
    (resetBufferPositions b).chunkSetBuffer = b.chunkSetBuffer := by
  have htwo : 1 < g.totalSliceCount := by
    have := g.data_pos
    have := g.parity_pos
    unfold Geometry.totalSliceCount
    omega
  refine ⟨⟨h.chunk, h.data_size, h.parity_offset, h.parity_size, h.slice_offsets, h.group⟩,
    ⟨rfl, ?_, rfl, h.data_size⟩, rfl, rfl⟩
  simp only [resetBufferPositions, h.slice_offsets, List.getElem?_map,
    List.getElem?_range htwo, Option.map_some, Nat.one_mul, Option.getD_some]

private theorem configureCommonState_spec {b : Base} {k : ℕ}
    (hc : b.chunkDataSize = g.chunkDataSizeAt k) (hg : b.nextChunkGroupOffset = groupEnd g k) :
    Configured g (configureCommonState g b) k ∧ Rewound g (configureCommonState g b) k := by
  have h := resetBufferPositions_spec (g := g) (k := k) (b := { b with
    chunkSetDataSize := b.chunkDataSize * g.dataSliceCount
    chunkSetParityOffset := b.chunkDataSize * g.dataSliceCount
    chunkSetParitySize := b.chunkDataSize * g.paritySliceCount
    chunkSetSliceOffsets := (List.range g.totalSliceCount).map (· * b.chunkDataSize) })
    ⟨hc, by rw [hc], by rw [hc], by rw [hc], by rw [hc], hg⟩
  exact ⟨h.1, h.2.1⟩

theorem configureStartState_spec (b : Base) :
    Configured g (configureStartState g b) 0 ∧ Rewound g (configureStartState g b) 0 :=
  configureCommonState_spec rfl rfl

theorem configureMiddleState_spec (b : Base) {k : ℕ} (h0 : 0 < k)
    (h : k ≤ g.plan.standardChunkCountPerSlice) :
    Configured g (configureMiddleState g b) k ∧ Rewound g (configureMiddleState g b) k := by
  apply configureCommonState_spec
  · simp only [Geometry.chunkDataSizeAt, if_neg (Nat.pos_iff_ne_zero.mp h0), if_pos h]
  · simp only [groupEnd, if_neg (Nat.pos_iff_ne_zero.mp h0), if_pos h]

theorem configureEndState_spec (b : Base) {k : ℕ}
    (h : g.plan.standardChunkCountPerSlice < k) :
    Configured g (configureEndState g b) k ∧ Rewound g (configureEndState g b) k := by
  have h0 : k ≠ 0 := by omega
  apply configureCommonState_spec
  · simp only [Geometry.chunkDataSizeAt, if_neg h0, if_neg (Nat.not_le.mpr h)]
  · simp only [groupEnd, if_neg h0, if_neg (Nat.not_le.mpr h)]

/-- Full chunk sets end at different offsets. -/
theorem chunkSetOffset_lt {j k : ℕ} (hjk : j < k)
    (hj : j ≤ g.plan.standardChunkCountPerSlice) : g.chunkSetOffset j < g.chunkSetOffset k := by
  have hpos := Nat.mul_pos (g.chunkDataSizeAt_pos hj) g.data_pos
  have := g.chunkSetOffset_succ j
  have := g.chunkSetOffset_mono (show j + 1 ≤ k from hjk)
  omega

/-- The end of chunk set `k` is the end of its group exactly when the next chunk set has
another size or another group. -/
theorem groupEnd_iff (hB : Bounded g) {k : ℕ} (hk : k ≤ g.plan.standardChunkCountPerSlice + 1) :
    g.chunkSetOffset (k + 1) = groupEnd g k ↔
      k = 0 ∨ k = g.plan.standardChunkCountPerSlice := by
  have hle := g.chunkSetOffset_le (k + 1) (by omega)
  unfold Bounded at hB
  unfold groupEnd
  split_ifs with h0 hn
  · subst h0
    simp [Geometry.chunkSetOffset, Geometry.chunkDataSizeAt, Geometry.plan_setOffset]
  · rw [← g.chunkSetOffset_end]
    constructor
    · intro h
      by_contra hne
      have := chunkSetOffset_lt (g := g) (show k + 1 <
        g.plan.standardChunkCountPerSlice + 1 by omega) (by omega)
      omega
    · rintro (h | h)
      · omega
      · rw [h]
  · constructor
    · intro h; omega
    · rintro (h | h) <;> omega

/-- A chunk set does not reach beyond its group. -/
theorem chunkSetOffset_le_groupEnd (hB : Bounded g) {k : ℕ}
    (hk : k ≤ g.plan.standardChunkCountPerSlice + 1) :
    g.chunkSetOffset (k + 1) ≤ groupEnd g k := by
  have hle := g.chunkSetOffset_le (k + 1) (by omega)
  unfold Bounded at hB
  unfold groupEnd
  split_ifs with h0 hn
  · subst h0
    simpa using (g.chunkSetOffset_standard (Nat.zero_le _)).le
  · rw [← g.chunkSetOffset_end]
    exact g.chunkSetOffset_mono (by omega)
  · omega

/-- At the end of a group the cursor moves to the group of the next chunk set. -/
theorem configureNextChunkGroup_spec (hB : Bounded g) {b : Base} {k : ℕ}
    (hk : k ≤ g.plan.standardChunkCountPerSlice + 1)
    (hoff : b.dataOffset = g.chunkSetOffset (k + 1)) (hend : b.dataOffset = groupEnd g k) :
    ∃ b', configureNextChunkGroup g b = .ok b' ∧ Configured g b' (k + 1) ∧
      Rewound g b' (k + 1) ∧ b'.dataOffset = b.dataOffset ∧
      b'.chunkSetBuffer = b.chunkSetBuffer := by
  have hcase := (groupEnd_iff hB hk).mp (hoff ▸ hend)
  have hfirst : g.chunkSetOffset 1 = g.plan.standardChunkSetOffset := by
    simpa using g.chunkSetOffset_standard (Nat.zero_le _)
  unfold configureNextChunkGroup
  by_cases hkn : k = g.plan.standardChunkCountPerSlice
  · rw [if_pos (by rw [hoff, hkn, g.chunkSetOffset_end])]
    obtain ⟨h1, h2⟩ := configureEndState_spec (g := g) b (k := k + 1) (by omega)
    exact ⟨_, rfl, h1, h2, rfl, rfl⟩
  · obtain rfl : k = 0 := hcase.resolve_right hkn
    have hlt := chunkSetOffset_lt (g := g) (show 1 < g.plan.standardChunkCountPerSlice + 1 by
      omega) (by omega)
    rw [g.chunkSetOffset_end] at hlt
    rw [if_neg (by rw [hoff, Nat.zero_add]; omega), if_pos (by rw [hoff, Nat.zero_add, hfirst])]
    obtain ⟨h1, h2⟩ := configureMiddleState_spec (g := g) b (k := 0 + 1) (by omega) (by omega)
    exact ⟨_, rfl, h1, h2, rfl, rfl⟩

/-- Inside a group the sizes stay as they are. -/
theorem Configured.next (hB : Bounded g) {b : Base} {k : ℕ} (h : Configured g b k)
    (hk : k ≤ g.plan.standardChunkCountPerSlice + 1)
    (hne : g.chunkSetOffset (k + 1) ≠ groupEnd g k) : Configured g b (k + 1) := by
  have hcase := fun hor => hne ((groupEnd_iff hB hk).mpr hor)
  have h0 : k ≠ 0 := fun h => hcase (.inl h)
  have hn : k ≠ g.plan.standardChunkCountPerSlice := fun h => hcase (.inr h)
  have hle : k + 1 ≤ g.plan.standardChunkCountPerSlice ↔
      k ≤ g.plan.standardChunkCountPerSlice := by omega
  have hsize : g.chunkDataSizeAt (k + 1) = g.chunkDataSizeAt k := by
    simp only [Geometry.chunkDataSizeAt, if_neg h0, Nat.succ_ne_zero, ↓reduceIte, hle]
  have hgroup : groupEnd g (k + 1) = groupEnd g k := by
    simp only [groupEnd, if_neg h0, Nat.succ_ne_zero, ↓reduceIte, hle]
  refine ⟨?_, ?_, ?_, ?_, ?_, ?_⟩
  · rw [hsize]; exact h.chunk
  · rw [hsize]; exact h.data_size
  · rw [hsize]; exact h.parity_offset
  · rw [hsize]; exact h.parity_size
  · rw [hsize]; exact h.slice_offsets
  · rw [hgroup]; exact h.group

theorem computeParity_eq {b : Base} {k : ℕ} (h : Configured g b k) (rs : Codec)
    (sources targets : BitVec 32) : computeParity g rs sources targets b =
      match rs.call g.dataSliceCount g.paritySliceCount (g.chunkDataSizeAt k) sources targets
        b.chunkSetBuffer with
      | some buffer => .ok { b with chunkSetBuffer := buffer }
      | none => .error .encodeRefused := by
  simp only [computeParity, h.data_size, h.parity_offset, h.parity_size, Codec.call]

theorem computeParity_taken {b : Base} {k : ℕ} (h : Configured g b k) {rs : Codec}
    {sources targets : BitVec 32}
    (htaken : (rs.call g.dataSliceCount g.paritySliceCount (g.chunkDataSizeAt k) sources targets
      b.chunkSetBuffer).isSome) :
    computeParity g rs sources targets b = .ok { b with
      chunkSetBuffer := rs.run g.dataSliceCount g.paritySliceCount (g.chunkDataSizeAt k) sources
        targets b.chunkSetBuffer } := by
  obtain ⟨buffer, hbuffer⟩ := Option.isSome_iff_exists.mp htaken
  rw [computeParity_eq h, Codec.run, hbuffer]
  rfl

theorem computeParity_refused {b : Base} {k : ℕ} (h : Configured g b k) {rs : Codec}
    {sources targets : BitVec 32}
    (hrefused : ¬(rs.call g.dataSliceCount g.paritySliceCount (g.chunkDataSizeAt k) sources targets
      b.chunkSetBuffer).isSome) :
    computeParity g rs sources targets b = .error .encodeRefused := by
  rw [computeParity_eq h, Option.not_isSome_iff_eq_none.mp hrefused]

/-- A call that does not throw has changed the buffer, as the codec does. -/
theorem computeParity_ok {b b' : Base} {k : ℕ} (h : Configured g b k) {rs : Codec}
    {sources targets : BitVec 32} (hok : computeParity g rs sources targets b = .ok b') :
    b' = { b with
      chunkSetBuffer := rs.run g.dataSliceCount g.paritySliceCount (g.chunkDataSizeAt k) sources
        targets b.chunkSetBuffer } := by
  by_cases htaken : (rs.call g.dataSliceCount g.paritySliceCount (g.chunkDataSizeAt k) sources
      targets b.chunkSetBuffer).isSome
  · rw [computeParity_taken h htaken] at hok
    exact (Except.ok.inj hok).symm
  · rw [computeParity_refused h htaken] at hok
    cases hok

theorem Configured.withBuffer {b : Base} {k : ℕ} (h : Configured g b k) (buffer : Bytes) :
    Configured g { b with chunkSetBuffer := buffer } k :=
  ⟨h.chunk, h.data_size, h.parity_offset, h.parity_size, h.slice_offsets, h.group⟩

end FileObjectBase
