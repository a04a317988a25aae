import Strubs.ObjectRoundTrip

/-! # More or less than the announced size

The cursor of a writer does not stop at the end of the object. Behind the full chunk sets there
is one end chunk set after the other, and where these have no bytes it is the codec that ends the
loop: it throws on shards of no bytes. A round either takes some bytes or throws. -/
namespace WriterTotals

open ByteBuffer ErasureCode ChunkPlan MessageDigest SliceFile FileObjectBase FileObjectWriter
  ObjectRoundTrip

/-! ## Behind the full chunk sets -/

section Sets

variable {g : Geometry} {b : Base} {k : ℕ}

theorem chunkDataSizeAt_behind (hk : g.plan.standardChunkCountPerSlice < k) :
    g.chunkDataSizeAt k = g.plan.endChunkDataSize := by
  rw [Geometry.chunkDataSizeAt, if_neg (by omega), if_neg (by omega)]

theorem endOffset_lt (hB : Bounded g) : g.plan.endChunkSetDataOffset < maxSafeInteger := by
  have hle := g.chunkSetOffset_le (g.plan.standardChunkCountPerSlice + 1) (by omega)
  rw [g.chunkSetOffset_end] at hle
  exact hle.trans_lt hB

/-- At the end of a chunk set the cursor comes to the next one, unless it has come to the offset
that stands for no end. -/
theorem next_set (hB : Bounded g) (h : Configured g b k)
    (hoff : b.dataOffset = g.chunkSetOffset (k + 1)) :
    (b.dataOffset ≠ b.nextChunkGroupOffset ∧ Configured g b (k + 1)) ∨
    (b.dataOffset = b.nextChunkGroupOffset ∧ ∃ b', configureNextChunkGroup g b = .ok b' ∧
      Configured g b' (k + 1) ∧ Rewound g b' (k + 1) ∧ b'.dataOffset = b.dataOffset ∧
      b'.chunkSetBuffer = b.chunkSetBuffer) ∨
    (b.dataOffset = b.nextChunkGroupOffset ∧
      configureNextChunkGroup g b = .error .invalidDataOffset) := by
  rcases Nat.lt_or_ge (g.plan.standardChunkCountPerSlice + 1) k with hk | hk
  · have hgroup : groupEnd g k = maxSafeInteger := by
      rw [groupEnd, if_neg (by omega), if_neg (by omega)]
    by_cases hend : b.dataOffset = b.nextChunkGroupOffset
    · right; right
      have hmax : b.dataOffset = maxSafeInteger := by rw [hend, h.group, hgroup]
      have hlt := endOffset_lt hB
      have hstandard := g.plan_endOffset
      refine ⟨hend, ?_⟩
      rw [configureNextChunkGroup, if_neg (by omega), if_neg (by omega)]
    · left
      refine ⟨hend, ?_⟩
      have hsize : g.chunkDataSizeAt (k + 1) = g.chunkDataSizeAt k := by
        rw [chunkDataSizeAt_behind (by omega), chunkDataSizeAt_behind (by omega)]
      have hgroup' : groupEnd g (k + 1) = groupEnd g k := by
        rw [hgroup, groupEnd, if_neg (by omega), if_neg (by omega)]
      exact ⟨by rw [hsize]; exact h.chunk, by rw [hsize]; exact h.data_size,
        by rw [hsize]; exact h.parity_offset, by rw [hsize]; exact h.parity_size,
        by rw [hsize]; exact h.slice_offsets, by rw [hgroup']; exact h.group⟩
  · by_cases hend : b.dataOffset = b.nextChunkGroupOffset
    · right; left
      obtain ⟨b', hb', hspec⟩ := configureNextChunkGroup_spec hB hk hoff (hend.trans h.group)
      exact ⟨hend, b', hb', hspec⟩
    · left
      refine ⟨hend, h.next hB hk ?_⟩
      rwa [← hoff, ← h.group]

end Sets

/-! ## One round -/

section Rounds

variable {md5 : Md5} {rs : Codec} {o : FileObject} {w : Writer} {k q : ℕ}

/-- Which chunks of which chunk set have been sent to the slices. -/
structure Stands (o : FileObject) (w : Writer) (k q : ℕ) : Prop where
  configured : Configured o.toGeometry w.toBase k
  next_index : w.chunkSetNextSliceIndex = q + 1
  next_offset : w.chunkSetNextSliceOffset = (q + 1) * o.chunkDataSizeAt k
  index_le : q ≤ o.dataSliceCount

/-- Between two rounds of `write`. -/
structure Cursor (o : FileObject) (w : Writer) (k q : ℕ) : Prop extends Stands o w k q where
  offset : w.dataOffset = o.chunkSetOffset k + w.chunkSetBufferPosition
  remaining : w.chunkSetBufferPosition + w.chunkSetBufferRemaining =
    o.chunkDataSizeAt k * o.dataSliceCount
  room : 0 < o.chunkDataSizeAt k → 0 < w.chunkSetBufferRemaining
  length_buffer : w.chunkSetBuffer.length = maxBufferSize o.toGeometry

theorem stands_writeNextSlice (h : Stands o w k q) (hq : q < o.dataSliceCount) :
    Stands o (writeNextSlice md5 w) k (q + 1) := by
  have hc := h.configured
  refine ⟨⟨hc.chunk, hc.data_size, hc.parity_offset, hc.parity_size, hc.slice_offsets, hc.group⟩,
    ?_, ?_, hq⟩
  · simp only [writeNextSlice, queueSliceWrite, h.next_index]
  · simp only [writeNextSlice, queueSliceWrite, h.next_offset, hc.chunk]
    ring

theorem stands_writeReadySlices (rounds : ℕ) (h : Stands o w k q)
    (hrounds : o.dataSliceCount ≤ q + rounds) :
    ∃ q', Stands o (writeReadySlices md5 o rounds w) k q' ∧
      SameBuffer w (writeReadySlices md5 o rounds w) ∧
      (q' = q ∨ q' * o.chunkDataSizeAt k ≤ w.chunkSetBufferPosition) ∧
      (q' = o.dataSliceCount ∨ w.chunkSetBufferPosition < (q' + 1) * o.chunkDataSizeAt k) := by
  refine writeReadySlices_keeps (P := fun w q => Stands o w k q) rounds
    (fun h => ⟨h.next_index, h.next_offset, h.index_le⟩) ?_ h hrounds
  intro w' q _ hstands hq _
  exact stands_writeNextSlice hstands hq

theorem writeParitySlices_files (w : Writer) :
    ∃ files, writeParitySlices md5 o w = { w with files } := by
  have hfold : ∀ (l : List ℕ) (w : Writer), ∃ files, l.foldl (fun w sliceIndex =>
      queueSliceWrite md5 w sliceIndex (slice w.chunkSetBuffer
        (w.chunkSetSliceOffsets[sliceIndex]?.getD 0)
        (w.chunkSetSliceOffsets[sliceIndex]?.getD 0 + w.chunkDataSize))) w =
      { w with files } := by
    intro l
    induction l with
    | nil => exact fun w => ⟨w.files, rfl⟩
    | cons i l ih => exact fun w => ih _
  exact hfold _ _

/-- The parity of a chunk set of some bytes is sent out, and that of an empty one throws. -/
theorem computeAndWriteParity_spec (hrs : rs.KeepsData o.dataSliceCount o.paritySliceCount)
    (hc : Configured o.toGeometry w.toBase k)
    (hbuffer : w.chunkSetBuffer.length = maxBufferSize o.toGeometry) :
    (∃ files buffer, computeAndWriteParity md5 rs o w =
        .ok { w with chunkSetBuffer := buffer, files } ∧
      buffer.length = maxBufferSize o.toGeometry ∧ 0 < o.chunkDataSizeAt k) ∨
    computeAndWriteParity md5 rs o w = .error .encodeRefused ∧ o.chunkDataSizeAt k = 0 := by
  have hfit : (o.dataSliceCount + o.paritySliceCount) * o.chunkDataSizeAt k ≤
      w.chunkSetBuffer.length := by rw [hbuffer]; exact blocks_fit k
  have htaken := hrs.taken _ _ (o.chunkDataSizeAt_spec k).1 hfit
  rcases Nat.eq_zero_or_pos (o.chunkDataSizeAt k) with hsize | hsize
  · right
    rw [computeAndWriteParity, rsSourcesBits, rsTargetsBits,
      computeParity_refused hc (by rw [htaken]; omega)]
    exact ⟨rfl, hsize⟩
  · left
    obtain ⟨files, hfiles⟩ := @writeParitySlices_files md5 o { w with
      chunkSetBuffer := rs.run o.dataSliceCount o.paritySliceCount (o.chunkDataSizeAt k)
        (rsSourcesBits o) (rsTargetsBits o) w.chunkSetBuffer }
    refine ⟨files, _, ?_, (hrs.length_run _ _ hfit).trans hbuffer, hsize⟩
    rw [computeAndWriteParity, rsSourcesBits, rsTargetsBits,
      computeParity_taken hc (htaken.mpr hsize)]
    exact congrArg Except.ok hfiles

/-- A full data region begins the next chunk set, or throws. An empty one throws. -/
theorem cursor_writeBuffer_full (hB : Bounded o.toGeometry)
    (hrs : rs.KeepsData o.dataSliceCount o.paritySliceCount) (h : Stands o w k q)
    (hbuffer : w.chunkSetBuffer.length = maxBufferSize o.toGeometry)
    (hposition : w.chunkSetBufferPosition = o.chunkDataSizeAt k * o.dataSliceCount)
    (hoff : w.dataOffset = o.chunkSetOffset (k + 1)) :
    (0 < o.chunkDataSizeAt k ∧ ∃ w', writeBuffer md5 rs o w = .ok w' ∧ Cursor o w' (k + 1) 0 ∧
      w'.md5Hasher = w.md5Hasher) ∨
    ∃ e, writeBuffer md5 rs o w = .error e := by
  obtain ⟨q', hp, ⟨hso, hsb, -, -, -, hsh⟩, -, hq'⟩ := @stands_writeReadySlices md5 o w k q
    (o.dataSliceCount + 1 - w.chunkSetNextSliceIndex) h
    (by have := h.next_index; have := h.index_le; omega)
  have hqD : q' = o.dataSliceCount := sent_of_full hposition hp.index_le hq'
  subst hqD
  unfold writeBuffer
  generalize writeReadySlices md5 o _ w = sent at *
  have hdone : sent.chunkSetNextSliceIndex > o.dataSliceCount := by
    rw [hp.next_index]; exact Nat.lt_succ_self _
  simp only [hdone, ↓reduceIte]
  rcases @computeAndWriteParity_spec md5 rs o sent k hrs hp.configured (hsb ▸ hbuffer) with
    ⟨files, buffer, hparity, hlen, hsize⟩ | ⟨herror, -⟩
  · rw [hparity]
    obtain ⟨b, hb⟩ : ∃ b, b = { sent.toBase with chunkSetBuffer := buffer } := ⟨_, rfl⟩
    have hcfg : Configured o.toGeometry b k := hb ▸ hp.configured.withBuffer _
    have hd : b.dataOffset = w.dataOffset := by rw [hb]; exact hso
    have hbuf : b.chunkSetBuffer = buffer := by rw [hb]
    have hgroup : sent.nextChunkGroupOffset = b.nextChunkGroupOffset := by rw [hb]
    have hcursor : ∀ {b' : Base}, Configured o.toGeometry b' (k + 1) →
        Rewound o.toGeometry b' (k + 1) → b'.dataOffset = b.dataOffset →
        b'.chunkSetBuffer = b.chunkSetBuffer →
        Cursor o { sent with toBase := b', files } (k + 1) 0 := by
      intro b' hc hr ho hbuf'
      refine ⟨⟨hc, hr.next_index, ?_, Nat.zero_le _⟩, ?_, ?_, fun hpos => ?_, ?_⟩
      · exact hr.next_offset.trans (by rw [Nat.zero_add, Nat.one_mul])
      · exact ((ho.trans hd).trans hoff).trans (congrArg (_ + ·) hr.position).symm
      · exact (congrArg₂ (· + ·) hr.position hr.remaining).trans (Nat.zero_add _)
      · exact hr.remaining ▸ Nat.mul_pos hpos o.data_pos
      · exact (congrArg List.length (hbuf'.trans hbuf)).trans hlen
    simp only [← hb]
    rw [hgroup, show sent.dataOffset = b.dataOffset from hso.trans hd.symm]
    rcases next_set hB hcfg (hd.trans hoff) with ⟨hne, hc⟩ | ⟨heq, b', hb', hc, hr, ho, hbuf'⟩ |
      ⟨heq, herror⟩
    · left
      obtain ⟨hc', hr', ho', hbuf'⟩ := resetBufferPositions_spec hc
      rw [if_neg hne]
      exact ⟨hsize, _, rfl, hcursor hc' hr' ho' hbuf', hsh⟩
    · left
      rw [if_pos heq, hb']
      exact ⟨hsize, _, rfl, hcursor hc hr ho hbuf', hsh⟩
    · right
      rw [if_pos heq, herror]
      exact ⟨_, rfl⟩
  · right
    rw [herror]
    exact ⟨_, rfl⟩

/-- An incomplete data region sends out the chunks that are complete. -/
theorem stands_writeBuffer_part (h : Stands o w k q)
    (hposition : w.chunkSetBufferPosition < o.chunkDataSizeAt k * o.dataSliceCount)
    (hq : q * o.chunkDataSizeAt k ≤ w.chunkSetBufferPosition) :
    ∃ w' q', writeBuffer md5 rs o w = .ok w' ∧ Stands o w' k q' ∧ SameBuffer w w' := by
  obtain ⟨q', hp, hs, hw, -⟩ := @stands_writeReadySlices md5 o w k q
    (o.dataSliceCount + 1 - w.chunkSetNextSliceIndex) h
    (by have := h.next_index; have := h.index_le; omega)
  have hq' : q' * o.chunkDataSizeAt k ≤ w.chunkSetBufferPosition := by
    rcases hw with rfl | hw
    · exact hq
    · exact hw
  have hlt : q' < o.dataSliceCount := by
    by_contra hge
    have := Nat.mul_le_mul_right (o.chunkDataSizeAt k) (show o.dataSliceCount ≤ q' by omega)
    rw [Nat.mul_comm] at hposition
    omega
  refine ⟨_, q', ?_, hp, hs⟩
  have hmore : ¬(writeReadySlices md5 o (o.dataSliceCount + 1 - w.chunkSetNextSliceIndex)
      w).chunkSetNextSliceIndex > o.dataSliceCount := by
    rw [hp.next_index]; omega
  simp only [writeBuffer, hmore, ↓reduceIte]

/-- A round takes some bytes, wherever the cursor is, or throws. -/
theorem cursor_writeRound (md5 : Md5) (hB : Bounded o.toGeometry)
    (hrs : rs.KeepsData o.dataSliceCount o.paritySliceCount) (h : Cursor o w k q) {buffer : Bytes}
    (hne : 0 < buffer.length) :
    (∃ w' k' q' b, 0 < b ∧ writeRound md5 rs o w buffer = .ok (w', buffer.drop b) ∧
      Cursor o w' k' q' ∧ w'.md5Hasher = w.md5Hasher) ∨
    ∃ e, writeRound md5 rs o w buffer = .error e := by
  have hoff := h.offset
  have hremaining := h.remaining
  have hsucc := o.chunkSetOffset_succ k
  have hroom := h.room
  obtain ⟨b, hb⟩ : ∃ b, b = min buffer.length w.chunkSetBufferRemaining := ⟨_, rfl⟩
  have hc := h.configured
  have hstands : Stands o (takeBytes w buffer b) k q :=
    ⟨⟨hc.chunk, hc.data_size, hc.parity_offset, hc.parity_size, hc.slice_offsets, hc.group⟩,
      h.next_index, h.next_offset, h.index_le⟩
  have hlength : (takeBytes w buffer b).chunkSetBuffer.length = maxBufferSize o.toGeometry :=
    (length_copyInto _ _ _).trans h.length_buffer
  have hstay : ∀ {w' : Writer} {q' : ℕ}, Stands o w' k q' →
      SameBuffer (takeBytes w buffer b) w' → 0 < w.chunkSetBufferRemaining - b →
      Cursor o w' k q' := by
    rintro w' q' hp ⟨hs1, hs2, hs3, hs4, -, -⟩ hleft
    refine ⟨hp, ?_, ?_, ?_, by rw [hs2]; exact hlength⟩
    · rw [hs1, hs3]; simp only [takeBytes]; omega
    · rw [hs3, hs4]; simp only [takeBytes]; omega
    · rw [hs4]; exact fun _ => hleft
  simp only [writeRound, ← hb]
  by_cases hfull : w.chunkSetBufferRemaining - b = 0
  · rw [if_pos (.inl hfull)]
    have hend : w.dataOffset + b = o.chunkSetOffset (k + 1) := by omega
    rcases @cursor_writeBuffer_full md5 rs o _ k q hB hrs hstands hlength
      (by simp only [takeBytes]; omega) hend with ⟨hsize, w', hw', hcursor, hh⟩ | ⟨e, herror⟩
    · have := hroom hsize
      exact .inl ⟨w', k + 1, 0, b, by omega, by rw [hw']; rfl, hcursor, hh⟩
    · exact .inr ⟨e, by rw [herror]; rfl⟩
  · left
    by_cases hready : w.chunkSetNextSliceOffset ≤ w.chunkSetBufferPosition + b
    · have hqle : q * o.chunkDataSizeAt k ≤ w.chunkSetBufferPosition + b := by
        have := h.next_offset
        rw [Nat.add_mul] at this
        omega
      obtain ⟨w', q', hw', hp', hs'⟩ := @stands_writeBuffer_part md5 rs o _ k q hstands
        (by simp only [takeBytes]; omega) hqle
      refine ⟨w', k, q', b, by omega, ?_, hstay hp' hs' (by omega), hs'.2.2.2.2.2⟩
      rw [if_pos (.inr hready), hw']
      rfl
    · refine ⟨_, k, q, b, by omega, ?_, hstay hstands ⟨rfl, rfl, rfl, rfl, rfl, rfl⟩ (by omega),
        rfl⟩
      rw [if_neg]
      rintro (hz | hz)
      · exact hfull hz
      · exact hready hz

/-- The loop ends within as many rounds as there are bytes. -/
theorem writeLoop_ends (md5 : Md5) (hB : Bounded o.toGeometry)
    (hrs : rs.KeepsData o.dataSliceCount o.paritySliceCount) (h : Cursor o w k q) {buffer : Bytes}
    {fuel : ℕ} (hfuel : buffer.length ≤ fuel) :
    (∃ w' k' q', writeLoop md5 rs o fuel w buffer = some (.ok w') ∧ Cursor o w' k' q' ∧
      w'.md5Hasher = w.md5Hasher) ∨
    ∃ e, writeLoop md5 rs o fuel w buffer = some (.error e) := by
  induction fuel generalizing w k q buffer with
  | zero =>
    obtain rfl := List.eq_nil_of_length_eq_zero (Nat.le_zero.mp hfuel)
    exact .inl ⟨w, k, q, by rw [writeLoop], h, rfl⟩
  | succ fuel ih =>
    rcases buffer with _ | ⟨d, ds⟩
    · exact .inl ⟨w, k, q, by rw [writeLoop], h, rfl⟩
    · rw [writeLoop]
      rcases cursor_writeRound md5 hB hrs h (show 0 < (d :: ds).length from Nat.succ_pos _) with
        ⟨w₁, k₁, q₁, b, hb, hround, hcursor, hh⟩ | ⟨e, herror⟩
      · have hrest : ((d :: ds).drop b).length = (d :: ds).length - b := List.length_drop
        rw [hround]
        have hfuel' : ((d :: ds).drop b).length ≤ fuel := by omega
        rcases ih hcursor hfuel' with ⟨w', k', q', hloop, hcursor', hh'⟩ | ⟨e, hloop⟩
        · exact .inl ⟨w', k', q', hloop, hcursor', hh'.trans hh⟩
        · exact .inr ⟨e, hloop⟩
      · exact .inr ⟨e, by rw [herror]⟩

theorem Cursor.count (h : Cursor o w k q) (bytes : ℕ) (hashed : Option Bytes) :
    Cursor o { w with bytesWritten := bytes, md5Hasher := hashed } k q :=
  ⟨⟨h.configured, h.next_index, h.next_offset, h.index_le⟩, h.offset, h.remaining, h.room,
    h.length_buffer⟩

theorem cursor_of_filling (hrs : rs.KeepsData o.dataSliceCount o.paritySliceCount)
    {memory : ℕ → UInt8} {plaintext : Bytes} (h : Filling md5 rs o memory plaintext w k q) :
    Cursor o w k q := by
  refine ⟨⟨h.configured, h.next_index, h.next_offset, h.index_le⟩, h.offset, h.remaining, h.room,
    ?_⟩
  rw [h.buffer, length_copyInto, length_setBuffer hrs]

theorem writeAll_ends (md5 : Md5) (hB : Bounded o.toGeometry)
    (hrs : rs.KeepsData o.dataSliceCount o.paritySliceCount) {pieces : List Bytes}
    (h : Cursor o w k q) (hhash : w.md5Hasher.isSome) {fuel : ℕ}
    (hfuel : ∀ piece ∈ pieces, piece.length ≤ fuel) :
    ∃ result, writeAll md5 rs o fuel w pieces = some result := by
  induction pieces generalizing w k q with
  | nil => exact ⟨_, rfl⟩
  | cons piece pieces ih =>
    obtain ⟨hashed, hhashed⟩ := Option.isSome_iff_exists.mp hhash
    simp only [writeAll, write, hhashed]
    rcases writeLoop_ends md5 hB hrs (h.count (w.bytesWritten + piece.length)
        (some (hashed ++ piece))) (hfuel piece List.mem_cons_self) with
      ⟨w', k', q', hloop, hcursor, hh⟩ | ⟨e, hloop⟩
    · rw [hloop]
      exact ih hcursor (by rw [hh]; rfl) fun p hp => hfuel p (List.mem_cons_of_mem _ hp)
    · exact ⟨_, by rw [hloop]⟩

end Rounds

/-! ## Any amount of data -/

/-- No write goes round more often than it has bytes, and the object is finished when all its
bytes have come and no others. -/
def Copes (md5 : Md5) (rs : Codec) (o : FileObject) (w : Writer) (pieces : List Bytes) : Prop :=
  ∀ fuel, (∀ piece ∈ pieces, piece.length ≤ fuel) →
    ∃ result, writeAll md5 rs o fuel w pieces = some result ∧
      ((∃ w', result = .ok w') ↔ pieces.flatten.length = o.size)

/-- The writer copes with any amount of data, in any pieces. -/
theorem writer_copes (md5 : Md5) (rs : Codec) (o : FileObject)
    (hcreate : rs.create o.dataSliceCount o.paritySliceCount = true)
    (hrs : rs.KeepsData o.dataSliceCount o.paritySliceCount) (hfits : HeaderFits o)
    (memory : ℕ → UInt8) (pieces : List Bytes) :
    ∃ w, FileObjectWriter.prepare md5 rs o memory = .ok w ∧ Copes md5 rs o w pieces := by
  have henc : ∀ i, i < o.totalSliceCount → Encodable o i := fun i hi => hfits.encodable hi
  have hB : Bounded o.toGeometry := bounded_of_encodable (henc 0 (Nat.add_pos_left o.data_pos _))
  obtain ⟨w, hprep, hfill, hoff, hbytes, hhash⟩ :=
    FileObjectWriter.prepare_spec hcreate henc memory pieces.flatten
  refine ⟨w, hprep, fun fuel hfuel => ?_⟩
  obtain ⟨result, hrun⟩ := writeAll_ends md5 hB hrs (cursor_of_filling hrs hfill)
    (by rw [hhash]; rfl) hfuel
  refine ⟨result, hrun, ?_, fun hsize => ?_⟩
  · rintro ⟨w', rfl⟩
    have := writeAll_size hrun
    omega
  · obtain ⟨w', hw', -⟩ := @writeAll_spec _ _ _ _ _ hB hsize hrs _ (le_max_right fuel o.size)
      pieces [] rfl _ _ _ hfill hoff hbytes hhash
    have hsame := hw'.symm.trans (writeAll_fuel hrun (le_max_left fuel o.size))
    exact ⟨w', (Option.some.inj hsame).symm⟩

/-- Nine bytes for an object of one byte, whose only chunk set takes eight: the write throws. The
one byte that was announced is taken. -/
theorem writer_copes_nine : ∃ w,
    FileObjectWriter.prepare standard mirror smallObject (fun _ => 0) = .ok w ∧
      (∃ e, writeAll standard mirror smallObject 9 w [List.replicate 9 7] = some (.error e)) ∧
      ∃ w', writeAll standard mirror smallObject 9 w [[], [7]] = some (.ok w') := by
  obtain ⟨w, hprep, hnine⟩ := writer_copes standard mirror smallObject rfl
    (mirror_lawful 1 1 rfl).keepsData smallObject_fits (fun _ => 0) [List.replicate 9 7]
  obtain ⟨w₁, hprep₁, hone⟩ := writer_copes standard mirror smallObject rfl
    (mirror_lawful 1 1 rfl).keepsData smallObject_fits (fun _ => 0) [[], [7]]
  obtain rfl := Except.ok.inj (hprep.symm.trans hprep₁)
  obtain ⟨result, hrun, hiff⟩ := hnine 9 (by simp)
  obtain ⟨result', hrun', hiff'⟩ := hone 9 (by simp)
  refine ⟨w, hprep, ?_, ?_⟩
  · rcases result with e | w'
    · exact ⟨e, hrun⟩
    · exact absurd (hiff.mp ⟨w', rfl⟩) (by decide)
  · obtain ⟨w', rfl⟩ := hiff'.mpr rfl
    exact ⟨w', hrun'⟩

end WriterTotals
