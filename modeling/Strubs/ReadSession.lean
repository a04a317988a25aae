import Strubs.FileObjectReader

/-! # One read, call by call

A read stands on one chunk set at a time. Between two calls the reader's cursor agrees
with the plan, and a call either hands out what the range has in that chunk set and moves
on, or fails and stays. -/
namespace ReadSession

open ByteBuffer ErasureCode ChunkPlan MessageDigest SliceFile FileObjectBase FileObjectReader

variable {md5 : Md5} {rs : Codec} {o : FileObject} {d : Disks}

structure Cursor (o : FileObject) (r : Reader) (k : ℕ) : Prop where
  configured : Configured o.toGeometry r.toBase k
  offset : r.dataOffset = o.chunkSetOffset k
  index : r.currentChunkSetIndex = k
  length_buffer : r.chunkSetBuffer.length = maxBufferSize o.toGeometry
  prepared : Prepared o r

/-- A read of `[a, b)` whose next chunk set is the `k`-th. -/
structure Active (o : FileObject) (a b : ℕ) (r : Reader) (k : ℕ) : Prop extends
    Cursor o r k where
  segment : r.hasReadSegment = false
  start : r.startOffset = a
  finish : r.endOffset = b
  nonempty : a < b
  begun : o.chunkSetOffset k < b
  reached : a < o.chunkSetOffset (k + 1)

/-- Two readers know the same about their slices. -/
def SameFaults (r r' : Reader) : Prop :=
  r'.failedSlices = r.failedSlices ∧ r'.faultCounts = r.faultCounts ∧
  r'.availableParityIdxs = r.availableParityIdxs

theorem Cursor.steady {r r' : Reader} {k : ℕ} (h : Cursor o r k) (hs : Steady r r') :
    Cursor o r' k where
  configured := by
    have hc := h.configured
    rw [hs.base]
    exact ⟨hc.chunk, hc.data_size, hc.parity_offset, hc.parity_size, hc.slice_offsets, hc.group⟩
  offset := by rw [hs.base]; exact h.offset
  index := hs.index.trans h.index
  length_buffer := hs.length.trans h.length_buffer
  prepared := h.prepared.steady hs

theorem Active.steady {a b k : ℕ} {r r' : Reader} (h : Active o a b r k) (hs : Steady r r') :
    Active o a b r' k :=
  ⟨h.toCursor.steady hs, hs.segment.trans h.segment, hs.start.trans h.start,
    hs.finish.trans h.finish, h.nonempty, h.begun, h.reached⟩

theorem Active.lt_count {a b k : ℕ} {r : Reader} (h : Active o a b r k) (hb : b ≤ o.size) :
    k < o.chunkSetCount :=
  o.lt_chunkSetCount_iff.mpr (lt_of_lt_of_le h.begun hb)

/-- The chunk set that holds the first byte of the range. -/
theorem setReadRange_spec {r : Reader} (hp : Prepared o r)
    (hlen : r.chunkSetBuffer.length = maxBufferSize o.toGeometry) {a b : ℕ} (hab : a < b)
    (hb : b ≤ o.size) : ∃ k, Active o a b (setReadRange o r a b) k ∧ o.chunkSetOffset k ≤ a ∧
      SameFaults r (setReadRange o r a b) := by
  have hfirst : o.chunkSetOffset 1 = o.plan.standardChunkSetOffset := by
    simpa using o.chunkSetOffset_standard (Nat.zero_le _)
  unfold setReadRange
  simp only
  by_cases hstart : a < o.plan.standardChunkSetOffset
  · rw [if_pos hstart]
    refine ⟨0, ⟨⟨(configureStartState_spec _).1, rfl, rfl, hlen, ⟨hp.1, hp.2, hp.3⟩⟩, rfl, rfl,
      rfl, hab, ?_, ?_⟩, Nat.zero_le _, rfl, rfl, rfl⟩
    · exact lt_of_le_of_lt (Nat.zero_le a) hab
    · rw [hfirst]; exact hstart
  · rw [if_neg hstart]
    obtain ⟨hT8, hT⟩ := o.standard_spec
    have hset : 0 < o.plan.standardChunkDataSize * o.dataSliceCount :=
      Nat.mul_pos (by omega) o.data_pos
    generalize hq : (a - o.plan.standardChunkSetOffset) /
      (o.plan.standardChunkDataSize * o.dataSliceCount) = q
    have hqle : q * (o.plan.standardChunkDataSize * o.dataSliceCount) ≤
        a - o.plan.standardChunkSetOffset := by
      rw [← hq]; exact Nat.div_mul_le_self _ _
    have hqlt : a - o.plan.standardChunkSetOffset <
        q * (o.plan.standardChunkDataSize * o.dataSliceCount) +
          o.plan.standardChunkDataSize * o.dataSliceCount := by
      rw [← hq]; exact Nat.lt_div_mul_add hset
    have hend := o.plan_endOffset
    rw [Nat.mul_assoc] at hend
    by_cases hmid : a < o.plan.endChunkSetDataOffset
    · rw [if_pos hmid]
      have hqn : q < o.plan.standardChunkCountPerSlice := by
        by_contra hge
        have := Nat.mul_le_mul_right (o.plan.standardChunkDataSize * o.dataSliceCount)
          (show o.plan.standardChunkCountPerSlice ≤ q by omega)
        omega
      have hoff := o.chunkSetOffset_standard (show q ≤ _ by omega)
      have hoff' := o.chunkSetOffset_standard (show q + 1 ≤ _ by omega)
      rw [Nat.add_mul, Nat.one_mul] at hoff'
      refine ⟨q + 1, ⟨⟨(configureMiddleState_spec _ (by omega) (by omega)).1, hoff.symm,
        Nat.add_comm 1 q, hlen, ⟨hp.1, hp.2, hp.3⟩⟩, rfl, rfl, rfl, hab, ?_, ?_⟩, ?_, rfl, rfl, rfl⟩
      · omega
      · omega
      · omega
    · rw [if_neg hmid]
      have hlast := o.end_spec (show o.plan.endChunkSetDataOffset < o.size by omega)
      have hmul := Nat.mul_le_mul_right o.dataSliceCount hlast.2.2.1
      have hrest : a < o.plan.endChunkSetDataOffset +
          o.plan.standardChunkDataSize * o.dataSliceCount := by omega
      have hqn : q = o.plan.standardChunkCountPerSlice := by
        apply Nat.le_antisymm
        · by_contra hgt
          have := Nat.mul_le_mul_right (o.plan.standardChunkDataSize * o.dataSliceCount)
            (show o.plan.standardChunkCountPerSlice + 1 ≤ q by omega)
          rw [Nat.add_mul, Nat.one_mul] at this
          omega
        · by_contra hlt
          have := Nat.mul_le_mul_right (o.plan.standardChunkDataSize * o.dataSliceCount)
            (show q + 1 ≤ o.plan.standardChunkCountPerSlice by omega)
          rw [Nat.add_mul, Nat.one_mul] at this
          omega
      subst hqn
      have hoff := o.chunkSetOffset_end
      have hoff' : o.chunkSetOffset (o.plan.standardChunkCountPerSlice + 1 + 1) = _ :=
        o.chunkSetOffset_last
      refine ⟨o.plan.standardChunkCountPerSlice + 1,
        ⟨⟨(configureEndState_spec _ (by omega)).1, ?_, Nat.add_comm 1 _, hlen,
          ⟨hp.1, hp.2, hp.3⟩⟩, rfl, rfl, rfl, hab, ?_, ?_⟩, ?_, rfl, rfl, rfl⟩
      · exact (hend.symm.trans hoff.symm)
      · omega
      · omega
      · omega

theorem advanceChunkSet_spec (hB : Bounded o.toGeometry) {r : Reader} {k : ℕ}
    (h : Cursor o r k) (hk : k ≤ o.plan.standardChunkCountPerSlice + 1) :
    ∃ r', advanceChunkSet o r = (.ok (), r') ∧ Cursor o r' (k + 1) ∧
      r'.hasReadSegment = r.hasReadSegment ∧ r'.startOffset = r.startOffset ∧
      r'.endOffset = r.endOffset ∧ SameFaults r r' := by
  have hoff : r.dataOffset + r.chunkSetDataSize = o.chunkSetOffset (k + 1) := by
    rw [h.offset, h.configured.data_size, o.chunkSetOffset_succ]
  have hp := h.prepared
  have hc := h.configured
  unfold advanceChunkSet
  simp only
  by_cases hend : r.dataOffset + r.chunkSetDataSize = r.nextChunkGroupOffset
  · rw [if_pos hend]
    obtain ⟨b, hb, hcb, -, hob, hbuf⟩ := configureNextChunkGroup_spec hB hk
      (b := { r.toBase with dataOffset := r.dataOffset + r.chunkSetDataSize }) hoff
      (hend.trans hc.group)
    rw [hb]
    refine ⟨_, rfl, ⟨hcb, hob.trans hoff, ?_, ?_, ⟨hp.1, hp.2, hp.3⟩⟩, rfl, rfl, rfl, rfl, rfl, rfl⟩
    · exact congrArg (· + 1) h.index
    · exact (congrArg List.length hbuf).trans h.length_buffer
  · rw [if_neg hend]
    have hnext := Configured.next hB (b := { r.toBase with
        dataOffset := r.dataOffset + r.chunkSetDataSize })
      ⟨hc.chunk, hc.data_size, hc.parity_offset, hc.parity_size, hc.slice_offsets, hc.group⟩ hk
      (by rw [← hoff, ← hc.group]; exact hend)
    exact ⟨_, rfl, ⟨hnext, hoff, congrArg (· + 1) h.index, h.length_buffer, ⟨hp.1, hp.2, hp.3⟩⟩,
      rfl, rfl, rfl, rfl, rfl, rfl⟩

private theorem trim_eq_slice (b : Bytes) {n lo cut : ℕ} (hb : n ≤ b.length) :
    ((slice b 0 n).drop lo).take (((slice b 0 n).drop lo).length - cut) =
      slice b lo (n - cut) := by
  apply List.ext_getElem?
  intro j
  simp only [List.getElem?_take, List.getElem?_drop, getElem?_slice, List.length_drop,
    length_slice]
  split_ifs <;> first | omega | rfl | (congr 1; omega)

/-- A call hands out the part of the range that lies in its chunk set. -/
theorem readChunk_assembled (hB : Bounded o.toGeometry) {a b k : ℕ} (hb : b ≤ o.size)
    {r r₁ : Reader} (h : Active o a b r k) (h₁ : Active o a b r₁ k)
    (hasm : assembleDataRegion md5 rs o d false r = (.ok (), r₁)) :
    ∃ r₂, readChunk md5 rs o d r = (.ok (some (slice r₁.chunkSetBuffer
        (a - o.chunkSetOffset k) (min b (o.chunkSetOffset (k + 1)) - o.chunkSetOffset k))), r₂) ∧
      SameFaults r₁ r₂ ∧
      (b ≤ o.chunkSetOffset (k + 1) ∧ r₂.hasReadSegment = true ∨
        o.chunkSetOffset (k + 1) < b ∧ Active o a b r₂ (k + 1)) := by
  have hk := h.lt_count hb
  have hkn : k ≤ o.plan.standardChunkCountPerSlice + 1 := by
    have := o.chunkSetCount_le; omega
  have hsucc := o.chunkSetOffset_succ k
  have hsize := h₁.configured.data_size
  have hfit : o.chunkDataSizeAt k * o.dataSliceCount ≤ r₁.chunkSetBuffer.length := by
    rw [h₁.length_buffer, Nat.mul_comm]; exact data_fits k
  obtain ⟨r₂, hadv, hcur, hseg, hstart, hfinish, hfaults⟩ :=
    advanceChunkSet_spec hB h₁.toCursor hkn
  have hread : readNextChunkSet md5 rs o d r =
      (.ok (slice r₁.chunkSetBuffer 0 (o.chunkDataSizeAt k * o.dataSliceCount)), r₂) := by
    simp only [readNextChunkSet, hasm, hadv, hsize]
  have hs := hstart.trans h₁.start
  have hf := hfinish.trans h₁.finish
  have ha := h.nonempty
  have hbeg := h.begun
  have hreach := h.reached
  have hdata : (if a > o.chunkSetOffset k
      then (slice r₁.chunkSetBuffer 0 (o.chunkDataSizeAt k * o.dataSliceCount)).drop
        (a - o.chunkSetOffset k)
      else slice r₁.chunkSetBuffer 0 (o.chunkDataSizeAt k * o.dataSliceCount)) =
      (slice r₁.chunkSetBuffer 0 (o.chunkDataSizeAt k * o.dataSliceCount)).drop
        (a - o.chunkSetOffset k) := by
    split_ifs with hgt
    · rfl
    · rw [Nat.sub_eq_zero_of_le (by omega), List.drop_zero]
  unfold readChunk
  simp only [h.segment, Bool.false_eq_true, ↓reduceIte, h.start, h.finish, h.offset, hread, hs, hf,
    hcur.offset, hdata]
  rw [if_neg (by omega), if_neg (by omega)]
  by_cases hend : o.chunkSetOffset (k + 1) ≥ b
  · rw [if_pos hend]
    refine ⟨{ r₂ with hasReadSegment := true, startOffset := a, endOffset := b }, ?_, hfaults,
      .inl ⟨hend, rfl⟩⟩
    rw [trim_eq_slice _ hfit, Nat.min_eq_left hend]
    congr 4
    omega
  · rw [if_neg hend]
    refine ⟨r₂, ?_, hfaults, .inr ⟨by omega, hcur, hseg.trans h₁.segment, hs, hf, ha, by omega, ?_⟩⟩
    · rw [Nat.min_eq_right (by omega)]
      have := @trim_eq_slice r₁.chunkSetBuffer _ (a - o.chunkSetOffset k) 0 hfit
      rw [Nat.sub_zero, List.take_length, Nat.sub_zero] at this
      rw [this]
      congr 4
      omega
    · have := o.chunkSetOffset_mono (show k + 1 ≤ k + 1 + 1 by omega)
      omega

/-- A call that cannot assemble its chunk set fails as the assembly does. -/
theorem readChunk_failed {a b k : ℕ} {r r₁ : Reader} {e : ObjectError} (h : Active o a b r k)
    (hasm : assembleDataRegion md5 rs o d false r = (.error e, r₁)) :
    readChunk md5 rs o d r = (.error e, r₁) := by
  have ha := h.nonempty
  have hbeg := h.begun
  unfold readChunk
  simp only [h.segment, Bool.false_eq_true, ↓reduceIte, h.start, h.finish, h.offset,
    readNextChunkSet, hasm]
  rw [if_neg (by omega)]

theorem readChunk_done {r : Reader} (h : r.hasReadSegment = true) :
    readChunk md5 rs o d r = (.ok none, r) := by
  rw [readChunk, if_pos h]

theorem settleOpens_spec {idxs : List ℕ} {r : Reader} :
    (∀ r', settleOpens o d r idxs = .ok r' → Steady r r' ∧
      ∀ i ∈ idxs, i ∈ r'.openSliceIdxs ∨ i ∈ r'.failedSlices) ∧
    ∀ e, settleOpens o d r idxs = .error e → e = .ioAbort := by
  induction idxs generalizing r with
  | nil =>
    refine ⟨fun r' h => ?_, fun e h => (by cases h)⟩
    cases h
    exact ⟨.refl r, by simp⟩
  | cons i rest ih =>
    have hcons : ∀ {r₁ : Reader}, Steady r r₁ →
        (i ∈ r₁.openSliceIdxs ∨ i ∈ r₁.failedSlices) →
        ∀ r', settleOpens o d r₁ rest = .ok r' → Steady r r' ∧
          ∀ j ∈ i :: rest, j ∈ r'.openSliceIdxs ∨ j ∈ r'.failedSlices := by
      intro r₁ hs₁ hi r' h
      obtain ⟨hs, hall⟩ := (ih (r := r₁)).1 r' h
      refine ⟨hs₁.trans hs, fun j hj => ?_⟩
      rcases List.mem_cons.mp hj with rfl | hj
      · exact hi.imp (fun h => hs.opened h) (fun h => hs.failed h)
      · exact hall j hj
    rw [settleOpens]
    rcases openSlice o d r.clock i with code | _
    · by_cases hcode : code = .IOABORT
      · subst hcode
        exact ⟨fun r' h => (by cases h), fun e h => (by cases h; rfl)⟩
      · have hs₁ : Steady r { handleSliceFault r i code with
            failedSlices := setAdd (handleSliceFault r i code).failedSlices i } :=
          (handleSliceFault_steady r i code).trans ⟨rfl, rfl, rfl, rfl, rfl, rfl, rfl,
            List.Subset.refl _, fun j hj => mem_setAdd.mpr (.inl hj)⟩
        have hi : i ∈ setAdd (handleSliceFault r i code).failedSlices i :=
          mem_setAdd.mpr (.inr rfl)
        cases code <;> first | exact absurd rfl hcode | exact ⟨hcons hs₁ (.inr hi), ih.2⟩
    · exact ⟨hcons ⟨rfl, rfl, rfl, rfl, rfl, rfl, rfl, List.subset_append_left _ _,
        List.Subset.refl _⟩ (.inl (by simp)), ih.2⟩

/-- A prepared reader has opened the data slices it does not count as failed. -/
theorem prepare_spec (memory : ℕ → UInt8) :
    (∀ r, prepare rs o d memory = .ok r → Prepared o r ∧
      r.chunkSetBuffer.length = maxBufferSize o.toGeometry) ∧
    ∀ e, rs.create o.dataSliceCount o.paritySliceCount = true → prepare rs o d memory = .error e →
      e = .ioAbort ∨ ∃ details, e = .quorum details := by
  unfold prepare
  by_cases hcreate : rs.create o.dataSliceCount o.paritySliceCount = true
  · rw [if_pos hcreate]
    simp only
    split_ifs with hquorum
    · exact ⟨fun r h => (by cases h), fun e _ h => (by cases h; exact .inr ⟨_, rfl⟩)⟩
    · rcases hopen : settleOpens o d _ _ with e | r'
      · exact ⟨fun r h => (by cases h), fun e' _ h => (by
          cases h; exact .inl (settleOpens_spec.2 _ hopen))⟩
      · obtain ⟨hsteady, hall⟩ := settleOpens_spec.1 _ hopen
        simp only
        split_ifs with hquorum'
        · exact ⟨fun r h => (by cases h), fun e _ h => (by cases h; exact .inr ⟨_, rfl⟩)⟩
        · refine ⟨fun r h => ?_, fun e _ h => (by cases h)⟩
          cases h
          refine ⟨⟨fun i hi hnot => ?_, ?_, ?_⟩, ?_⟩
          · have havail : isAvailable o d i = true := by
              by_contra hna
              exact hnot (hsteady.failed (List.mem_filter.mpr
                ⟨List.mem_range.mpr (Nat.lt_add_right _ hi), by simpa using hna⟩))
            exact (hall i (List.mem_filter.mpr ⟨List.mem_range.mpr hi, havail⟩)).resolve_right hnot
          · intro i hi
            change i ∈ r'.availableParityIdxs at hi
            rw [hsteady.parity] at hi
            have := List.mem_range'_1.mp (List.mem_filter.mp hi).1
            exact ⟨this.1, this.2⟩
          · change r'.availableParityIdxs.Nodup
            rw [hsteady.parity]
            exact (List.nodup_range' 1).filter _
          · exact hsteady.length.trans (length_allocUnsafe _ _)
  · rw [if_neg hcreate]
    exact ⟨fun r h => (by cases h), fun e hc _ => absurd hc hcreate⟩

theorem reconstruct_ok {k : ℕ} {r r' : Reader} (hcfg : Configured o.toGeometry r.toBase k)
    {sources : List ℕ} (h : reconstruct rs o r sources = .ok r') :
    r' = { r with
      chunkSetBuffer := rs.run o.dataSliceCount o.paritySliceCount (o.chunkDataSizeAt k)
        (flags sources) (flags ((List.range o.dataSliceCount).filter (· ∉ sources)))
        r.chunkSetBuffer } := by
  rw [reconstruct] at h
  rcases hb : computeParity o.toGeometry rs (flags sources) _ r.toBase with e | b
  · rw [hb] at h
    cases h
  · rw [hb] at h
    cases h
    rw [computeParity_ok hcfg hb]

theorem reconstruct_steady (hrs : rs.Recovers o.dataSliceCount o.paritySliceCount) {k : ℕ}
    {r r' : Reader} (hcur : Cursor o r k) {sources : List ℕ}
    (h : reconstruct rs o r sources = .ok r') : Steady r r' := by
  rw [reconstruct_ok hcur.configured h]
  refine ⟨rfl, ?_, rfl, rfl, rfl, rfl, rfl, List.Subset.refl _, List.Subset.refl _⟩
  apply hrs.length_run
  rw [hcur.length_buffer]
  exact blocks_fit k

theorem assembled_steady (hrs : rs.Recovers o.dataSliceCount o.paritySliceCount) {k : ℕ}
    {r r' : Reader} (hcur : Cursor o r k) {needs : List ℕ}
    (hasm : Assembled md5 rs o d k (o.chunkDataSizeAt k) r needs (.ok (), r')) :
    Steady r r' := by
  cases hasm with
  | direct hatt hall => exact attempts_steady hatt
  | reconstructed hatt hfull hmissing hcompute =>
    have hsteady := attempts_steady hatt
    exact hsteady.trans (reconstruct_steady hrs (hcur.steady hsteady) hcompute)

/-- The whole object is read from its first chunk set on, also an empty one. -/
theorem setReadRange_whole {r : Reader} (hp : Prepared o r)
    (hlen : r.chunkSetBuffer.length = maxBufferSize o.toGeometry) :
    Cursor o (setReadRange o r 0 o.size) 0 := by
  have hpos : 0 < o.plan.standardChunkSetOffset := Nat.mul_pos o.start_spec.2.1 o.data_pos
  unfold setReadRange
  rw [if_pos hpos]
  exact ⟨(configureStartState_spec _).1, rfl, rfl, hlen, ⟨hp.1, hp.2, hp.3⟩⟩

theorem length_of_readChunkAt {file chunk : Bytes} {cursor n : ℕ}
    (h : readChunkAt md5 file cursor n = .ok chunk) : chunk.length = n := by
  simp only [readChunkAt] at h
  split_ifs at h with hlen hsum
  cases h
  rw [List.length_drop, not_not.mp hlen, Nat.add_sub_cancel_left]

/-- Every source stands in its place of the buffer as its own slice has it. -/
theorem attempts_reads {k : ℕ} {r : Reader} (hcur : Cursor o r k) {b : Assembly}
    (hatt : Attempts md5 o d k (o.chunkDataSizeAt k) (r, [], []) b) : ∀ i ∈ b.2.1,
      ChunkRead md5 o d k (o.chunkDataSizeAt k) i
        (block b.1.chunkSetBuffer (o.chunkDataSizeAt k) i) := by
  induction hatt with
  | refl => intro i hi; cases hi
  | @tail a c hsteps hstep ih =>
    have hsteady := attempts_steady hsteps
    have hgathered := attempts_gathered hsteps
      ⟨List.nodup_nil, List.Subset.refl _, Nat.zero_le _, by simp⟩
    cases hstep with
    | wait => exact ih
    | @put r' s tried i chunk hi hnew hroom hread =>
      have hsize : r'.chunkDataSize = o.chunkDataSizeAt k :=
        hsteady.chunkDataSize.trans hcur.configured.chunk
      have hlen : r'.chunkSetBuffer.length = maxBufferSize o.toGeometry :=
        hsteady.length.trans hcur.length_buffer
      have hfit : (i + 1) * o.chunkDataSizeAt k ≤ r'.chunkSetBuffer.length := by
        rw [hlen]; exact (Nat.mul_le_mul_right _ hi).trans (blocks_fit k)
      intro j hj
      simp only [putChunk, hsize]
      rcases List.mem_append.mp hj with hjs | hji
      · rw [block_copyInto_ne (length_of_readChunkAt hread.2) hfit]
        · exact ih j hjs
        · rintro rfl
          exact hnew (hgathered.tried hjs)
      · rw [List.mem_singleton.mp hji, block_copyInto_self (length_of_readChunkAt hread.2) hfit]
        exact hread
    | fault => exact ih

theorem assembleDataRegion_steady (hrs : rs.Recovers o.dataSliceCount o.paritySliceCount)
    {r : Reader} {k : ℕ} (hcur : Cursor o r k) (full : Bool) :
    Steady r (assembleDataRegion md5 rs o d full r).2 := by
  have hspec := (@assembleDataRegion_spec md5 rs _ d) hcur.index hcur.configured.chunk
    hcur.prepared full
  generalize assembleDataRegion md5 rs o d full r = answer at hspec ⊢
  rcases answer with ⟨e | _, r'⟩
  · cases hspec with
    | aborted hatt _ => exact attempts_steady hatt
    | refused hatt _ _ _ _ => exact attempts_steady hatt
    | lost hatt _ _ _ => exact attempts_steady hatt
  · exact assembled_steady hrs hcur hspec

theorem hasReachedEOF_of_lt {r : Reader} {k : ℕ} (hcur : Cursor o r k)
    (hk : k < o.chunkSetCount) : hasReachedEOF o r = false := by
  have := o.lt_chunkSetCount_iff.mp hk
  simp only [hasReachedEOF, hcur.offset, decide_eq_false_iff_not]
  omega

theorem reconstructFullChunkSet_failed {r r₁ : Reader} {k : ℕ} {e : ObjectError}
    (hcur : Cursor o r k) (hk : k < o.chunkSetCount)
    (hasm : assembleDataRegion md5 rs o d true r = (.error e, r₁)) :
    reconstructFullChunkSet md5 rs o d r = (.error e, r₁) := by
  rw [reconstructFullChunkSet, hasReachedEOF_of_lt hcur hk, hasm]
  rfl

/-- From an assembled data region the repair hook computes all shards and moves on. -/
theorem reconstructFullChunkSet_assembled (hB : Bounded o.toGeometry)
    (hrs : rs.Recovers o.dataSliceCount o.paritySliceCount) {r r₁ : Reader} {k : ℕ}
    (hcur : Cursor o r k) (hk : k < o.chunkSetCount)
    (hasm : assembleDataRegion md5 rs o d true r = (.ok (), r₁)) :
    ∃ snapshot r', reconstructFullChunkSet md5 rs o d r =
        (.ok (some (snapshot, o.chunkDataSizeAt k)), r') ∧ Cursor o r' (k + 1) ∧
      SameFaults r₁ r' ∧ r'.endOffset = r₁.endOffset ∧
      slice snapshot 0 (o.dataSliceCount * o.chunkDataSizeAt k) =
        slice r₁.chunkSetBuffer 0 (o.dataSliceCount * o.chunkDataSizeAt k) ∧
      (slice snapshot 0 (o.dataSliceCount * o.chunkDataSizeAt k)).length =
        o.dataSliceCount * o.chunkDataSizeAt k ∧
      ∀ i, i < o.totalSliceCount → block snapshot (o.chunkDataSizeAt k) i =
        rs.shard o.dataSliceCount o.paritySliceCount (o.chunkDataSizeAt k)
          (slice snapshot 0 (o.dataSliceCount * o.chunkDataSizeAt k)) i := by
  have heof := hasReachedEOF_of_lt hcur hk
  have hspec := (@assembleDataRegion_spec md5 rs _ d) hcur.index
    hcur.configured.chunk hcur.prepared true
  rw [hasm] at hspec
  have hcur₁ := hcur.steady (assembled_steady hrs hcur hspec)
  have hfit : (o.dataSliceCount + o.paritySliceCount) * o.chunkDataSizeAt k ≤
      r₁.chunkSetBuffer.length := by rw [hcur₁.length_buffer]; exact blocks_fit k
  have hkeep := hrs.keepsData.keeps _ _ hfit
  have hcompute := computeParity_taken hcur₁.configured
    ((hrs.keepsData.taken _ _ (o.chunkDataSizeAt_spec k).1 hfit).mpr
      (o.chunkDataSizeAt_pos_of_lt hk))
  have hcur₂ : Cursor o { r₁ with
      chunkSetBuffer := rs.run o.dataSliceCount o.paritySliceCount (o.chunkDataSizeAt k)
        (Codec.dataFlags o.dataSliceCount)
        (Codec.parityFlags o.dataSliceCount o.paritySliceCount) r₁.chunkSetBuffer } k :=
    ⟨hcur₁.configured.withBuffer _, hcur₁.offset, hcur₁.index,
      (hrs.keepsData.length_run _ _ hfit).trans hcur₁.length_buffer,
      ⟨hcur₁.prepared.1, hcur₁.prepared.2, hcur₁.prepared.3⟩⟩
  obtain ⟨r₂, hadv, hcur₃, -, -, hfinish, hfaults⟩ := advanceChunkSet_spec hB hcur₂
    (by have := o.chunkSetCount_le; omega)
  have hresult : reconstructFullChunkSet md5 rs o d r = (.ok (some (slice
      (rs.run o.dataSliceCount o.paritySliceCount (o.chunkDataSizeAt k)
        (Codec.dataFlags o.dataSliceCount)
        (Codec.parityFlags o.dataSliceCount o.paritySliceCount) r₁.chunkSetBuffer) 0
      (o.totalSliceCount * o.chunkDataSizeAt k), o.chunkDataSizeAt k)), r₂) := by
    rw [reconstructFullChunkSet, heof, hasm]
    simp only [Bool.false_eq_true, ↓reduceIte, hcompute, hadv]
    rw [hcur₁.configured.chunk]
  generalize hrun : rs.run o.dataSliceCount o.paritySliceCount (o.chunkDataSizeAt k)
    (Codec.dataFlags o.dataSliceCount)
    (Codec.parityFlags o.dataSliceCount o.paritySliceCount) r₁.chunkSetBuffer = full at *
  have hle := Nat.mul_le_mul_right (o.chunkDataSizeAt k)
    (Nat.le_add_right o.dataSliceCount o.paritySliceCount)
  have hdata : slice (slice full 0 (o.totalSliceCount * o.chunkDataSizeAt k)) 0
      (o.dataSliceCount * o.chunkDataSizeAt k) =
      slice r₁.chunkSetBuffer 0 (o.dataSliceCount * o.chunkDataSizeAt k) := by
    rw [slice_slice _ _ _ _ _ (by rw [Nat.zero_add]; exact hle)]
    simpa using hkeep
  refine ⟨_, r₂, hresult, hcur₃, hfaults, hfinish, hdata, ?_, fun i hi => ?_⟩
  · rw [hdata, length_slice]
    omega
  · rw [hdata, block_clip _ hi, ← hrun]
    exact hrs.run_parity (o.chunkDataSizeAt_spec k).1 hfit rfl hi

/-- The repair hook returns all shards of the data region it has assembled. -/
theorem reconstructFullChunkSet_spec (hB : Bounded o.toGeometry)
    (hrs : rs.Recovers o.dataSliceCount o.paritySliceCount) {r : Reader} {k : ℕ}
    (hcur : Cursor o r k) :
    (o.chunkSetCount ≤ k → reconstructFullChunkSet md5 rs o d r = (.ok none, r)) ∧
    (k < o.chunkSetCount → ∀ result r', reconstructFullChunkSet md5 rs o d r = (.ok result, r') →
      ∃ snapshot, result = some (snapshot, o.chunkDataSizeAt k) ∧ Cursor o r' (k + 1) ∧
        (slice snapshot 0 (o.dataSliceCount * o.chunkDataSizeAt k)).length =
          o.dataSliceCount * o.chunkDataSizeAt k ∧
        ∀ i, i < o.totalSliceCount → block snapshot (o.chunkDataSizeAt k) i =
          rs.shard o.dataSliceCount o.paritySliceCount (o.chunkDataSizeAt k)
            (slice snapshot 0 (o.dataSliceCount * o.chunkDataSizeAt k)) i) := by
  refine ⟨fun hk => ?_, fun hk result r' h => ?_⟩
  · have heof : hasReachedEOF o r = true := by
      have := mt o.lt_chunkSetCount_iff.mpr (not_lt.mpr hk)
      simp only [hasReachedEOF, hcur.offset, decide_eq_true_eq]
      omega
    rw [reconstructFullChunkSet, if_pos heof]
  · rcases hasm : assembleDataRegion md5 rs o d true r with ⟨e | _, r₁⟩
    · rw [reconstructFullChunkSet_failed hcur hk hasm] at h
      cases h
    · obtain ⟨snapshot, r₂, hresult, hnext, -, -, -, hlen, hshards⟩ :=
        reconstructFullChunkSet_assembled hB hrs hcur hk hasm
      rw [hresult] at h
      cases h
      exact ⟨snapshot, rfl, hnext, hlen, hshards⟩

end ReadSession
