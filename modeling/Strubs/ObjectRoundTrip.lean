import Strubs.ReadSession

/-! # What a reader gets back of a written object

The disks hold the writer's files. Whatever faults they report, a block that is handed
out is the plaintext, since every source that enters a reconstruction is a chunk of one
codeword. Without faults nothing is reconstructed at all. -/
namespace ObjectRoundTrip

open ByteBuffer ErasureCode ChunkPlan MessageDigest SliceFile FileObjectBase FileObjectReader
  ReadSession
open FileObjectWriter (Written chunkAt dataRegion sliceFiles)

variable {md5 : Md5} {rs : Codec} {o : FileObject} {memory : ℕ → UInt8} {plaintext : Bytes}
  {d : Disks}

/-- The disks hold the slices of an object whose headers fit their fields. -/
structure Stored (md5 : Md5) (rs : Codec) (o : FileObject) (memory : ℕ → UInt8)
    (plaintext : Bytes) (d : Disks) : Prop where
  length_plaintext : plaintext.length = o.size
  encodable : ∀ i, i < o.totalSliceCount → Encodable o i
  keeps : rs.KeepsData o.dataSliceCount o.paritySliceCount
  files : ∀ i, i < o.totalSliceCount → d.file i = sliceFiles md5 rs o memory plaintext i

theorem Stored.bounded (h : Stored md5 rs o memory plaintext d) : Bounded o.toGeometry :=
  bounded_of_encodable (h.encodable 0 (Nat.add_pos_left o.data_pos _))

private theorem Stored.content (h : Stored md5 rs o memory plaintext d) {i : ℕ}
    (hi : i < o.totalSliceCount) : d.file i = fileContent md5 (headerBytes md5 o i)
      ((List.range o.chunkSetCount).map (chunkAt rs o memory plaintext · i)) := by
  rw [h.files i hi, sliceFiles, FileObjectWriter.sliceContent, if_pos hi]
  simp

/-- A read that no fault interrupts returns the chunk that was written. -/
theorem Stored.readChunkAt (h : Stored md5 rs o memory plaintext d) {k i : ℕ}
    (hk : k < o.chunkSetCount) (hi : i < o.totalSliceCount) :
    readChunkAt md5 (d.file i) (seekToChunkIndex o.plan k) (o.chunkDataSizeAt k) =
      .ok (chunkAt rs o memory plaintext k i) := by
  rw [h.content hi]
  apply readChunkAt_fileContent o.toGeometry md5 (length_headerBytes md5 o i)
  · intro j c hc
    rw [List.getElem?_map] at hc
    obtain ⟨j', hj', rfl⟩ := Option.map_eq_some_iff.mp hc
    obtain ⟨hlt, hget⟩ := List.getElem?_eq_some_iff.mp hj'
    rw [List.getElem_range] at hget
    subst hget
    exact FileObjectWriter.length_chunkAt h.keeps j hi
  · simpa using o.chunkSetCount_le
  · simp [hk]

theorem Stored.openSlice (h : Stored md5 rs o memory plaintext d) {t i : ℕ}
    (hi : i < o.totalSliceCount) (hopen : d.openFault t i = none) :
    openSlice o d t i = .ok () := by
  rw [FileObjectReader.openSlice, hopen]
  simp only
  rw [h.content hi]
  exact openHeader_fileContent md5 o (h.encodable i hi) _

theorem Stored.chunkRead (h : Stored md5 rs o memory plaintext d) {k i : ℕ} {chunk : Bytes}
    (hk : k < o.chunkSetCount) (hi : i < o.totalSliceCount)
    (hread : ChunkRead md5 o d k (o.chunkDataSizeAt k) i chunk) :
    chunk = chunkAt rs o memory plaintext k i :=
  Except.ok.inj (hread.2.symm.trans (h.readChunkAt hk hi))

/-- Every fault is one that the disks report. -/
theorem Stored.faultRead (h : Stored md5 rs o memory plaintext d) {k i : ℕ} {code : FaultCode}
    (hk : k < o.chunkSetCount) (hi : i < o.totalSliceCount)
    (hread : FaultRead md5 o d k (o.chunkDataSizeAt k) i code) :
    (∃ t, d.readFault t i k = some code) ∨ ∃ t, d.openFault t i = some code := by
  rcases hread with ht | ⟨-, hr⟩ | ⟨t, ht⟩
  · exact .inl ht
  · rw [h.readChunkAt hk hi] at hr
    cases hr
  · refine .inr ⟨t, ?_⟩
    rcases hf : d.openFault t i with _ | code'
    · rw [h.openSlice hi hf] at ht
      cases ht
    · rw [FileObjectReader.openSlice, hf] at ht
      exact congrArg some (Except.error.inj ht)

/-- The blocks of the gathered sources are the chunks that were written. -/
def Correct (rs : Codec) (o : FileObject) (memory : ℕ → UInt8) (plaintext : Bytes) (k : ℕ)
    (a : Assembly) : Prop :=
  ∀ i ∈ a.2.1, block a.1.chunkSetBuffer (o.chunkDataSizeAt k) i =
    chunkAt rs o memory plaintext k i

theorem attempts_correct (h : Stored md5 rs o memory plaintext d) {k : ℕ}
    (hk : k < o.chunkSetCount) {r : Reader} (hcur : Cursor o r k) {b : Assembly}
    (hatt : Attempts md5 o d k (o.chunkDataSizeAt k) (r, [], []) b) :
    Correct rs o memory plaintext k b := by
  intro i hi
  have hgathered := attempts_gathered hatt
    ⟨List.nodup_nil, List.Subset.refl _, Nat.zero_le _, by simp⟩
  exact h.chunkRead hk (hgathered.range i (hgathered.tried hi)) (attempts_reads hcur hatt i hi)

private theorem card_flags {s : List ℕ} {n : ℕ} (hn : n ≤ 32) (hnodup : s.Nodup)
    (hs : ∀ i ∈ s, i < n) :
    ((Finset.range n).filter fun i => (flags s).getLsbD i = true).card = s.length := by
  have hset : ((Finset.range n).filter fun i => (flags s).getLsbD i = true) = s.toFinset := by
    ext i
    rw [Finset.mem_filter, Finset.mem_range, List.mem_toFinset]
    constructor
    · rintro ⟨hi, hflag⟩
      rw [getLsbD_flags (by omega) (fun j hj => lt_of_lt_of_le (hs j hj) hn)] at hflag
      exact of_decide_eq_true hflag
    · intro hi
      have hlt := hs i hi
      refine ⟨hlt, ?_⟩
      rw [getLsbD_flags (by omega) (fun j hj => lt_of_lt_of_le (hs j hj) hn)]
      exact decide_eq_true hi
  rw [hset, List.toFinset_card_of_nodup hnodup]

theorem mem_missing {s : List ℕ} {i : ℕ} :
    i ∈ (List.range o.dataSliceCount).filter (· ∉ s) ↔ i < o.dataSliceCount ∧ i ∉ s := by
  rw [List.mem_filter, List.mem_range, decide_eq_true_eq]

/-- No slice is a source and a target of one call. -/
theorem sources_missing_disjoint (hw : o.dataSliceCount + o.paritySliceCount ≤ 32) {s : List ℕ}
    (hrange : ∀ i ∈ s, i < o.dataSliceCount + o.paritySliceCount) :
    flags s &&& flags ((List.range o.dataSliceCount).filter (· ∉ s)) = 0#32 := by
  apply BitVec.eq_of_getLsbD_eq
  intro j hj
  rw [BitVec.getLsbD_and, BitVec.getLsbD_zero, Bool.and_eq_false_iff]
  by_cases hjs : j ∈ s
  · right
    rw [getLsbD_flags (by omega) fun j hj => by have := (mem_missing.mp hj).1; omega,
      decide_eq_false_iff_not, mem_missing]
    tauto
  · left
    rw [getLsbD_flags (by omega) fun j hj => lt_of_lt_of_le (hrange j hj) hw]
    exact decide_eq_false hjs

theorem missing_flag (hw : o.dataSliceCount + o.paritySliceCount ≤ 32) {s : List ℕ} {i : ℕ}
    (hi : i < o.dataSliceCount + o.paritySliceCount) :
    (flags ((List.range o.dataSliceCount).filter (· ∉ s))).getLsbD i =
      decide (i < o.dataSliceCount ∧ i ∉ s) := by
  rw [getLsbD_flags (by omega) fun j hj => by have := (mem_missing.mp hj).1; omega]
  exact decide_eq_decide.mpr mem_missing

/-- The call for what is missing of a chunk set with some bytes does not throw. -/
theorem reconstruct_taken (hrs : rs.Recovers o.dataSliceCount o.paritySliceCount) {k : ℕ}
    (hk : k < o.chunkSetCount) {r : Reader} {s tried : List ℕ} (hcur : Cursor o r k)
    (hg : Gathered o (r, s, tried)) (hfull : o.dataSliceCount ≤ s.length)
    (htarget : ∃ i, i < o.dataSliceCount ∧ i ∉ s) : ∃ r', reconstruct rs o r s = .ok r' := by
  have hw := hrs.flag_width
  have hfit : (o.dataSliceCount + o.paritySliceCount) * o.chunkDataSizeAt k ≤
      r.chunkSetBuffer.length := by rw [hcur.length_buffer]; exact blocks_fit k
  have hrange : ∀ i ∈ s, i < o.dataSliceCount + o.paritySliceCount :=
    fun i hi => hg.range i (hg.tried hi)
  have htaken := (hrs.taken _ (flags s) (flags ((List.range o.dataSliceCount).filter (· ∉ s)))
    r.chunkSetBuffer (o.chunkDataSizeAt_spec k).1 hfit (sources_missing_disjoint hw hrange)
    (by rw [card_flags hw hg.nodup hrange]; exact Nat.le_antisymm hg.bound hfull)
    (by
      obtain ⟨i, hi, hs⟩ := htarget
      have hi' : i < o.dataSliceCount + o.paritySliceCount := Nat.lt_add_right _ hi
      exact ⟨i, hi', by rw [missing_flag hw hi']; exact decide_eq_true ⟨hi, hs⟩⟩)).mpr
    (o.chunkDataSizeAt_pos_of_lt hk)
  rw [reconstruct, computeParity_taken hcur.configured htaken]
  exact ⟨_, rfl⟩

/-- Reconstruction completes the data region and changes nothing else. -/
theorem reconstruct_correct (h : Stored md5 rs o memory plaintext d)
    (hrs : rs.Recovers o.dataSliceCount o.paritySliceCount) {k : ℕ} {r r' : Reader}
    {s tried : List ℕ} (hcur : Cursor o r k) (hg : Gathered o (r, s, tried))
    (hcorrect : Correct rs o memory plaintext k (r, s, tried))
    (hfull : o.dataSliceCount ≤ s.length) (hcompute : reconstruct rs o r s = .ok r') :
    Steady r r' ∧ ∀ i, i < o.dataSliceCount →
      block r'.chunkSetBuffer (o.chunkDataSizeAt k) i = chunkAt rs o memory plaintext k i := by
  have hw := hrs.flag_width
  have hfit : (o.dataSliceCount + o.paritySliceCount) * o.chunkDataSizeAt k ≤
      r.chunkSetBuffer.length := by rw [hcur.length_buffer]; exact blocks_fit k
  have hrange : ∀ i ∈ s, i < o.dataSliceCount + o.paritySliceCount :=
    fun i hi => hg.range i (hg.tried hi)
  refine ⟨reconstruct_steady hrs hcur hcompute, fun i hi => ?_⟩
  have hi' : i < o.dataSliceCount + o.paritySliceCount := Nat.lt_add_right _ hi
  rw [reconstruct_ok hcur.configured hcompute]
  by_cases his : i ∈ s
  · refine (hrs.keeps _ _ _ _ _ hfit hi' ?_).trans (hcorrect i his)
    rw [missing_flag hw hi', decide_eq_false_iff_not]
    tauto
  · rw [FileObjectWriter.chunkAt_eq_shard h.length_plaintext hrs hi']
    apply hrs.recovers _ _ _ _ _ (o.chunkDataSizeAt_spec k).1
      (FileObjectWriter.length_dataRegion o plaintext k) hfit (sources_missing_disjoint hw hrange)
    · rw [card_flags hw hg.nodup hrange]
      exact Nat.le_antisymm hg.bound hfull
    · intro j hj hjs
      rw [getLsbD_flags (by omega) fun j hj => lt_of_lt_of_le (hrange j hj) hw] at hjs
      rw [hcorrect j (of_decide_eq_true hjs)]
      exact FileObjectWriter.chunkAt_eq_shard h.length_plaintext hrs hj
    · exact hi'
    · rw [missing_flag hw hi']
      exact decide_eq_true ⟨hi, his⟩

theorem assembled_needed (h : Stored md5 rs o memory plaintext d)
    (hrs : rs.Recovers o.dataSliceCount o.paritySliceCount) {k : ℕ} (hk : k < o.chunkSetCount)
    {r r' : Reader} (hcur : Cursor o r k) {needs : List ℕ}
    (hneeds : ∀ i ∈ needs, i < o.dataSliceCount)
    (hasm : Assembled md5 rs o d k (o.chunkDataSizeAt k) r needs (.ok (), r')) :
    Steady r r' ∧ ∀ i ∈ needs, block r'.chunkSetBuffer (o.chunkDataSizeAt k) i =
      chunkAt rs o memory plaintext k i := by
  cases hasm with
  | direct hatt hall =>
    exact ⟨attempts_steady hatt, fun i hi => attempts_correct h hk hcur hatt i (hall i hi)⟩
  | reconstructed hatt hfull hmissing hcompute =>
    have hsteady := attempts_steady hatt
    obtain ⟨hs, hblocks⟩ := reconstruct_correct h hrs (hcur.steady hsteady)
      (attempts_gathered hatt ⟨List.nodup_nil, List.Subset.refl _, Nat.zero_le _, by simp⟩)
      (attempts_correct h hk hcur hatt) hfull hcompute
    exact ⟨hsteady.trans hs, fun i hi => hblocks i (hneeds i hi)⟩

/-- An assembly that fails was aborted, or has lost too much. -/
theorem assembled_failed (hrs : rs.Recovers o.dataSliceCount o.paritySliceCount) {k : ℕ}
    (hk : k < o.chunkSetCount) {r r' : Reader} (hcur : Cursor o r k) {needs : List ℕ}
    {e : ObjectError} (hasm : Assembled md5 rs o d k (o.chunkDataSizeAt k) r needs (.error e, r')) :
    (∃ s tried, e = .ioAbort ∧ Attempts md5 o d k (o.chunkDataSizeAt k) (r, [], []) (r', s, tried) ∧
      ∃ i, i < o.totalSliceCount ∧ FaultRead md5 o d k (o.chunkDataSizeAt k) i .IOABORT) ∨
    ∃ s tried, e = quorumError o r' (some s) ∧
      Attempts md5 o d k (o.chunkDataSizeAt k) (r, [], []) (r', s, tried) ∧
      s.length < o.dataSliceCount ∧
      (∃ i ∈ needs, i ∈ r.failedSlices ∨
        ∃ code, FaultRead md5 o d k (o.chunkDataSizeAt k) i code) ∧
      ∀ i, i < o.dataSliceCount ∨ i ∈ r.availableParityIdxs → i ∈ r'.failedSlices ∨ i ∈ tried := by
  cases hasm with
  | aborted hatt habort => exact .inl ⟨_, _, rfl, hatt, habort⟩
  | lost hatt hfew hmissing htried => exact .inr ⟨_, _, rfl, hatt, hfew, hmissing, htried⟩
  | refused hatt hfull hmissing htarget hcompute =>
    obtain ⟨r'', hr''⟩ := reconstruct_taken hrs hk (hcur.steady (attempts_steady hatt))
      (attempts_gathered hatt ⟨List.nodup_nil, List.Subset.refl _, Nat.zero_le _, by simp⟩) hfull
      htarget
    rw [hcompute] at hr''
    cases hr''

theorem mem_needed {a b k : ℕ} {r : Reader} (h : Active o a b r k) {i : ℕ} :
    i ∈ needed o false r ↔ i < o.dataSliceCount ∧
      o.chunkSetOffset k + i * o.chunkDataSizeAt k < b ∧
      a < o.chunkSetOffset k + i * o.chunkDataSizeAt k + o.chunkDataSizeAt k := by
  simp only [needed, List.mem_filter, List.mem_range, Bool.false_or, sliceOverlapsRange, h.offset,
    h.configured.chunk, h.start, h.finish, decide_eq_true_eq]

/-- The needed chunks make up the part of the range that lies in the chunk set. -/
theorem slice_of_needed (h : Stored md5 rs o memory plaintext d) {a b k : ℕ}
    (hb : b ≤ o.size) {r r' : Reader} (hact : Active o a b r k)
    (hblocks : ∀ i ∈ needed o false r, block r'.chunkSetBuffer (o.chunkDataSizeAt k) i =
      chunkAt rs o memory plaintext k i) :
    slice r'.chunkSetBuffer (a - o.chunkSetOffset k)
        (min b (o.chunkSetOffset (k + 1)) - o.chunkSetOffset k) =
      slice plaintext (max a (o.chunkSetOffset k)) (min b (o.chunkSetOffset (k + 1))) := by
  have hsucc := o.chunkSetOffset_succ k
  have hbegun := hact.begun
  have hpos := o.chunkDataSizeAt_pos_of_lt (hact.lt_count hb)
  rw [← FileObjectWriter.slice_dataRegion h.length_plaintext (k := k) (by omega) (by omega)
    (by omega), show max a (o.chunkSetOffset k) - o.chunkSetOffset k = a - o.chunkSetOffset k by
      omega]
  apply slice_eq_of_overlapping_blocks hpos
  intro i hhi hlo
  have hi : i < o.dataSliceCount := by
    apply Nat.lt_of_mul_lt_mul_right (a := o.chunkDataSizeAt k)
    rw [Nat.mul_comm o.dataSliceCount]
    omega
  rw [hblocks i ((mem_needed hact).mpr ⟨hi, by omega, by omega⟩),
    FileObjectWriter.chunkAt_eq_block h.length_plaintext h.keeps hi]

theorem delivered_append (outcomes : List (Except ObjectError (Option Bytes)))
    (outcome : Except ObjectError (Option Bytes)) :
    delivered (outcomes ++ [outcome]) = delivered outcomes ++ delivered [outcome] := by
  simp [delivered]

/-- The parameters of an object fit the fields of its slice headers. -/
def HeaderFits (o : FileObject) : Prop :=
  o.size < 2 ^ 39 ∧ o.dataSliceCount < 256 ∧ o.paritySliceCount < 256 ∧
  o.totalSliceCount ≤ 256 ∧ o.chunkSize < 2 ^ 23

theorem HeaderFits.encodable (h : HeaderFits o) {i : ℕ} (hi : i < o.totalSliceCount) :
    Encodable o i :=
  ⟨h.1, h.2.1, h.2.2.1, lt_of_lt_of_le hi h.2.2.2.1, h.2.2.2.2⟩

theorem written_sliceFiles (hcreate : rs.create o.dataSliceCount o.paritySliceCount = true)
    (hrs : rs.KeepsData o.dataSliceCount o.paritySliceCount) (hfits : HeaderFits o)
    (hlen : plaintext.length = o.size) :
    Written md5 rs o plaintext (sliceFiles md5 rs o memory plaintext) := by
  have henc : ∀ i, i < o.totalSliceCount → Encodable o i := fun i hi => hfits.encodable hi
  obtain ⟨w, hprep, hfill, hoff, hbytes, hhash⟩ :=
    FileObjectWriter.prepare_spec hcreate henc memory plaintext
  obtain ⟨w', hw', hfiles, -⟩ := @FileObjectWriter.writeAll_spec _ _ _ _ _
    (bounded_of_encodable (henc 0 (Nat.add_pos_left o.data_pos _))) hlen hrs _ le_rfl
    [plaintext] [] (by simp) _ _ _ hfill hoff hbytes hhash
  exact ⟨memory, o.size, [plaintext], w, w', hprep, by simp, hw', hfiles⟩

theorem length_zeroId : (List.replicate 12 (0 : UInt8)).length = 12 := List.length_replicate

def byteObject (chunkSize : ℕ) (hlarge : 64 < chunkSize) (height : 8 ∣ chunkSize) :
    FileObject where
  size := 1
  dataSliceCount := 1
  paritySliceCount := 1
  chunkSize := chunkSize
  data_pos := Nat.one_pos
  parity_pos := Nat.one_pos
  chunk_large := hlarge
  chunk_eight := height
  idBuf := List.replicate 12 0
  md5 := none
  unavailableSliceIdxs := []
  length_idBuf := length_zeroId

theorem smallChunk_large : 64 < 72 := by decide

theorem smallChunk_eight : 8 ∣ 72 := by decide

def smallObject : FileObject := byteObject 72 smallChunk_large smallChunk_eight

theorem smallObject_fits : HeaderFits smallObject := by
  simp [HeaderFits, smallObject, byteObject, Geometry.totalSliceCount]

/-- Three chunk sets of 8, 56 and 56 bytes. -/
def spreadObject : FileObject where
  size := 120
  dataSliceCount := 1
  paritySliceCount := 1
  chunkSize := 72
  data_pos := Nat.one_pos
  parity_pos := Nat.one_pos
  chunk_large := smallChunk_large
  chunk_eight := smallChunk_eight
  idBuf := List.replicate 12 0
  md5 := none
  unavailableSliceIdxs := []
  length_idBuf := length_zeroId

theorem spreadObject_fits : HeaderFits spreadObject := by
  simp [HeaderFits, spreadObject, Geometry.totalSliceCount]

/-! Degraded reads. -/

/-- What a call of `readChunk` may return beside bytes. -/
def Acceptable (complete : Prop) : Except ObjectError (Option Bytes) → Prop
  | .ok (some _) => True
  | .ok none => complete
  | .error .ioAbort => True
  | .error (.quorum _) => True
  | .error _ => False

/-- A read that is over. -/
def Finished (r : Reader) : Prop :=
  r.hasReadSegment = true ∨ r.endOffset ≤ r.startOffset

theorem readChunk_finished {r : Reader} (h : Finished r) :
    ∃ r', readChunk md5 rs o d r = (.ok none, r') ∧ Finished r' := by
  rcases h with h | h
  · exact ⟨r, readChunk_done h, .inl h⟩
  · by_cases hseg : r.hasReadSegment = true
    · exact ⟨r, readChunk_done hseg, .inl hseg⟩
    · refine ⟨{ r with hasReadSegment := true }, ?_, .inl rfl⟩
      rw [readChunk, if_neg hseg, if_pos (.inl h)]

/-- One call on a degraded object. -/
theorem readChunk_degraded (h : Stored md5 rs o memory plaintext d)
    (hrs : rs.Recovers o.dataSliceCount o.paritySliceCount) {a b k : ℕ} (hb : b ≤ o.size)
    {r : Reader} (hact : Active o a b r k) :
    (∃ e r', readChunk md5 rs o d r = (.error e, r') ∧ Active o a b r' k ∧
      Acceptable False (.error e)) ∨
    ∃ r', readChunk md5 rs o d r = (.ok (some (slice plaintext (max a (o.chunkSetOffset k))
        (min b (o.chunkSetOffset (k + 1))))), r') ∧
      (b ≤ o.chunkSetOffset (k + 1) ∧ Finished r' ∨
        o.chunkSetOffset (k + 1) < b ∧ Active o a b r' (k + 1)) := by
  have hk := hact.lt_count hb
  have hspec := (@assembleDataRegion_spec md5 rs _ d) hact.index
    hact.configured.chunk hact.prepared false
  rcases hasm : assembleDataRegion md5 rs o d false r with ⟨e | _, r₁⟩
  · left
    rw [hasm] at hspec
    refine ⟨e, r₁, readChunk_failed hact hasm, ?_⟩
    rcases assembled_failed hrs hk hact.toCursor hspec with
      ⟨s, tried, rfl, hatt, -⟩ | ⟨s, tried, rfl, hatt, -⟩
    · exact ⟨hact.steady (attempts_steady hatt), trivial⟩
    · exact ⟨hact.steady (attempts_steady hatt), trivial⟩
  · right
    rw [hasm] at hspec
    obtain ⟨hsteady, hblocks⟩ := assembled_needed h hrs hk hact.toCursor
      (fun i hi => needed_lt hi) hspec
    obtain ⟨r₂, hread, -, hstage⟩ := readChunk_assembled h.bounded hb hact
      (hact.steady hsteady) hasm
    rw [slice_of_needed h hb hact hblocks] at hread
    exact ⟨r₂, hread, hstage.imp_left fun ⟨hend, hseg⟩ => ⟨hend, .inl hseg⟩⟩

/-- How far a read has come: the plaintext of the range up to the next chunk set. -/
structure Progressed (o : FileObject) (plaintext : Bytes) (a b : ℕ)
    (outcomes : List (Except ObjectError (Option Bytes))) (r : Reader) : Prop where
  acceptable : ∀ outcome ∈ outcomes,
    Acceptable (delivered outcomes = slice plaintext a b) outcome
  stage : (∃ k, Active o a b r k ∧ .ok none ∉ outcomes ∧
      delivered outcomes = slice plaintext a (o.chunkSetOffset k)) ∨
    Finished r ∧ delivered outcomes = slice plaintext a b

private theorem acceptable_of_false {p : Prop} {outcome : Except ObjectError (Option Bytes)}
    (h : Acceptable False outcome) : Acceptable p outcome := by
  rcases outcome with e | (_ | data)
  · cases e <;> exact h
  · exact h.elim
  · trivial

private theorem Progressed.unfinished {a b : ℕ} {r : Reader}
    {outcomes : List (Except ObjectError (Option Bytes))}
    (h : Progressed o plaintext a b outcomes r) (hnone : .ok none ∉ outcomes)
    {p : Prop} : ∀ outcome ∈ outcomes, Acceptable p outcome := by
  intro outcome hmem
  have := h.acceptable outcome hmem
  rcases outcome with e | (_ | data)
  · cases e <;> exact this
  · exact absurd hmem hnone
  · trivial

private theorem slice_step (h : Stored md5 rs o memory plaintext d) {a b k : ℕ}
    (hb : b ≤ o.size) (hbegun : o.chunkSetOffset k < b) :
    slice plaintext a (o.chunkSetOffset k) ++
        slice plaintext (max a (o.chunkSetOffset k)) (min b (o.chunkSetOffset (k + 1))) =
      slice plaintext a (min b (o.chunkSetOffset (k + 1))) := by
  have hlen := h.length_plaintext
  have hmono := o.chunkSetOffset_mono (show k ≤ k + 1 by omega)
  rcases Nat.le_total a (o.chunkSetOffset k) with hle | hge
  · rw [Nat.max_eq_right hle, slice_append_slice _ hle (by omega) (by omega)]
  · rw [Nat.max_eq_left hge, slice_eq_nil_of_le hge, List.nil_append]

theorem readChunks_progressed (h : Stored md5 rs o memory plaintext d)
    (hrs : rs.Recovers o.dataSliceCount o.paritySliceCount) {a b : ℕ} (hb : b ≤ o.size)
    {r : Reader} (hstart : Progressed o plaintext a b [] r) (n : ℕ) :
    Progressed o plaintext a b (readChunks md5 rs o d r n).1 (readChunks md5 rs o d r n).2 := by
  induction n with
  | zero => exact hstart
  | succ n ih =>
    rw [readChunks]
    generalize readChunks md5 rs o d r n = before at ih ⊢
    obtain ⟨outcomes, r₁⟩ := before
    simp only at ih ⊢
    rcases ih.stage with ⟨k, hact, hnone, hdel⟩ | ⟨hfin, hdel⟩
    · have hacc : ∀ {p : Prop}, ∀ outcome ∈ outcomes, Acceptable p outcome :=
        fun {p} => ih.unfinished hnone
      rcases readChunk_degraded h hrs hb hact with ⟨e, r₂, hread, hact₂, he⟩ | ⟨r₂, hread, hstage⟩
      · rw [hread]
        have hsame : delivered (outcomes ++ [.error e]) = delivered outcomes := by
          simp [delivered]
        refine ⟨fun outcome hmem => ?_, .inl ⟨k, hact₂, ?_, hsame.trans hdel⟩⟩
        · rcases List.mem_append.mp hmem with hmem | hmem
          · exact hacc outcome hmem
          · rw [List.mem_singleton.mp hmem]; exact acceptable_of_false he
        · simpa using hnone
      · rw [hread]
        have hnone' : .ok none ∉ outcomes ++ [.ok (some (slice plaintext
            (max a (o.chunkSetOffset k)) (min b (o.chunkSetOffset (k + 1)))))] := by
          simpa using hnone
        have hdel' : delivered (outcomes ++ [.ok (some (slice plaintext
            (max a (o.chunkSetOffset k)) (min b (o.chunkSetOffset (k + 1)))))]) =
            slice plaintext a (min b (o.chunkSetOffset (k + 1))) := by
          rw [delivered_append, hdel, ← slice_step h (a := a) hb hact.begun]
          simp [delivered]
        refine ⟨fun outcome hmem => ?_, ?_⟩
        · rcases List.mem_append.mp hmem with hmem | hmem
          · exact hacc outcome hmem
          · rw [List.mem_singleton.mp hmem]; exact trivial
        · rcases hstage with ⟨hend, hfin⟩ | ⟨hlt, hact₂⟩
          · exact .inr ⟨hfin, hdel'.trans (by rw [Nat.min_eq_left hend])⟩
          · exact .inl ⟨k + 1, hact₂, hnone', hdel'.trans (by rw [Nat.min_eq_right hlt.le])⟩
    · obtain ⟨r₂, hread, hfin₂⟩ := (@readChunk_finished md5 rs o d) hfin
      rw [hread]
      have hsame : delivered (outcomes ++ [.ok none]) = delivered outcomes := by simp [delivered]
      refine ⟨fun outcome hmem => ?_, .inr ⟨hfin₂, hsame.trans hdel⟩⟩
      rw [hsame]
      rcases List.mem_append.mp hmem with hmem | hmem
      · exact ih.acceptable outcome hmem
      · rw [List.mem_singleton.mp hmem]; exact hdel

/-- Every range of a prepared reader begins with nothing handed out. -/
theorem setReadRange_progressed {r : Reader} (hp : Prepared o r)
    (hlen : r.chunkSetBuffer.length = maxBufferSize o.toGeometry) {a b : ℕ}
    (hb : b ≤ o.size) : Progressed o plaintext a b [] (setReadRange o r a b) := by
  refine ⟨by simp, ?_⟩
  rcases Nat.lt_or_ge a b with hab | hba
  · obtain ⟨k, hact, hle, -⟩ := setReadRange_spec hp hlen hab hb
    exact .inl ⟨k, hact, by simp, by rw [slice_eq_nil_of_le hle]; rfl⟩
  · refine .inr ⟨.inr ?_, by rw [slice_eq_nil_of_le hba]; rfl⟩
    unfold setReadRange
    simp only
    split_ifs <;> exact hba

theorem Written.stored {files : ℕ → Bytes} (hrs : rs.Lawful)
    (hw : Written md5 rs o plaintext files) (hd : ∀ i, i < o.totalSliceCount → d.file i = files i) :
    ∃ memory, Stored md5 rs o memory plaintext d := by
  obtain ⟨hcreate, henc, hlen, memory, rfl⟩ := hw.spec fun hc => (hrs _ _ hc).keepsData
  exact ⟨memory, hlen, henc, (hrs _ _ hcreate).keepsData, hd⟩

/-- Whatever the slices do, a read hands out a prefix of the requested bytes, all of them
when it reports the end, and fails in no other way than for lack of slices or an abort. -/
theorem degraded_read_returns_plaintext (md5 : Md5) (rs : Codec) (hrs : rs.Lawful)
    (o : FileObject) (plaintext : Bytes) (files : ℕ → Bytes)
    (hw : Written md5 rs o plaintext files) (d : Disks)
    (hd : ∀ i, i < o.totalSliceCount → d.file i = files i) (memory : ℕ → UInt8) :
    (∀ e, prepare rs o d memory = .error e → Acceptable False (.error e)) ∧
    ∀ r, prepare rs o d memory = .ok r → ∀ a b n, b ≤ o.size →
      let outcomes := (readChunks md5 rs o d (setReadRange o r a b) n).1
      delivered outcomes <+: slice plaintext a b ∧
      ∀ outcome ∈ outcomes, Acceptable (delivered outcomes = slice plaintext a b) outcome := by
  obtain ⟨stored, h⟩ := Written.stored hrs hw hd
  have hcreate := (hw.spec fun hc => (hrs _ _ hc).keepsData).1
  refine ⟨fun e he => ?_, fun r hr a b n hb => ?_⟩
  · rcases (prepare_spec memory).2 e hcreate he with rfl | ⟨details, rfl⟩
    · trivial
    · trivial
  · obtain ⟨hp, hlen⟩ := (prepare_spec memory).1 r hr
    have hprog := readChunks_progressed h (hrs _ _ hcreate) hb
      (setReadRange_progressed hp hlen (a := a) hb) n
    refine ⟨?_, hprog.acceptable⟩
    rcases hprog.stage with ⟨k, hact, -, hdel⟩ | ⟨-, hdel⟩
    · rw [hdel, ← @slice_append_slice _ plaintext a (max a (o.chunkSetOffset k))
        b (by omega) (by have := hact.begun; have := hact.nonempty; omega)
        (by have := hact.begun; have := hact.nonempty; have := h.length_plaintext; omega)]
      rcases Nat.le_total a (o.chunkSetOffset k) with hle | hge
      · rw [Nat.max_eq_right hle]
        exact List.prefix_append _ _
      · rw [slice_eq_nil_of_le hge]
        exact List.nil_prefix
    · rw [hdel]

/-- Slice 0 is available but cannot be read; the slices are those of the byte 7. -/
def halfDisks : Disks where
  isReadable _ := true
  openFault _ _ := none
  readFault _ i _ := if i = 0 then some .ECHECKSUM else none
  file := sliceFiles standard mirror smallObject (fun _ => 0) [7]

theorem degraded_read_returns_byte : ∃ r,
    prepare mirror smallObject halfDisks (fun _ => 0) = .ok r ∧
    delivered (readChunks standard mirror smallObject halfDisks
      (setReadRange smallObject r 0 1) 1).1 <+: [7] := by
  have hread := (degraded_read_returns_plaintext standard mirror mirror_lawful smallObject [7] _
    (written_sliceFiles rfl (mirror_lawful 1 1 rfl).keepsData smallObject_fits rfl) halfDisks
    (fun _ _ => rfl) (fun _ => 0)).2
  cases hprep : prepare mirror smallObject halfDisks (fun _ => 0) with
  | error e =>
    have hok : (prepare mirror smallObject halfDisks (fun _ => 0)).isOk := by decide +kernel
    rw [hprep] at hok
    cases hok
  | ok r => exact ⟨r, rfl, (hread r hprep 0 1 1 le_rfl).1⟩

/-! Reads of a healthy object. -/

/-- Every slice is available and no disk reports a fault. -/
structure Readable (o : FileObject) (d : Disks) : Prop where
  available : ∀ i, i < o.totalSliceCount → isAvailable o d i = true
  open_ok : ∀ t i, d.openFault t i = none
  read_ok : ∀ t i k, d.readFault t i k = none

theorem Readable.not_faultRead (hd : Readable o d) (h : Stored md5 rs o memory plaintext d)
    {k i : ℕ} {code : FaultCode} (hk : k < o.chunkSetCount) (hi : i < o.totalSliceCount) :
    ¬ FaultRead md5 o d k (o.chunkDataSizeAt k) i code := by
  intro hf
  rcases h.faultRead hk hi hf with ⟨t, ht⟩ | ⟨t, ht⟩
  · rw [hd.read_ok] at ht; cases ht
  · rw [hd.open_ok] at ht; cases ht

/-- Without faults the fault record stays as it is. -/
theorem Readable.attempts_failed (hd : Readable o d) (h : Stored md5 rs o memory plaintext d)
    {k : ℕ} (hk : k < o.chunkSetCount) {a b : Assembly}
    (hatt : Attempts md5 o d k (o.chunkDataSizeAt k) a b) :
    b.1.failedSlices = a.1.failedSlices := by
  induction hatt with
  | refl => rfl
  | tail _ hstep ih =>
    cases hstep with
    | wait => exact ih
    | put hi hnew hroom hread => exact ih
    | fault hi hnew hread hcode => exact absurd hread (hd.not_faultRead h hk hi)

private theorem settleOpens_available {idxs : List ℕ} {r : Reader}
    (hopen : ∀ t, ∀ i ∈ idxs, openSlice o d t i = .ok ()) :
    settleOpens o d r idxs = .ok { r with openSliceIdxs := r.openSliceIdxs ++ idxs } := by
  induction idxs generalizing r with
  | nil => rw [settleOpens, List.append_nil]
  | cons i rest ih =>
    rw [settleOpens, hopen _ i List.mem_cons_self]
    simp only
    rw [ih fun t j hj => hopen t j (List.mem_cons_of_mem _ hj)]
    simp

/-- A reader whose slices are all available and open starts with a clean record. -/
theorem prepare_available (hcreate : rs.create o.dataSliceCount o.paritySliceCount = true)
    (hall : ∀ i, i < o.totalSliceCount → isAvailable o d i = true)
    (hopen : ∀ t i, i < o.totalSliceCount → openSlice o d t i = .ok ()) (memory : ℕ → UInt8) :
    ∃ r, prepare rs o d memory = .ok r ∧ r.failedSlices = [] ∧ r.faultCounts = (fun _ => 0) ∧
      r.availableParityIdxs = List.range' o.dataSliceCount o.paritySliceCount := by
  have hdata : (List.range o.dataSliceCount).filter (isAvailable o d) =
      List.range o.dataSliceCount :=
    List.filter_eq_self.mpr fun i hi => hall i (Nat.lt_add_right _ (List.mem_range.mp hi))
  have hparity : (List.range' o.dataSliceCount o.paritySliceCount).filter (isAvailable o d) =
      List.range' o.dataSliceCount o.paritySliceCount :=
    List.filter_eq_self.mpr fun i hi => hall i (List.mem_range'_1.mp hi).2
  have hfailed : (List.range o.totalSliceCount).filter (!isAvailable o d ·) = [] :=
    List.filter_eq_nil_iff.mpr fun i hi => by simp [hall i (List.mem_range.mp hi)]
  unfold prepare
  simp only [hcreate, ↓reduceIte, hdata, hparity, hfailed, List.length_range, List.length_range']
  rw [if_neg (by omega), settleOpens_available fun t i hi =>
    hopen t i (Nat.lt_add_right _ (List.mem_range.mp hi))]
  simp only [List.nil_append, List.length_range, List.length_range']
  rw [if_neg (by omega)]
  exact ⟨_, rfl, rfl, rfl, rfl⟩

theorem readChunk_healthy (hd : Readable o d) (h : Stored md5 rs o memory plaintext d)
    {a b k : ℕ} (hb : b ≤ o.size) {r : Reader} (hact : Active o a b r k)
    (hclean : r.failedSlices = []) :
    ∃ r', readChunk md5 rs o d r = (.ok (some (slice plaintext (max a (o.chunkSetOffset k))
        (min b (o.chunkSetOffset (k + 1))))), r') ∧
      (b ≤ o.chunkSetOffset (k + 1) ∧ r'.hasReadSegment = true ∨
        o.chunkSetOffset (k + 1) < b ∧ Active o a b r' (k + 1) ∧ r'.failedSlices = []) := by
  have hk := hact.lt_count hb
  have hspec := (@assembleDataRegion_spec md5 rs _ d) hact.index
    hact.configured.chunk hact.prepared false
  have hnone : ¬ ∃ i ∈ needed o false r, i ∈ r.failedSlices ∨
      ∃ code, FaultRead md5 o d k (o.chunkDataSizeAt k) i code := by
    rintro ⟨i, hi, hf | ⟨code, hf⟩⟩
    · rw [hclean] at hf; cases hf
    · exact hd.not_faultRead h hk (Nat.lt_add_right _ (needed_lt hi)) hf
  rcases hasm : assembleDataRegion md5 rs o d false r with ⟨e | _, r₁⟩
  · rw [hasm] at hspec
    cases hspec with
    | aborted hatt habort =>
      obtain ⟨i, hi, hf⟩ := habort
      exact absurd hf (hd.not_faultRead h hk hi)
    | refused hatt hfull hmissing htarget hcompute => exact absurd hmissing hnone
    | lost hatt hfew hmissing htried => exact absurd hmissing hnone
  · rw [hasm] at hspec
    cases hspec with
    | reconstructed hatt hfull hmissing hcompute => exact absurd hmissing hnone
    | direct hatt hall =>
      have hact₁ := hact.steady (attempts_steady hatt)
      obtain ⟨r₂, hread, hfaults, hstage⟩ := readChunk_assembled h.bounded hb hact hact₁ hasm
      rw [slice_of_needed h hb hact fun i hi =>
        attempts_correct h hk hact.toCursor hatt i (hall i hi)] at hread
      refine ⟨r₂, hread, hstage.imp_right fun ⟨hlt, hact₂⟩ => ⟨hlt, hact₂, ?_⟩⟩
      rw [hfaults.1]
      exact (hd.attempts_failed h hk hatt).trans hclean

theorem readChunks_cons (r : Reader) (n : ℕ) : readChunks md5 rs o d r (n + 1) =
    ((readChunk md5 rs o d r).1 :: (readChunks md5 rs o d (readChunk md5 rs o d r).2 n).1,
      (readChunks md5 rs o d (readChunk md5 rs o d r).2 n).2) := by
  induction n with
  | zero => rfl
  | succ n ih =>
    rw [readChunks, ih, readChunks]
    rfl

theorem readChunks_healthy (hd : Readable o d) (h : Stored md5 rs o memory plaintext d)
    {a b k : ℕ} (hb : b ≤ o.size) {r : Reader} (hact : Active o a b r k)
    (hclean : r.failedSlices = []) :
    ∃ (n : ℕ) (blocks : List Bytes),
      (readChunks md5 rs o d r n).1 = blocks.map (fun data => .ok (some data)) ++
        [.ok none] ∧
      blocks.flatten = slice plaintext (max a (o.chunkSetOffset k)) b := by
  have hk := hact.lt_count hb
  induction hm : o.chunkSetCount - k generalizing k r with
  | zero => omega
  | succ m ih =>
    obtain ⟨r₁, hread, hstage⟩ := readChunk_healthy hd h hb hact hclean
    rcases hstage with ⟨hend, hseg⟩ | ⟨hlt, hact₁, hclean₁⟩
    · refine ⟨2, [slice plaintext (max a (o.chunkSetOffset k)) b], ?_, by simp⟩
      rw [Nat.min_eq_left hend] at hread
      rw [readChunks_cons, hread, readChunks_cons, readChunk_done hseg]
      rfl
    · obtain ⟨n, blocks, hout, hflat⟩ := ih hact₁ hclean₁ (hact₁.lt_count hb) (by omega)
      rw [Nat.min_eq_right hlt.le] at hread
      refine ⟨n + 1, slice plaintext (max a (o.chunkSetOffset k)) (o.chunkSetOffset (k + 1)) ::
        blocks, ?_, ?_⟩
      · rw [readChunks_cons, hread, hout]
        rfl
      · have hreached := hact.reached
        have hmono := o.chunkSetOffset_mono (show k ≤ k + 1 by omega)
        have hlen := h.length_plaintext
        rw [List.flatten_cons, hflat, Nat.max_eq_right hreached.le]
        exact slice_append_slice _ (by omega) hlt.le (by omega)

theorem sliceFiles_memory (hlen : plaintext.length = o.size)
    (hrs : rs.KeepsData o.dataSliceCount o.paritySliceCount)
    (hred : rs.RedundancyOfData o.dataSliceCount o.paritySliceCount) (memory' : ℕ → UInt8) :
    sliceFiles md5 rs o memory plaintext = sliceFiles md5 rs o memory' plaintext := by
  have hfit : ∀ memory k, (o.dataSliceCount + o.paritySliceCount) * o.chunkDataSizeAt k ≤
      (FileObjectWriter.filled o plaintext
        (FileObjectWriter.setBuffer rs o memory plaintext k) k).length := by
    intro memory k
    rw [FileObjectWriter.length_filled, FileObjectWriter.length_setBuffer hrs]
    exact blocks_fit k
  funext i
  unfold sliceFiles FileObjectWriter.sliceContent
  by_cases hi : i < o.totalSliceCount
  · simp only [if_pos hi, if_neg (Nat.not_lt_zero i), List.append_nil]
    congr 1
    apply List.map_congr_left
    intro k _
    apply hred _ _ _ (hfit memory k) (hfit memory' k) _ i hi
    rw [FileObjectWriter.slice_filled hlen (FileObjectWriter.data_size_fits hrs k),
      FileObjectWriter.slice_filled hlen (FileObjectWriter.data_size_fits hrs k)]
  · rw [if_neg hi, if_neg hi]

/-- What is written in any pieces is read back over any range, and the files depend on the
plaintext alone. The content of the fresh buffer cannot matter either, when the redundancy
is a function of the data. -/
theorem write_read_round_trip (md5 : Md5) (rs : Codec) (o : FileObject)
    (hcreate : rs.create o.dataSliceCount o.paritySliceCount = true)
    (hrs : rs.KeepsData o.dataSliceCount o.paritySliceCount) (hfits : HeaderFits o)
    (plaintext : Bytes) (hlen : plaintext.length = o.size) (memory : ℕ → UInt8)
    (pieces : List Bytes) (hpieces : pieces.flatten = plaintext) :
    ∃ w w', FileObjectWriter.prepare md5 rs o memory = .ok w ∧
      (∀ fuel, o.size ≤ fuel → FileObjectWriter.writeAll md5 rs o fuel w pieces = some (.ok w')) ∧
      (∀ files, Written md5 rs o plaintext files →
        rs.RedundancyOfData o.dataSliceCount o.paritySliceCount → files = w'.files) ∧
      (∀ pieces' fuel, pieces'.flatten = plaintext → o.size ≤ fuel →
        ∃ w'', FileObjectWriter.writeAll md5 rs o fuel w pieces' = some (.ok w'') ∧
          w''.files = w'.files) ∧
      ∀ d memory', Readable o d → (∀ i, i < o.totalSliceCount → d.file i = w'.files i) →
        ∃ r, prepare rs o d memory' = .ok r ∧ ∀ a b, a < b → b ≤ o.size →
          ∃ (n : ℕ) (blocks : List Bytes), (readChunks md5 rs o d (setReadRange o r a b) n).1 =
              blocks.map (fun data => .ok (some data)) ++ [.ok none] ∧
            blocks.flatten = slice plaintext a b := by
  have henc : ∀ i, i < o.totalSliceCount → Encodable o i := fun i hi => hfits.encodable hi
  have hB : Bounded o.toGeometry := bounded_of_encodable (henc 0 (Nat.add_pos_left o.data_pos _))
  obtain ⟨w, hprep, hfill, hoff, hbytes, hhash⟩ :=
    FileObjectWriter.prepare_spec hcreate henc memory plaintext
  have hwrite : ∀ pieces' fuel, pieces'.flatten = plaintext → o.size ≤ fuel →
      ∃ w'', FileObjectWriter.writeAll md5 rs o fuel w pieces' = some (.ok w'') ∧
        w''.files = sliceFiles md5 rs o memory plaintext := by
    intro pieces' fuel hflat hfuel
    obtain ⟨w'', hw'', hfiles, -⟩ := @FileObjectWriter.writeAll_spec _ _ _ _ _ hB hlen hrs
      _ hfuel pieces' [] hflat _ _ _ hfill hoff hbytes hhash
    exact ⟨w'', hw'', hfiles⟩
  obtain ⟨w', hw', hfiles⟩ := hwrite pieces o.size hpieces le_rfl
  refine ⟨w, w', hprep, fun fuel hfuel => FileObjectWriter.writeAll_fuel hw' hfuel, ?_, ?_, ?_⟩
  · intro files hwritten hred
    obtain ⟨-, -, -, memory', rfl⟩ := hwritten.spec fun _ => hrs
    rw [hfiles]
    exact sliceFiles_memory hlen hrs hred memory
  · intro pieces' fuel hflat hfuel
    obtain ⟨w'', hw'', hfiles'⟩ := hwrite pieces' fuel hflat hfuel
    exact ⟨w'', hw'', hfiles'.trans hfiles.symm⟩
  · intro d memory' hd hfile
    have h : Stored md5 rs o memory plaintext d :=
      ⟨hlen, henc, hrs, fun i hi => by rw [hfile i hi, hfiles]⟩
    obtain ⟨r, hr, hclean, -, -⟩ := prepare_available hcreate hd.available
      (fun t i hi => h.openSlice hi (hd.open_ok t i)) memory'
    obtain ⟨hp, hbuf⟩ := (prepare_spec memory').1 r hr
    refine ⟨r, hr, fun a b hab hb => ?_⟩
    obtain ⟨k, hact, hle, hsame⟩ := setReadRange_spec hp hbuf hab hb
    obtain ⟨n, blocks, hout, hflat⟩ := readChunks_healthy hd h hb hact (hsame.1.trans hclean)
    exact ⟨n, blocks, hout, by rw [hflat, Nat.max_eq_left hle]⟩

/-- Three chunk sets written in two pieces, and a range that begins in the first set and ends in
the third. -/
theorem write_read_round_trip_spread :
    let plaintext := (List.range 120).map UInt8.ofNat
    ∃ w w', FileObjectWriter.prepare standard mirror spreadObject (fun _ => 0) = .ok w ∧
      FileObjectWriter.writeAll standard mirror spreadObject 120 w
        [plaintext.take 50, plaintext.drop 50] = some (.ok w') ∧
      (∃ w'', FileObjectWriter.writeAll standard mirror spreadObject 120 w [[], plaintext] =
        some (.ok w'') ∧ w''.files = w'.files) ∧
      let disks := ⟨fun _ => true, fun _ _ => none, fun _ _ _ => none, w'.files⟩
      ∃ r, prepare mirror spreadObject disks (fun _ => 1) = .ok r ∧
        ∃ (n : ℕ) (blocks : List Bytes),
          (readChunks standard mirror spreadObject disks (setReadRange spreadObject r 5 100) n).1 =
            blocks.map (fun data => .ok (some data)) ++ [.ok none] ∧
          blocks.flatten = (List.range' 5 95).map UInt8.ofNat := by
  intro plaintext
  obtain ⟨w, w', hprep, hwrite, -, hsplit, hread⟩ := write_read_round_trip standard mirror
    spreadObject rfl (mirror_lawful 1 1 rfl).keepsData spreadObject_fits plaintext rfl
    (fun _ => 0) [plaintext.take 50, plaintext.drop 50] rfl
  obtain ⟨r, hr, hrange⟩ := hread ⟨fun _ => true, fun _ _ => none, fun _ _ _ => none, w'.files⟩
    (fun _ => 1) ⟨fun _ _ => rfl, fun _ _ => rfl, fun _ _ _ => rfl⟩ fun _ _ => rfl
  refine ⟨w, w', hprep, hwrite 120 le_rfl, hsplit _ 120 rfl le_rfl, r, hr, ?_⟩
  obtain ⟨n, blocks, hout, hflat⟩ := hrange 5 100 (by decide) (by decide)
  exact ⟨n, blocks, hout, hflat.trans (by decide +kernel)⟩

/-- A chunk size of 2^23 does not fit the three signed bytes of the header. -/
theorem wide_chunks_not_written : ¬ ∀ o : FileObject, 1 ≤ o.size → o.size < 2 ^ 39 →
    o.dataSliceCount = 1 → o.paritySliceCount = 1 →
    ∃ w, FileObjectWriter.prepare standard mirror o (fun _ => 0) = .ok w := by
  intro hall
  obtain ⟨w, hw⟩ := hall (byteObject (2 ^ 23) (by decide) (by decide)) le_rfl (by decide) rfl rfl
  obtain ⟨-, -, -, -, hchunk⟩ := (FileObjectWriter.prepare_ok hw).2 0 Nat.two_pos
  exact absurd hchunk (by decide)

end ObjectRoundTrip
