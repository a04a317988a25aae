import Strubs.ObjectRoundTrip

/-! # Verifying the parity of a chunk set

The parity is read as it is stored, the chunk set is assembled as for a repair, and the parity of
what has been assembled is compared. What the assembly had to reconstruct is taken from the slices
that the reader has given up, and a slice is given up only at its second soft fault. -/
namespace ParityVerification

open ByteBuffer ErasureCode ChunkPlan MessageDigest SliceFile FileObjectBase FileObjectReader
open ReadSession
open ObjectRoundTrip (HeaderFits smallChunk_large smallChunk_eight length_zeroId)

structure ParityReport where
  mismatched : List ℕ
  missing : List ℕ
  dataIncomplete : Bool
  dataRegion : Bytes
  chunkDataSize : ℕ
  parityErrors : List (ℕ × FaultCode)

def dataIndices (o : FileObject) : List ℕ := List.range o.dataSliceCount

def parityIndices (o : FileObject) : List ℕ := List.range' o.dataSliceCount o.paritySliceCount

/-- An error that has no code is given one. -/
def parityErrorCode : FaultCode → FaultCode
  | .unset => .other "EPARITYREAD"
  | code => code

section Verification

variable (md5 : Md5) (rs : Codec) (o : FileObject) (d : Disks)

/-- No error ends the loop, not even an abort, and none counts as a fault of the slice. -/
def readStored (r : Reader) : List ℕ → List (ℕ × Except FaultCode Bytes) × Reader
  | [] => ([], r)
  | i :: rest =>
    let (answer, r) := readParityChunk md5 o d r i
    let (answers, r) := readStored r rest
    ((i, answer) :: answers, r)

/-- Whether the stored chunk of a parity slice is called wrong. -/
def isMismatched (dataIncomplete : Bool) (buffer : Bytes) (chunkDataSize : ℕ) :
    ℕ × Except FaultCode Bytes → Bool
  | (_, .error _) => false
  | (i, .ok onDisk) => !dataIncomplete && onDisk ≠ block buffer chunkDataSize i

def verifyChunkSetParity (r : Reader) : Except ObjectError (Option ParityReport) × Reader :=
  if hasReachedEOF o r then (.ok none, r)
  else
    let (stored, r) := readStored md5 o d r (parityIndices o)
    match reconstructFullChunkSet md5 rs o d r with
    | (.error e, r) => (.error e, r)
    | (.ok none, r) => (.ok none, r)
    | (.ok (some (buffer, chunkDataSize)), r) =>
      let dataIncomplete := (dataIndices o).any (· ∈ r.failedSlices)
      (.ok (some {
        mismatched := (stored.filter (isMismatched dataIncomplete buffer chunkDataSize)).map (·.1)
        missing := (stored.filter (isFault ·.2)).map (·.1)
        dataIncomplete
        dataRegion := slice buffer 0 (o.dataSliceCount * chunkDataSize)
        chunkDataSize
        parityErrors := stored.filterMap fun
          | (i, .error code) => some (i, parityErrorCode code)
          | (_, .ok _) => none }), r)

/-- What the disks answer when the call asks for a data chunk. -/
def dataAnswer (r : Reader) (i : ℕ) : Except FaultCode Bytes :=
  readSliceChunk md5 o d (readStored md5 o d r (parityIndices o)).2 i

/-- The data chunk is read from its own slice. -/
def Direct (r : Reader) (i : ℕ) : Prop :=
  i ∉ r.failedSlices ∧ ∃ chunk, dataAnswer md5 o d r i = .ok chunk

/-- The slice is counted as failed from this fault on. -/
def Escalates (r : Reader) (i : ℕ) (code : FaultCode) : Prop :=
  code ∈ hardFaultCodes ∨ escalateThreshold ≤ r.faultCounts i + 1

/-- The data slice has been given up before, or is with what the call meets of it. -/
def GivenUp (r : Reader) (i : ℕ) : Prop :=
  i ∈ r.failedSlices ∨ ∃ code, dataAnswer md5 o d r i = .error code ∧ Escalates r i code

/-- A report blames parity on direct evidence alone, and owns up to a reconstruction. -/
structure Evident (r : Reader) (report : ParityReport) : Prop where
  mismatched : ∀ p ∈ report.mismatched, ∃ data onDisk,
    data.length = o.dataSliceCount * r.chunkDataSize ∧
    (∀ i < o.dataSliceCount, i ∉ r.failedSlices ∧
      dataAnswer md5 o d r i = .ok (block data r.chunkDataSize i)) ∧
    (p, .ok onDisk) ∈ (readStored md5 o d r (parityIndices o)).1 ∧
    onDisk ≠ rs.shard o.dataSliceCount o.paritySliceCount r.chunkDataSize data p
  incomplete : (∃ i < o.dataSliceCount, ¬Direct md5 o d r i) → report.dataIncomplete = true

end Verification

variable {md5 : Md5} {rs : Codec} {o : FileObject} {d : Disks}

/-! ## What the call leaves of the fault record -/

/-- Reading the stored parity only takes time and opens slices. -/
theorem readStored_state (r : Reader) (idxs : List ℕ) : ∃ t opened,
    (readStored md5 o d r idxs).2 =
      { r with clock := t, openSliceIdxs := r.openSliceIdxs ++ opened } := by
  induction idxs generalizing r with
  | nil => exact ⟨r.clock, [], by rw [List.append_nil]; rfl⟩
  | cons i rest ih =>
    obtain ⟨t, opened, hstate, -⟩ := @readParityChunk_answer md5 o d r i
    obtain ⟨t', opened', hrest⟩ := ih (readParityChunk md5 o d r i).2
    refine ⟨t', opened ++ opened', ?_⟩
    show (readStored md5 o d (readParityChunk md5 o d r i).2 rest).2 = _
    rw [hrest, hstate, List.append_assoc]

theorem readStored_steady (r : Reader) (idxs : List ℕ) :
    Steady r (readStored md5 o d r idxs).2 := by
  obtain ⟨t, opened, hstate⟩ := @readStored_state md5 o d r idxs
  rw [hstate]
  exact ⟨rfl, rfl, rfl, rfl, rfl, rfl, rfl, List.subset_append_left _ _, List.Subset.refl _⟩

theorem readStored_faults (r : Reader) (idxs : List ℕ) :
    SameFaults r (readStored md5 o d r idxs).2 := by
  obtain ⟨t, opened, hstate⟩ := @readStored_state md5 o d r idxs
  rw [hstate]
  exact ⟨rfl, rfl, rfl⟩

theorem mem_handleSliceFault {r : Reader} {i j : ℕ} {code : FaultCode} :
    j ∈ (handleSliceFault r i code).failedSlices ↔
      j ∈ r.failedSlices ∨ j = i ∧ Escalates r i code := by
  simp only [handleSliceFault]
  by_cases hesc : code ∈ hardFaultCodes ∨ escalateThreshold ≤ r.faultCounts i + 1
  · rw [if_pos hesc, mem_setAdd, Escalates]
    simp [hesc]
  · rw [if_neg hesc, Escalates]
    simp [hesc]

/-- The slices given up by a batch: those whose fault escalates. -/
theorem mem_settle_failed {results : List (ℕ × Except FaultCode Bytes)} {r r' : Reader}
    {s s' : List ℕ} (hnodup : (results.map Prod.fst).Nodup)
    (h : settle r s results = (.ok s', r')) (j : ℕ) : j ∈ r'.failedSlices ↔
      j ∈ r.failedSlices ∨ ∃ code, (j, .error code) ∈ results ∧ Escalates r j code := by
  induction results generalizing r s with
  | nil =>
    cases h
    simp
  | cons p rest ih =>
    obtain ⟨i, answer⟩ := p
    rw [List.map_cons, List.nodup_cons] at hnodup
    cases answer with
    | ok chunk =>
      rw [settle] at h
      rw [ih hnodup.2 h]
      simp [putChunk, Escalates]
    | error code =>
      have hcode : code ≠ .IOABORT := by
        rintro rfl
        cases h
      have hrest : settle (handleSliceFault r i code) s rest = (.ok s', r') := by
        rw [← h, settle]
        exact hcode
      have hcounts : ∀ code', (j, .error code') ∈ rest →
          (Escalates (handleSliceFault r i code) j code' ↔ Escalates r j code') := by
        intro code' hmem
        have hne : j ≠ i := fun hji =>
          hnodup.1 (List.mem_map.mpr ⟨(j, .error code'), hmem, hji⟩)
        simp [Escalates, handleSliceFault, Function.update_of_ne hne]
      rw [ih hnodup.2 hrest, mem_handleSliceFault, or_assoc]
      refine or_congr_right ?_
      constructor
      · rintro (⟨rfl, hesc⟩ | ⟨code', hmem, hesc⟩)
        · exact ⟨code, List.mem_cons_self, hesc⟩
        · exact ⟨code', List.mem_cons_of_mem _ hmem, (hcounts code' hmem).mp hesc⟩
      · rintro ⟨code', hmem, hesc⟩
        rcases List.mem_cons.mp hmem with heq | hmem
        · cases heq
          exact .inl ⟨rfl, hesc⟩
        · exact .inr ⟨code', hmem, (hcounts code' hmem).mpr hesc⟩

/-- Reading parity gives up no data slice. -/
theorem mem_readParity_failed {idxs : List ℕ} (hidx : ∀ i ∈ idxs, o.dataSliceCount ≤ i) {j : ℕ}
    (hj : j < o.dataSliceCount) (r : Reader) (s : List ℕ) :
    j ∈ (readParity md5 o d r s idxs).2.failedSlices ↔ j ∈ r.failedSlices := by
  induction idxs generalizing r s with
  | nil => exact Iff.rfl
  | cons i rest ih =>
    have hrest := ih fun i hi => hidx i (List.mem_cons_of_mem _ hi)
    have hne : j ≠ i := by
      have := hidx i List.mem_cons_self
      omega
    obtain ⟨t, opened, hstate, -⟩ := @readParityChunk_answer md5 o d r i
    have hsame : (readParityChunk md5 o d r i).2.failedSlices = r.failedSlices := by rw [hstate]
    rw [readParity]
    split_ifs with hfull hfailed
    · exact Iff.rfl
    · exact hrest r s
    · generalize readParityChunk md5 o d r i = answer at hsame
      obtain ⟨answer, r₁⟩ := answer
      rw [← hsame]
      cases answer with
      | ok chunk => exact hrest _ _
      | error code =>
        have hfault : j ∈ (handleSliceFault r₁ i code).failedSlices ↔ j ∈ r₁.failedSlices := by
          rw [mem_handleSliceFault]
          simp [hne]
        by_cases hcode : code = .IOABORT
        · subst hcode
          exact Iff.rfl
        · have hstep := (hrest (handleSliceFault r₁ i code) s).trans hfault
          cases code <;> first | exact absurd rfl hcode | exact hstep

theorem reconstruct_failed {r r' : Reader} {sources : List ℕ}
    (h : reconstruct rs o r sources = .ok r') : r'.failedSlices = r.failedSlices := by
  rw [reconstruct] at h
  rcases hb : computeParity o.toGeometry rs (flags sources) _ r.toBase with e | b
  · rw [hb] at h
    cases h
  · rw [hb] at h
    cases h
    rfl

/-- When every data slice has been tried, what is left to assemble gives up none of them. -/
theorem mem_assembleRest_failed {r r' : Reader} {s tried : List ℕ}
    (hparity : ∀ i ∈ r.availableParityIdxs, o.dataSliceCount ≤ i)
    (htried : ∀ i < o.dataSliceCount, i ∈ tried ∨ i ∈ r.failedSlices)
    (h : assembleRest md5 rs o d r s tried = (.ok (), r')) {i : ℕ} (hi : i < o.dataSliceCount) :
    i ∈ r'.failedSlices ↔ i ∈ r.failedSlices := by
  have hnone : (List.range o.dataSliceCount).filter
      (fun i => i ∉ s ∧ i ∉ tried ∧ i ∉ r.failedSlices) = [] := by
    rw [List.filter_eq_nil_iff]
    intro j hj
    have := htried j (List.mem_range.mp hj)
    simp only [decide_eq_true_eq]
    tauto
  have hread := @mem_readParity_failed md5 o d (tick r).availableParityIdxs hparity i hi (tick r) s
  rw [assembleRest, hnone] at h
  simp only [readBatch, List.map_nil, settle] at h
  rcases hpar : readParity md5 o d (tick r) s (tick r).availableParityIdxs with ⟨e | sources, r₁⟩
  · rw [hpar] at h
    cases h
  · rw [hpar] at h hread
    simp only at h
    split_ifs at h with hfew
    · cases h
    · rcases hcompute : reconstruct rs o r₁ sources with e | r₂
      · rw [hcompute] at h
        cases h
      · rw [hcompute] at h
        cases h
        rw [reconstruct_failed hcompute]
        exact hread

/-- A batch of data slices that have not been given up goes through as attempts at each of them. -/
theorem readBatch_spec {r r₁ : Reader} {k n : ℕ} {attempts s : List ℕ} (hp : Prepared o r)
    (hk : r.currentChunkSetIndex = k) (hn : r.chunkDataSize = n) (hnodup : attempts.Nodup)
    (hattempts : ∀ i ∈ attempts, i < o.dataSliceCount ∧ i ∉ r.failedSlices)
    (hbatch : readBatch md5 o d r [] attempts = (.ok s, r₁)) :
    Attempts md5 o d k n (r, [], []) (r₁, s, attempts) ∧
      ∀ i ∈ attempts, isFault (readSliceChunk md5 o d r i) = false → i ∈ s := by
  obtain ⟨r', s', tried', hatt, hout⟩ := @readBatch_attempts md5 o d k n attempts r [] [] hk hn
    (fun i hi => ⟨(hattempts i hi).1, hp.data_open i (hattempts i hi).1 (hattempts i hi).2⟩)
    (by simpa using hnodup) (by simp) (List.Subset.refl _) le_rfl
  rw [hbatch] at hout
  rcases hout with ⟨heq, rfl, -, -, hsources⟩ | ⟨heq, -⟩
  · cases heq
    exact ⟨hatt, hsources⟩
  · cases heq

/-- The data slices given up when a full chunk set is assembled. -/
theorem mem_assembled_failed {r r' : Reader} (hp : Prepared o r)
    (h : assembleDataRegion md5 rs o d true r = (.ok (), r')) {i : ℕ} (hi : i < o.dataSliceCount) :
    i ∈ r'.failedSlices ↔ i ∈ r.failedSlices ∨
      ∃ code, readSliceChunk md5 o d r i = .error code ∧ Escalates r i code := by
  have hneeds : needed o true r = List.range o.dataSliceCount := by simp [needed]
  rw [assembleDataRegion, hneeds] at h
  generalize hatts : (List.range o.dataSliceCount).filter (· ∉ r.failedSlices) = attempts at h
  have hmem : ∀ j, j ∈ attempts ↔ j < o.dataSliceCount ∧ j ∉ r.failedSlices := by
    intro j
    rw [← hatts, List.mem_filter, List.mem_range, decide_eq_true_eq]
  rcases hbatch : readBatch md5 o d r [] attempts with ⟨e | s, r₁⟩
  · rw [hbatch] at h
    cases h
  · rw [hbatch] at h
    have hfst :
        (attempts.map fun i => (i, readSliceChunk md5 o d r i)).map Prod.fst = attempts := by
      rw [List.map_map]
      exact List.map_id _
    have hnodup : attempts.Nodup := hatts ▸ List.nodup_range.filter _
    have hfailed := mem_settle_failed (by rw [hfst]; exact hnodup) hbatch i
    have hgiven : i ∈ r₁.failedSlices ↔ i ∈ r.failedSlices ∨
        ∃ code, readSliceChunk md5 o d r i = .error code ∧ Escalates r i code := by
      rw [hfailed]
      by_cases hold : i ∈ r.failedSlices
      · exact iff_of_true (.inl hold) (.inl hold)
      · refine or_congr_right (exists_congr fun code => and_congr_left' ?_)
        simp [hmem, hi, hold, eq_comm]
    rw [← hgiven]
    have hsteady : Steady r r₁ := attempts_steady (readBatch_spec hp rfl rfl hnodup
      (fun j hj => (hmem j).mp hj) hbatch).1
    have htried : ∀ j < o.dataSliceCount, j ∈ attempts ∨ j ∈ r₁.failedSlices := by
      intro j hj
      by_cases hold : j ∈ r.failedSlices
      · exact .inr (hsteady.failed hold)
      · exact .inl ((hmem j).mpr ⟨hj, hold⟩)
    simp only at h
    split_ifs at h with hmissing
    · refine mem_assembleRest_failed (fun j hj => ?_) htried h hi
      rw [hsteady.parity] at hj
      exact (hp.parity_range j hj).1
    · cases h
      exact Iff.rfl

/-- When every data slice answers, the data region holds what they answer. -/
theorem assembled_direct {r r' : Reader} {k : ℕ} (hcur : Cursor o r k)
    (h : assembleDataRegion md5 rs o d true r = (.ok (), r'))
    (hdirect : ∀ i < o.dataSliceCount, i ∉ r.failedSlices ∧
      ∃ chunk, readSliceChunk md5 o d r i = .ok chunk) :
    ∀ i < o.dataSliceCount, readSliceChunk md5 o d r i =
      .ok (block r'.chunkSetBuffer (o.chunkDataSizeAt k) i) := by
  have hattempts : (needed o true r).filter (· ∉ r.failedSlices) = List.range o.dataSliceCount := by
    rw [List.filter_eq_self.mpr fun i hi => decide_eq_true (hdirect i (needed_lt hi)).1]
    simp [needed]
  have hpresent : ((needed o true r).any (· ∈ r.failedSlices) ||
      (List.range o.dataSliceCount).any fun i => isFault (readSliceChunk md5 o d r i)) = false := by
    rw [Bool.or_eq_false_iff, List.any_eq_false, List.any_eq_false]
    constructor
    · intro i hi
      simpa using (hdirect i (needed_lt hi)).1
    · intro i hi
      obtain ⟨chunk, hchunk⟩ := (hdirect i (List.mem_range.mp hi)).2
      simp [hchunk, isFault]
  rw [assembleDataRegion] at h
  simp only [hattempts, hpresent] at h
  rcases hbatch : readBatch md5 o d r [] (List.range o.dataSliceCount) with ⟨e | s, r₁⟩
  · rw [hbatch] at h
    cases h
  · rw [hbatch] at h
    cases h
    obtain ⟨hatt, hsources⟩ := readBatch_spec hcur.prepared hcur.index hcur.configured.chunk
      List.nodup_range (fun i hi => ⟨List.mem_range.mp hi, (hdirect i (List.mem_range.mp hi)).1⟩)
      hbatch
    intro i hi
    obtain ⟨hnot, chunk, hchunk⟩ := hdirect i hi
    have hmem : i ∈ s := hsources i (List.mem_range.mpr hi) (by rw [hchunk]; rfl)
    have hanswer := @readSliceChunk_answer md5 o d _ _ (hcur.prepared.data_open i hi hnot)
    rw [hchunk, hcur.index, hcur.configured.chunk] at hanswer
    rw [hchunk]
    exact hanswer.2.symm.trans (attempts_reads hcur hatt i hmem).2

theorem map_readStored (r : Reader) (idxs : List ℕ) :
    (readStored md5 o d r idxs).1.map Prod.fst = idxs := by
  induction idxs generalizing r with
  | nil => rfl
  | cons i rest ih => exact congrArg (i :: ·) (ih (readParityChunk md5 o d r i).2)

theorem lt_of_mem_readStored {r : Reader} {p : ℕ} {answer : Except FaultCode Bytes}
    (h : (p, answer) ∈ (readStored md5 o d r (parityIndices o)).1) : p < o.totalSliceCount := by
  have hmem : p ∈ parityIndices o := by
    rw [← @map_readStored md5 o d r (parityIndices o)]
    exact List.mem_map.mpr ⟨_, h, rfl⟩
  exact (List.mem_range'_1.mp hmem).2

/-! ## What a report says -/

/-- Where the entries of a report come from. -/
structure Sourced (md5 : Md5) (rs : Codec) (o : FileObject) (d : Disks) (r : Reader)
    (report : ParityReport) : Prop where
  incomplete : report.dataIncomplete = true ↔ ∃ i < o.dataSliceCount, GivenUp md5 o d r i
  mismatched : ∀ p ∈ report.mismatched, report.dataIncomplete = false ∧
    ∃ onDisk, (p, .ok onDisk) ∈ (readStored md5 o d r (parityIndices o)).1 ∧
      onDisk ≠ rs.shard o.dataSliceCount o.paritySliceCount r.chunkDataSize report.dataRegion p
  length_region : report.dataRegion.length = o.dataSliceCount * r.chunkDataSize
  region : (∀ i < o.dataSliceCount, Direct md5 o d r i) → ∀ i < o.dataSliceCount,
    dataAnswer md5 o d r i = .ok (block report.dataRegion r.chunkDataSize i)

theorem verifyChunkSetParity_end {r : Reader} {k : ℕ} (hcur : Cursor o r k)
    (hk : o.chunkSetCount ≤ k) : verifyChunkSetParity md5 rs o d r = (.ok none, r) := by
  have hsize := mt o.lt_chunkSetCount_iff.mpr (not_lt.mpr hk)
  rw [verifyChunkSetParity, if_pos]
  simp only [hasReachedEOF, hcur.offset, decide_eq_true_eq]
  omega

/-- The entries of a report on a chunk set that has been assembled. -/
theorem sourced_of_assembled {r r₁ r₂ : Reader} {k : ℕ} {snapshot : Bytes}
    (hstored : (readStored md5 o d r (parityIndices o)).2 = r₁) (hcur : Cursor o r k)
    (hasm : assembleDataRegion md5 rs o d true r₁ = (.ok (), r₂)) {failed : List ℕ}
    (hfailed : failed = r₂.failedSlices)
    (hregion : slice snapshot 0 (o.dataSliceCount * o.chunkDataSizeAt k) =
      slice r₂.chunkSetBuffer 0 (o.dataSliceCount * o.chunkDataSizeAt k))
    (hlength : (slice snapshot 0 (o.dataSliceCount * o.chunkDataSizeAt k)).length =
      o.dataSliceCount * o.chunkDataSizeAt k)
    (hshards : ∀ i, i < o.totalSliceCount → block snapshot (o.chunkDataSizeAt k) i =
      rs.shard o.dataSliceCount o.paritySliceCount (o.chunkDataSizeAt k)
        (slice snapshot 0 (o.dataSliceCount * o.chunkDataSizeAt k)) i) {report : ParityReport}
    (hincomplete : report.dataIncomplete = (dataIndices o).any (· ∈ failed))
    (hmismatched : report.mismatched = ((readStored md5 o d r (parityIndices o)).1.filter
      (isMismatched report.dataIncomplete snapshot (o.chunkDataSizeAt k))).map (·.1))
    (hdata : report.dataRegion = slice snapshot 0 (o.dataSliceCount * o.chunkDataSizeAt k)) :
    Sourced md5 rs o d r report := by
  have hsize := hcur.configured.chunk
  have hsteady := @readStored_steady md5 o d r (parityIndices o)
  obtain ⟨hsame, hcounts, -⟩ := @readStored_faults md5 o d r (parityIndices o)
  rw [hstored] at hsteady hsame hcounts
  have hcur₁ := hcur.steady hsteady
  refine ⟨?_, ?_, ?_, ?_⟩
  · rw [hincomplete, hfailed, List.any_eq_true]
    simp only [dataIndices, List.mem_range, decide_eq_true_eq]
    refine exists_congr fun i => and_congr_right fun hi => ?_
    rw [mem_assembled_failed hcur₁.prepared hasm hi, hsame, GivenUp, dataAnswer, hstored]
    simp only [Escalates, hcounts]
  · intro p hp
    rw [hmismatched] at hp
    obtain ⟨⟨_, answer⟩, hmem, rfl⟩ := List.mem_map.mp hp
    obtain ⟨hmem, hwrong⟩ := List.mem_filter.mp hmem
    cases answer with
    | error code => cases hwrong
    | ok onDisk =>
      simp only [isMismatched, Bool.and_eq_true, Bool.not_eq_true', decide_eq_true_eq] at hwrong
      refine ⟨hwrong.1, onDisk, hmem, ?_⟩
      rw [hdata, hsize, ← hshards _ (lt_of_mem_readStored hmem)]
      exact hwrong.2
  · rw [hdata, hsize, hlength]
  · intro hdirect i hi
    have hread := assembled_direct hcur₁ hasm (fun j hj => by
      have := hdirect j hj
      rw [Direct, dataAnswer, hstored] at this
      rw [hsame]
      exact this) i hi
    rw [dataAnswer, hstored, hread, hdata, hregion, hsize, block_clip _ hi]

/-- A call that does not fail says what it has read, and stands on the next chunk set. -/
theorem verifyChunkSetParity_spec (hB : Bounded o.toGeometry)
    (hrs : rs.Recovers o.dataSliceCount o.paritySliceCount) {r : Reader} {k : ℕ}
    (hcur : Cursor o r k) (hk : k < o.chunkSetCount) :
    (∃ e r', verifyChunkSetParity md5 rs o d r = (.error e, r') ∧ Cursor o r' k ∧
      r'.endOffset = r.endOffset) ∨
    ∃ report r', verifyChunkSetParity md5 rs o d r = (.ok (some report), r') ∧
      Cursor o r' (k + 1) ∧ r'.endOffset = r.endOffset ∧ Sourced md5 rs o d r report := by
  obtain ⟨r₁, hstored⟩ : ∃ r₁, (readStored md5 o d r (parityIndices o)).2 = r₁ := ⟨_, rfl⟩
  have hsteady := @readStored_steady md5 o d r (parityIndices o)
  rw [hstored] at hsteady
  have hcur₁ := hcur.steady hsteady
  rw [verifyChunkSetParity, hasReachedEOF_of_lt hcur hk]
  simp only [Bool.false_eq_true, if_false, hstored]
  rcases hasm : assembleDataRegion md5 rs o d true r₁ with ⟨e | _, r₂⟩
  · have hsteady₂ := @assembleDataRegion_steady md5 rs o d hrs r₁ k hcur₁ true
    rw [hasm] at hsteady₂
    rw [reconstructFullChunkSet_failed hcur₁ hk hasm]
    exact .inl ⟨e, r₂, rfl, hcur₁.steady hsteady₂, hsteady₂.finish.trans hsteady.finish⟩
  · obtain ⟨snapshot, r', hresult, hnext, hfaults, hfinish, hregion, hlength, hshards⟩ :=
      reconstructFullChunkSet_assembled hB hrs hcur₁ hk hasm
    have hsteady₂ := @assembleDataRegion_steady md5 rs o d hrs r₁ k hcur₁ true
    rw [hasm] at hsteady₂
    rw [hresult]
    exact .inr ⟨_, r', rfl, hnext, hfinish.trans (hsteady₂.finish.trans hsteady.finish),
      sourced_of_assembled hstored hcur hasm hfaults.1 hregion hlength hshards rfl rfl rfl⟩

theorem Sourced.evident_iff {r : Reader} {report : ParityReport}
    (h : Sourced md5 rs o d r report) : Evident md5 rs o d r report ↔
      (∀ i < o.dataSliceCount, Direct md5 o d r i) ∨
        ∃ i < o.dataSliceCount, GivenUp md5 o d r i := by
  constructor
  · intro hevident
    by_cases hall : ∀ i < o.dataSliceCount, Direct md5 o d r i
    · exact .inl hall
    · refine .inr (h.incomplete.mp (hevident.incomplete ?_))
      simpa using hall
  · rintro (hall | hgiven)
    · refine ⟨fun p hp => ?_, fun ⟨i, hi, hnot⟩ => absurd (hall i hi) hnot⟩
      obtain ⟨-, onDisk, hmem, hne⟩ := h.mismatched p hp
      exact ⟨_, onDisk, h.length_region, fun i hi => ⟨(hall i hi).1, h.region hall i hi⟩, hmem,
        hne⟩
    · have hincomplete := h.incomplete.mpr hgiven
      refine ⟨fun p hp => ?_, fun _ => hincomplete⟩
      have hcomplete := (h.mismatched p hp).1
      rw [hincomplete] at hcomplete
      cases hcomplete

/-! ## The readers there can be -/

/-- A prepared reader, after calls of any kind. -/
inductive Reached (md5 : Md5) (rs : Codec) (o : FileObject) (d : Disks) : Reader → Prop
  | prepared {memory : ℕ → UInt8} {r : Reader} (h : prepare rs o d memory = .ok r) :
      Reached md5 rs o d r
  | ranged {r : Reader} (h : Reached md5 rs o d r) (a b : ℕ) (hab : a < b) (hb : b ≤ o.size) :
      Reached md5 rs o d (setReadRange o r a b)
  | read {r : Reader} (h : Reached md5 rs o d r) : Reached md5 rs o d (readChunk md5 rs o d r).2
  | rebuilt {r : Reader} (h : Reached md5 rs o d r) :
      Reached md5 rs o d (reconstructFullChunkSet md5 rs o d r).2
  | verified {r : Reader} (h : Reached md5 rs o d r) :
      Reached md5 rs o d (verifyChunkSetParity md5 rs o d r).2

theorem Reached.create {r : Reader} (h : Reached md5 rs o d r) :
    rs.create o.dataSliceCount o.paritySliceCount = true := by
  induction h with
  | prepared h =>
    rw [prepare] at h
    split_ifs at h with hcreate
    exact hcreate
  | ranged _ _ _ _ _ ih => exact ih
  | read _ ih => exact ih
  | rebuilt _ ih => exact ih
  | verified _ ih => exact ih

/-- A reader stands on a chunk set and reads no further than the object. -/
structure Standing (o : FileObject) (r : Reader) : Prop where
  cursor : ∃ k, Cursor o r k
  finish : r.endOffset ≤ o.size

theorem Standing.steady {r r' : Reader} (h : Standing o r) (hs : Steady r r') : Standing o r' := by
  obtain ⟨k, hcur⟩ := h.cursor
  exact ⟨⟨k, hcur.steady hs⟩, hs.finish.trans_le h.finish⟩

theorem prepare_standing {memory : ℕ → UInt8} {r : Reader} (h : prepare rs o d memory = .ok r) :
    Standing o r := by
  obtain ⟨hprepared, hlen⟩ := (prepare_spec memory).1 r h
  unfold prepare at h
  split_ifs at h with hcreate
  · simp only at h
    split_ifs at h
    rcases hopen : settleOpens o d _ _ with e | r'
    · rw [hopen] at h
      cases h
    · rw [hopen] at h
      simp only at h
      split_ifs at h
      cases h
      have hsteady := (settleOpens_spec.1 _ hopen).1
      have hc := (@configureStartState_spec o.toGeometry (configureInternals o.toGeometry memory)).1
      have hbase := hsteady.base
      refine ⟨⟨0, ?_, ?_, hsteady.index, hlen, hprepared⟩, hsteady.finish.le⟩
      · show Configured o.toGeometry r'.toBase 0
        rw [hbase]
        exact ⟨hc.chunk, hc.data_size, hc.parity_offset, hc.parity_size, hc.slice_offsets, hc.group⟩
      · show r'.dataOffset = 0
        rw [hbase]
        rfl

theorem readNextChunkSet_standing (hB : Bounded o.toGeometry)
    (hrs : rs.Recovers o.dataSliceCount o.paritySliceCount) {r : Reader} (h : Standing o r)
    (hmore : r.dataOffset < o.size) : Standing o (readNextChunkSet md5 rs o d r).2 := by
  obtain ⟨k, hcur⟩ := h.cursor
  rw [hcur.offset, ← o.lt_chunkSetCount_iff] at hmore
  have hsteady := @assembleDataRegion_steady md5 rs o d hrs r k hcur false
  rw [readNextChunkSet]
  generalize assembleDataRegion md5 rs o d false r = answer at hsteady
  rcases answer with ⟨e | _, r₁⟩
  · exact h.steady hsteady
  · obtain ⟨r₂, hadv, hnext, -, -, hfinish, -⟩ := advanceChunkSet_spec hB (hcur.steady hsteady)
      (by have := o.chunkSetCount_le; omega)
    simp only [hadv]
    exact ⟨⟨_, hnext⟩, (hfinish.trans hsteady.finish).trans_le h.finish⟩

theorem readChunk_standing (hB : Bounded o.toGeometry)
    (hrs : rs.Recovers o.dataSliceCount o.paritySliceCount) {r : Reader} (h : Standing o r) :
    Standing o (readChunk md5 rs o d r).2 := by
  have hflag : ∀ {r : Reader}, Standing o r → Standing o { r with hasReadSegment := true } := by
    rintro r ⟨⟨k, hcur⟩, hfinish⟩
    have hp := hcur.prepared
    exact ⟨⟨k, hcur.configured, hcur.offset, hcur.index, hcur.length_buffer,
      ⟨hp.data_open, hp.parity_range, hp.parity_nodup⟩⟩, hfinish⟩
  rw [readChunk]
  split_ifs with hdone hend
  · exact h
  · exact hflag h
  · have hmore : r.dataOffset < o.size := by
      have := h.finish
      omega
    have hnext := @readNextChunkSet_standing md5 rs o d hB hrs r h hmore
    generalize readNextChunkSet md5 rs o d r = answer at hnext
    rcases answer with ⟨e | data, r₁⟩
    · exact hnext
    · simp only
      split_ifs <;> first | exact hnext | exact hflag hnext

/-- Every reader stands on a chunk set, or behind the last one. -/
theorem Reached.standing (hB : Bounded o.toGeometry)
    (hrs : rs.Recovers o.dataSliceCount o.paritySliceCount) {r : Reader}
    (h : Reached md5 rs o d r) : Standing o r := by
  induction h with
  | prepared h => exact prepare_standing h
  | ranged _ a b hab hb ih =>
    obtain ⟨k, hcur⟩ := ih.cursor
    obtain ⟨k', hact, -, -⟩ := setReadRange_spec hcur.prepared hcur.length_buffer hab hb
    exact ⟨⟨k', hact.toCursor⟩, hact.finish.trans_le hb⟩
  | read _ ih => exact readChunk_standing hB hrs ih
  | @rebuilt r _ ih =>
    obtain ⟨k, hcur⟩ := ih.cursor
    rcases Nat.lt_or_ge k o.chunkSetCount with hk | hk
    · have hsteady := @assembleDataRegion_steady md5 rs o d hrs r k hcur true
      rcases hasm : assembleDataRegion md5 rs o d true r with ⟨e | _, r₁⟩
      · rw [hasm] at hsteady
        rw [reconstructFullChunkSet_failed hcur hk hasm]
        exact ih.steady hsteady
      · rw [hasm] at hsteady
        obtain ⟨_, r', hresult, hnext, -, hfinish, -⟩ :=
          reconstructFullChunkSet_assembled hB hrs hcur hk hasm
        rw [hresult]
        exact ⟨⟨_, hnext⟩, (hfinish.trans hsteady.finish).trans_le ih.finish⟩
    · rw [(reconstructFullChunkSet_spec hB hrs hcur).1 hk]
      exact ih
  | @verified r _ ih =>
    obtain ⟨k, hcur⟩ := ih.cursor
    rcases Nat.lt_or_ge k o.chunkSetCount with hk | hk
    · rcases @verifyChunkSetParity_spec md5 rs o d hB hrs r k hcur hk with
        ⟨e, r', hresult, hcur', hfinish⟩ | ⟨report, r', hresult, hcur', hfinish, -⟩
      · rw [hresult]
        exact ⟨⟨_, hcur'⟩, hfinish.trans_le ih.finish⟩
      · rw [hresult]
        exact ⟨⟨_, hcur'⟩, hfinish.trans_le ih.finish⟩
    · rw [verifyChunkSetParity_end hcur hk]
      exact ih

/-- A report is about direct evidence exactly if every data chunk is read from its own slice, or
some data slice has been given up by the end of the call. -/
theorem parity_blamed_on_evidence (md5 : Md5) (rs : Codec) (hrs : rs.Lawful) (o : FileObject)
    (hfits : HeaderFits o) (d : Disks) (r r' : Reader) (hr : Reached md5 rs o d r)
    (report : ParityReport) (hcall : verifyChunkSetParity md5 rs o d r = (.ok (some report), r')) :
    Evident md5 rs o d r report ↔ (∀ i < o.dataSliceCount, Direct md5 o d r i) ∨
      ∃ i < o.dataSliceCount, GivenUp md5 o d r i := by
  have hB : Bounded o.toGeometry :=
    bounded_of_encodable (hfits.encodable (Nat.add_pos_left o.data_pos _))
  have hrecovers := hrs _ _ hr.create
  obtain ⟨k, hcur⟩ := (hr.standing hB hrecovers).cursor
  rcases Nat.lt_or_ge k o.chunkSetCount with hk | hk
  · rcases @verifyChunkSetParity_spec md5 rs o d hB hrecovers r k hcur hk with
      ⟨e, _, hresult, -⟩ | ⟨_, _, hresult, -, -, hsourced⟩
    · rw [hresult] at hcall
      cases hcall
    · rw [hresult] at hcall
      cases hcall
      exact hsourced.evident_iff
  · rw [verifyChunkSetParity_end hcur hk] at hcall
    cases hcall

/-- One data slice and two parity slices, each a copy of it. -/
def twinObject : FileObject where
  size := 1
  dataSliceCount := 1
  paritySliceCount := 2
  chunkSize := 72
  data_pos := Nat.one_pos
  parity_pos := Nat.two_pos
  chunk_large := smallChunk_large
  chunk_eight := smallChunk_eight
  idBuf := List.replicate 12 0
  md5 := none
  unavailableSliceIdxs := []
  length_idBuf := length_zeroId

def twinFiles (plaintext : Bytes) : ℕ → Bytes :=
  FileObjectWriter.sliceFiles standard replicas twinObject (fun _ => 0) plaintext

/-- The data slice is damaged, and the first parity slice belongs to other data. -/
def foreignDisks : Disks where
  isReadable _ := true
  openFault _ _ := none
  readFault _ i _ := if i = 0 then some .ECHECKSUM else none
  file i := if i = 1 then twinFiles [9] i else twinFiles [7] i

/-- What the first call on a fresh reader reports. -/
def firstReport (d : Disks) : Option ParityReport :=
  match prepare replicas twinObject d (fun _ => 0) with
  | .ok r =>
    match verifyChunkSetParity standard replicas twinObject d r with
    | (.ok report, _) => report
    | (.error _, _) => none
  | .error _ => none

theorem firstReport_call {d : Disks} {report : ParityReport} (h : firstReport d = some report) :
    ∃ r r', Reached standard replicas twinObject d r ∧
      verifyChunkSetParity standard replicas twinObject d r = (.ok (some report), r') := by
  rw [firstReport] at h
  rcases hprep : prepare replicas twinObject d (fun _ => 0) with e | r
  · rw [hprep] at h
    cases h
  · rw [hprep] at h
    simp only at h
    rcases hcall : verifyChunkSetParity standard replicas twinObject d r with ⟨e | result, r'⟩
    · rw [hcall] at h
      cases h
    · rw [hcall] at h
      obtain rfl : result = some report := h
      exact ⟨r, r', .prepared hprep, hcall⟩

/-- The second parity slice is blamed for not being like the first, which has taken the place of the
data slice at its first fault. -/
theorem foreign_report : ∃ r r' report, Reached standard replicas twinObject foreignDisks r ∧
    verifyChunkSetParity standard replicas twinObject foreignDisks r = (.ok (some report), r') ∧
    report.mismatched = [2] ∧ report.dataIncomplete = false := by
  have hrun : (firstReport foreignDisks).any
      (fun report => report.mismatched = [2] ∧ report.dataIncomplete = false) = true := by
    decide +kernel
  obtain ⟨report, hreport, hsays⟩ := (Option.any_eq_true _ _).mp hrun
  obtain ⟨r, r', hreached, hcall⟩ := firstReport_call hreport
  exact ⟨r, r', report, hreached, hcall, of_decide_eq_true hsays⟩

theorem parity_blamed_on_evidence_foreign : ∃ r report,
    (verifyChunkSetParity standard replicas twinObject foreignDisks r).1 = .ok (some report) ∧
    (Evident standard replicas twinObject foreignDisks r report ↔
      (∀ i < 1, Direct standard twinObject foreignDisks r i) ∨
        ∃ i < 1, GivenUp standard twinObject foreignDisks r i) := by
  obtain ⟨r, r', report, hreached, hcall, -⟩ := foreign_report
  exact ⟨r, report, congrArg Prod.fst hcall, parity_blamed_on_evidence standard replicas
    replicas_lawful twinObject (by simp [HeaderFits, twinObject, Geometry.totalSliceCount])
    foreignDisks r r' hreached report hcall⟩

theorem innocent_parity_blamed : ¬ ∀ (r r' : Reader) (report : ParityReport),
    Reached standard replicas twinObject foreignDisks r →
    verifyChunkSetParity standard replicas twinObject foreignDisks r = (.ok (some report), r') →
    Evident standard replicas twinObject foreignDisks r report := by
  intro hall
  obtain ⟨r, r', report, hreached, hcall, hmismatched, -⟩ := foreign_report
  obtain ⟨data, _, -, hdirect, -⟩ := (hall r r' report hreached hcall).mismatched 2
    (by rw [hmismatched]; exact List.mem_singleton_self 2)
  have hanswer := (hdirect 0 Nat.one_pos).2
  rw [dataAnswer, readSliceChunk] at hanswer
  split_ifs at hanswer
  cases hanswer

end ParityVerification
