import Strubs.FileObjectWriter
import Mathlib.Logic.Relation

/-! # Reading an object

Each chunk set is assembled in one shared buffer: the data chunks the range needs, and
when one of them is missing, other chunks until there are enough to reconstruct it. What
the disks answer is an oracle over time, so a failing slice may later succeed. The fault
history of the slices outlives the chunk set. -/
namespace FileObjectReader

open ByteBuffer ErasureCode ChunkPlan MessageDigest SliceFile FileObjectBase

/-- Attempts of one batch run concurrently and share a tick of the clock. -/
structure Disks where
  isReadable : ℕ → Bool
  openFault : (tick sliceIndex : ℕ) → Option FaultCode
  readFault : (tick sliceIndex chunkIndex : ℕ) → Option FaultCode
  file : ℕ → Bytes

structure Reader extends Base where
  hasReadSegment : Bool
  startOffset : ℕ
  endOffset : ℕ
  openSliceIdxs : List ℕ
  availableParityIdxs : List ℕ
  failedSlices : List ℕ
  faultCounts : ℕ → ℕ
  currentChunkSetIndex : ℕ
  clock : ℕ

def escalateThreshold : ℕ := 2

def hardFaultCodes : List FaultCode := [.EOPEN, .ETIMEOUT, .EHEADER, .EUNAVAIL, .ENOENT]

/-- A JavaScript set in insertion order. -/
def setAdd (s : List ℕ) (i : ℕ) : List ℕ := if i ∈ s then s else s ++ [i]

variable (md5 : Md5) (rs : Codec) (o : FileObject) (d : Disks)

def isAvailable (i : ℕ) : Bool := d.isReadable i && !o.unavailableSliceIdxs.contains i

def openSlice (tick i : ℕ) : Except FaultCode Unit :=
  match d.openFault tick i with
  | some code => .error code
  | none => openHeader o i (d.file i)

def handleSliceFault (r : Reader) (i : ℕ) (code : FaultCode) : Reader :=
  let count := r.faultCounts i + 1
  { r with
    faultCounts := Function.update r.faultCounts i count
    failedSlices := if code ∈ hardFaultCodes ∨ escalateThreshold ≤ count
      then setAdd r.failedSlices i else r.failedSlices }

def quorumDetails (r : Reader) (sources : Option (List ℕ)) : QuorumDetails :=
  let allSliceIndexes := List.range o.totalSliceCount
  let available := match sources with
    | some s => s.mergeSort
    | none => allSliceIndexes.filter (· ∉ r.failedSlices)
  { requiredSlices := o.dataSliceCount
    availableSlices := available.length
    totalSlices := o.totalSliceCount
    chunkIndex := r.currentChunkSetIndex
    availableSliceIndexes := available
    missingSliceIndexes := allSliceIndexes.filter (· ∉ available)
    failedSliceIndexes := r.failedSlices.mergeSort }

def quorumError (r : Reader) (sources : Option (List ℕ)) : ObjectError :=
  .quorum (quorumDetails o r sources)

/-- The results of opening the data slices, taken in order. -/
def settleOpens (r : Reader) : List ℕ → Except ObjectError Reader
  | [] => .ok r
  | i :: rest =>
    match openSlice o d r.clock i with
    | .ok _ => settleOpens { r with openSliceIdxs := r.openSliceIdxs ++ [i] } rest
    | .error .IOABORT => .error .ioAbort
    | .error code =>
      let r := handleSliceFault r i code
      settleOpens { r with failedSlices := setAdd r.failedSlices i } rest

def prepare (memory : ℕ → UInt8) : Except ObjectError Reader :=
  if rs.create o.dataSliceCount o.paritySliceCount then
    let base := configureStartState o.toGeometry (configureInternals o.toGeometry memory)
    let dataCandidates := (List.range o.dataSliceCount).filter (isAvailable o d)
    let r : Reader :=
      { base with
        hasReadSegment := false
        startOffset := 0
        endOffset := o.size
        openSliceIdxs := []
        availableParityIdxs :=
          (List.range' o.dataSliceCount o.paritySliceCount).filter (isAvailable o d)
        failedSlices := (List.range o.totalSliceCount).filter (!isAvailable o d ·)
        faultCounts := fun _ => 0
        currentChunkSetIndex := 0
        clock := 0 }
    if dataCandidates.length + r.availableParityIdxs.length < o.dataSliceCount then
      .error (quorumError o r none)
    else
      match settleOpens o d r dataCandidates with
      | .error e => .error e
      | .ok r =>
        if r.openSliceIdxs.length + r.availableParityIdxs.length < o.dataSliceCount then
          .error (quorumError o r none)
        else .ok { r with clock := r.clock + 1 }
  else .error .contextRejected

/-- Every read seeks for itself, so the cursors that this also moves are not state. -/
def setReadRange (r : Reader) (start finish : ℕ) : Reader :=
  let r := { r with hasReadSegment := false, startOffset := start, endOffset := finish }
  if start < o.plan.standardChunkSetOffset then
    { r with
      toBase := configureStartState o.toGeometry { r.toBase with dataOffset := 0 }
      currentChunkSetIndex := 0 }
  else
    let standardChunkSetDataSize := o.plan.standardChunkDataSize * o.dataSliceCount
    let standardChunkSetCount :=
      (start - o.plan.standardChunkSetOffset) / standardChunkSetDataSize
    let base := { r.toBase with
      dataOffset := o.plan.standardChunkSetOffset +
        standardChunkSetCount * standardChunkSetDataSize }
    { r with
      toBase := if start < o.plan.endChunkSetDataOffset
        then configureMiddleState o.toGeometry base else configureEndState o.toGeometry base
      currentChunkSetIndex := 1 + standardChunkSetCount }

def readSliceChunk (r : Reader) (i : ℕ) : Except FaultCode Bytes :=
  if i ∈ r.openSliceIdxs then
    match d.readFault r.clock i r.currentChunkSetIndex with
    | some code => .error code
    | none => readChunkAt md5 (d.file i) (seekToChunkIndex o.plan r.currentChunkSetIndex)
        r.chunkDataSize
  else .error .unset

def sliceOverlapsRange (r : Reader) (i : ℕ) : Bool :=
  let sliceStart := r.dataOffset + i * r.chunkDataSize
  sliceStart < r.endOffset ∧ sliceStart + r.chunkDataSize > r.startOffset

def putChunk (r : Reader) (i : ℕ) (chunk : Bytes) : Reader :=
  { r with chunkSetBuffer := copyInto r.chunkSetBuffer (i * r.chunkDataSize) chunk }

/-- The results of one batch of reads, taken in order. An abort stops the read where it is. -/
def settle (r : Reader) (sources : List ℕ) :
    List (ℕ × Except FaultCode Bytes) → Except ObjectError (List ℕ) × Reader
  | [] => (.ok sources, r)
  | (i, .ok chunk) :: rest => settle (putChunk r i chunk) (setAdd sources i) rest
  | (_, .error .IOABORT) :: _ => (.error .ioAbort, r)
  | (i, .error code) :: rest => settle (handleSliceFault r i code) sources rest

def tick (r : Reader) : Reader := { r with clock := r.clock + 1 }

def ensureSliceOpen (r : Reader) (i : ℕ) : Except FaultCode Unit × Reader :=
  if i ∈ r.openSliceIdxs then (.ok (), r)
  else
    match openSlice o d r.clock i with
    | .ok _ => (.ok (), { tick r with openSliceIdxs := r.openSliceIdxs ++ [i] })
    | .error code => (.error code, tick r)

def readParityChunk (r : Reader) (i : ℕ) : Except FaultCode Bytes × Reader :=
  match ensureSliceOpen o d r i with
  | (.ok _, r) => (readSliceChunk md5 o d r i, tick r)
  | (.error code, r) => (.error code, r)

/-- Parity is read one slice at a time, until the set of sources is full. -/
def readParity (r : Reader) (sources : List ℕ) :
    List ℕ → Except ObjectError (List ℕ) × Reader
  | [] => (.ok sources, r)
  | i :: rest =>
    if o.dataSliceCount ≤ sources.length then (.ok sources, r)
    else if i ∈ r.failedSlices then readParity r sources rest
    else
      match readParityChunk md5 o d r i with
      | (.ok chunk, r) => readParity (putChunk r i chunk) (setAdd sources i) rest
      | (.error .IOABORT, r) => (.error .ioAbort, r)
      | (.error code, r) => readParity (handleSliceFault r i code) sources rest

def readBatch (r : Reader) (sources : List ℕ) (indexes : List ℕ) :
    Except ObjectError (List ℕ) × Reader :=
  settle (tick r) sources (indexes.map fun i => (i, readSliceChunk md5 o d r i))

def isFault {α β : Type} : Except α β → Bool
  | .error _ => true
  | .ok _ => false

def needed (fullRegion : Bool) (r : Reader) : List ℕ :=
  (List.range o.dataSliceCount).filter fun i => fullRegion || sliceOverlapsRange r i

/-- Computes the data slices that are not among the sources. -/
def reconstruct (r : Reader) (sources : List ℕ) : Except ObjectError Reader :=
  let targets := (List.range o.dataSliceCount).filter (· ∉ sources)
  (computeParity o.toGeometry rs (flags sources) (flags targets) r.toBase).map fun b =>
    { r with toBase := b }

/-- Reads what is left of the chunk set, and reconstructs what cannot be read. -/
def assembleRest (r : Reader) (sources tried : List ℕ) : Except ObjectError Unit × Reader :=
  let remaining := (List.range o.dataSliceCount).filter fun i =>
    i ∉ sources ∧ i ∉ tried ∧ i ∉ r.failedSlices
  match readBatch md5 o d r sources remaining with
  | (.error e, r) => (.error e, r)
  | (.ok sources, r) =>
    match readParity md5 o d r sources r.availableParityIdxs with
    | (.error e, r) => (.error e, r)
    | (.ok sources, r) =>
      if sources.length < o.dataSliceCount then (.error (quorumError o r (some sources)), r)
      else
        match reconstruct rs o r sources with
        | .ok r => (.ok (), r)
        | .error e => (.error e, r)

def assembleDataRegion (fullRegion : Bool) (r : Reader) : Except ObjectError Unit × Reader :=
  let needs := needed o fullRegion r
  let neededAttempts := needs.filter (· ∉ r.failedSlices)
  let missingNeeded := needs.any (· ∈ r.failedSlices) ||
    neededAttempts.any fun i => isFault (readSliceChunk md5 o d r i)
  match readBatch md5 o d r [] neededAttempts with
  | (.error e, r) => (.error e, r)
  | (.ok sources, r) =>
    if missingNeeded then assembleRest md5 rs o d r sources neededAttempts else (.ok (), r)

def advanceChunkSet (r : Reader) : Except ObjectError Unit × Reader :=
  let r := { r with
    dataOffset := r.dataOffset + r.chunkSetDataSize
    currentChunkSetIndex := r.currentChunkSetIndex + 1 }
  if r.dataOffset = r.nextChunkGroupOffset then
    match configureNextChunkGroup o.toGeometry r.toBase with
    | .ok b => (.ok (), { r with toBase := b })
    | .error e => (.error e, r)
  else (.ok (), r)

def readNextChunkSet (r : Reader) : Except ObjectError Bytes × Reader :=
  match assembleDataRegion md5 rs o d false r with
  | (.error e, r) => (.error e, r)
  | (.ok _, r) =>
    let data := slice r.chunkSetBuffer 0 r.chunkSetDataSize
    match advanceChunkSet o r with
    | (.ok _, r) => (.ok data, r)
    | (.error e, r) => (.error e, r)

def readChunk (r : Reader) : Except ObjectError (Option Bytes) × Reader :=
  if r.hasReadSegment then (.ok none, r)
  else if r.startOffset ≥ r.endOffset ∨ r.dataOffset ≥ r.endOffset then
    (.ok none, { r with hasReadSegment := true })
  else
    let readOffset := r.dataOffset
    match readNextChunkSet md5 rs o d r with
    | (.error e, r) => (.error e, r)
    | (.ok data, r) =>
      if r.startOffset > readOffset ∧ r.dataOffset < r.startOffset then (.error .misaligned, r)
      else
        let data := if r.startOffset > readOffset then data.drop (r.startOffset - readOffset)
          else data
        if r.dataOffset ≥ r.endOffset then
          (.ok (some (data.take (data.length - (r.dataOffset - r.endOffset)))),
            { r with hasReadSegment := true })
        else (.ok (some data), r)

def hasReachedEOF (r : Reader) : Bool := r.dataOffset ≥ o.size

/-- The repair hook: all chunks of the current chunk set and their size. -/
def reconstructFullChunkSet (r : Reader) :
    Except ObjectError (Option (Bytes × ℕ)) × Reader :=
  if hasReachedEOF o r then (.ok none, r)
  else
    match assembleDataRegion md5 rs o d true r with
    | (.error e, r) => (.error e, r)
    | (.ok _, r) =>
      let chunkDataSize := r.chunkDataSize
      let sourcesBits := Codec.dataFlags o.dataSliceCount
      let targetsBits := Codec.parityFlags o.dataSliceCount o.paritySliceCount
      match computeParity o.toGeometry rs sourcesBits targetsBits r.toBase with
      | .error e => (.error e, r)
      | .ok b =>
        let r := { r with toBase := b }
        let snapshot := slice r.chunkSetBuffer 0 (o.totalSliceCount * chunkDataSize)
        match advanceChunkSet o r with
        | (.ok _, r) => (.ok (some (snapshot, chunkDataSize)), r)
        | (.error e, r) => (.error e, r)

/-- Successive calls of `readChunk`, whatever each of them returns. -/
def readChunks (r : Reader) : ℕ → List (Except ObjectError (Option Bytes)) × Reader
  | 0 => ([], r)
  | n + 1 =>
    let (outcomes, r) := readChunks r n
    let (outcome, r) := readChunk md5 rs o d r
    (outcomes ++ [outcome], r)

/-- The bytes that a list of outcomes has handed out. -/
def delivered (outcomes : List (Except ObjectError (Option Bytes))) : Bytes :=
  outcomes.flatMap fun
    | .ok (some data) => data
    | _ => []


variable {md5 rs o d}

theorem mem_setAdd {s : List ℕ} {i j : ℕ} : j ∈ setAdd s i ↔ j ∈ s ∨ j = i := by
  unfold setAdd
  split_ifs with h
  · constructor
    · exact .inl
    · rintro (hj | rfl)
      · exact hj
      · exact h
  · simp

theorem setAdd_of_notMem {s : List ℕ} {i : ℕ} (h : i ∉ s) : setAdd s i = s ++ [i] := if_neg h

/-! What one attempt at a chunk can do. -/

def ChunkRead (md5 : Md5) (o : FileObject) (d : Disks) (k n i : ℕ) (chunk : Bytes) : Prop :=
  (∃ t, d.readFault t i k = none) ∧
    readChunkAt md5 (d.file i) (seekToChunkIndex o.plan k) n = .ok chunk

def FaultRead (md5 : Md5) (o : FileObject) (d : Disks) (k n i : ℕ) (code : FaultCode) : Prop :=
  (∃ t, d.readFault t i k = some code) ∨
  (∃ t, d.readFault t i k = none) ∧
    readChunkAt md5 (d.file i) (seekToChunkIndex o.plan k) n = .error code ∨
  ∃ t, openSlice o d t i = .error code

def Answer (md5 : Md5) (o : FileObject) (d : Disks) (k n i : ℕ) :
    Except FaultCode Bytes → Prop
  | .ok chunk => ChunkRead md5 o d k n i chunk
  | .error code => FaultRead md5 o d k n i code

/-- Beside the reader: the sources gathered and the slices tried so far. -/
abbrev Assembly := Reader × List ℕ × List ℕ

inductive Attempt (md5 : Md5) (o : FileObject) (d : Disks) (k n : ℕ) : Assembly → Assembly → Prop
  | wait (r : Reader) (s tried : List ℕ) (t : ℕ) (opened : List ℕ) :
      Attempt md5 o d k n (r, s, tried)
        ({ r with clock := t, openSliceIdxs := r.openSliceIdxs ++ opened }, s, tried)
  | put {r : Reader} {s tried : List ℕ} {i : ℕ} {chunk : Bytes} (hi : i < o.totalSliceCount)
      (hnew : i ∉ tried) (hroom : s.length < o.dataSliceCount)
      (hread : ChunkRead md5 o d k n i chunk) :
      Attempt md5 o d k n (r, s, tried) (putChunk r i chunk, s ++ [i], tried ++ [i])
  | fault {r : Reader} {s tried : List ℕ} {i : ℕ} {code : FaultCode}
      (hi : i < o.totalSliceCount) (hnew : i ∉ tried)
      (hread : FaultRead md5 o d k n i code) (hcode : code ≠ .IOABORT) :
      Attempt md5 o d k n (r, s, tried) (handleSliceFault r i code, s, tried ++ [i])

abbrev Attempts (md5 : Md5) (o : FileObject) (d : Disks) (k n : ℕ) :=
  Relation.ReflTransGen (Attempt md5 o d k n)

theorem readSliceChunk_answer {r : Reader} {i : ℕ} (hopen : i ∈ r.openSliceIdxs) :
    Answer md5 o d r.currentChunkSetIndex r.chunkDataSize i (readSliceChunk md5 o d r i) := by
  rw [readSliceChunk, if_pos hopen]
  rcases hf : d.readFault r.clock i r.currentChunkSetIndex with _ | code
  · simp only
    rcases hr : readChunkAt md5 (d.file i) (seekToChunkIndex o.plan r.currentChunkSetIndex)
      r.chunkDataSize with code | chunk
    · exact .inr (.inl ⟨⟨_, hf⟩, hr⟩)
    · exact ⟨⟨_, hf⟩, hr⟩
  · exact .inl ⟨_, hf⟩

theorem readParityChunk_answer (r : Reader) (i : ℕ) : ∃ t opened,
    (readParityChunk md5 o d r i).2 =
      { r with clock := t, openSliceIdxs := r.openSliceIdxs ++ opened } ∧
    Answer md5 o d r.currentChunkSetIndex r.chunkDataSize i
      (readParityChunk md5 o d r i).1 := by
  unfold readParityChunk ensureSliceOpen
  by_cases hopen : i ∈ r.openSliceIdxs
  · rw [if_pos hopen]
    refine ⟨r.clock + 1, [], ?_, readSliceChunk_answer hopen⟩
    rw [List.append_nil]
    rfl
  · rw [if_neg hopen]
    rcases ho : openSlice o d r.clock i with code | _
    · refine ⟨r.clock + 1, [], ?_, .inr (.inr ⟨_, ho⟩)⟩
      rw [List.append_nil]
      rfl
    · refine ⟨r.clock + 2, [i], rfl, ?_⟩
      exact readSliceChunk_answer (r := { tick r with openSliceIdxs := r.openSliceIdxs ++ [i] })
        (by simp)

theorem settle_attempts {k n : ℕ} {results : List (ℕ × Except FaultCode Bytes)}
    {r : Reader} {s tried : List ℕ}
    (hres : ∀ p ∈ results, p.1 < o.dataSliceCount ∧ Answer md5 o d k n p.1 p.2)
    (hnodup : (tried ++ results.map Prod.fst).Nodup) (htried : ∀ i ∈ tried, i < o.dataSliceCount)
    (hsub : s ⊆ tried) (hlen : s.length ≤ tried.length) :
    ∃ r' s' tried', Attempts md5 o d k n (r, s, tried) (r', s', tried') ∧
      (settle r s results = (.ok s', r') ∧ tried' = tried ++ results.map Prod.fst ∧
        s' ⊆ tried' ∧ s'.length ≤ tried'.length ∧ s ⊆ s' ∧
        (∀ p ∈ results, isFault p.2 = false → p.1 ∈ s') ∨
      settle r s results = (.error .ioAbort, r') ∧
        ∃ i, i < o.totalSliceCount ∧ FaultRead md5 o d k n i .IOABORT) := by
  induction results generalizing r s tried with
  | nil => exact ⟨r, s, tried, .refl, .inl ⟨rfl, by simp, hsub, hlen, List.Subset.refl s, by simp⟩⟩
  | cons p rest ih =>
    obtain ⟨i, answer⟩ := p
    obtain ⟨hi, hans⟩ := hres _ List.mem_cons_self
    have hrest : ∀ p ∈ rest, p.1 < o.dataSliceCount ∧ Answer md5 o d k n p.1 p.2 :=
      fun p hp => hres p (List.mem_cons_of_mem _ hp)
    have hperm : tried ++ ((i, answer) :: rest).map Prod.fst =
        tried ++ [i] ++ rest.map Prod.fst := by simp
    rw [hperm] at hnodup ⊢
    have hnd : (tried ++ [i]).Nodup := (List.nodup_append.mp hnodup).1
    have hnew : i ∉ tried := fun h => (List.nodup_append.mp hnd).2.2 i h i (by simp) rfl
    have htried' : ∀ j ∈ tried ++ [i], j < o.dataSliceCount := by
      intro j hj
      rcases List.mem_append.mp hj with hj | hj
      · exact htried j hj
      · rw [List.mem_singleton.mp hj]; exact hi
    have htotal : i < o.totalSliceCount := Nat.lt_add_right _ hi
    rcases answer with code | chunk
    · by_cases hcode : code = .IOABORT
      · subst hcode
        exact ⟨r, s, tried, .refl, .inr ⟨rfl, i, htotal, hans⟩⟩
      · have hsettle : settle r s ((i, .error code) :: rest) =
            settle (handleSliceFault r i code) s rest := by
          rw [settle]
          exact hcode
        obtain ⟨r', s', tried', hatt, hout⟩ := @ih (handleSliceFault r i code) _
          (tried ++ [i]) hrest hnodup htried'
          (List.Subset.trans hsub (List.subset_append_left _ _)) (by simp; omega)
        refine ⟨r', s', tried', .head (.fault htotal hnew hans hcode) hatt, ?_⟩
        rw [hsettle]
        rcases hout with ⟨h1, h2, h3, h4, h5, h6⟩ | h1
        · refine .inl ⟨h1, h2, h3, h4, h5, fun p hp hok => ?_⟩
          rcases List.mem_cons.mp hp with rfl | hp
          · cases hok
          · exact h6 p hp hok
        · exact .inr h1
    · have hroom : s.length < o.dataSliceCount := by
        have hcard : (tried ++ [i]).length ≤ (List.range o.dataSliceCount).length :=
          (List.subperm_of_subset hnd fun j hj =>
            List.mem_range.mpr (htried' j hj)).length_le
        simp at hcard
        omega
      have hadd : setAdd s i = s ++ [i] := setAdd_of_notMem fun h => hnew (hsub h)
      obtain ⟨r', s', tried', hatt, hout⟩ := @ih (putChunk r i chunk) (s ++ [i])
        (tried ++ [i]) hrest hnodup htried'
        (List.append_subset.mpr ⟨List.Subset.trans hsub (List.subset_append_left _ _),
          List.subset_append_right _ _⟩) (by simp; omega)
      refine ⟨r', s', tried', .head (.put htotal hnew hroom hans) hatt, ?_⟩
      rw [settle, hadd]
      rcases hout with ⟨h1, h2, h3, h4, h5, h6⟩ | h1
      · refine .inl ⟨h1, h2, h3, h4, List.Subset.trans (List.subset_append_left _ _) h5,
          fun p hp hok => ?_⟩
        rcases List.mem_cons.mp hp with rfl | hp
        · exact h5 (by simp)
        · exact h6 p hp hok
      · exact .inr h1

/-- Attempts change the buffer, the fault record and what is open, nothing else. -/
structure Steady (r r' : Reader) : Prop where
  base : r'.toBase = { r.toBase with chunkSetBuffer := r'.chunkSetBuffer }
  length : r'.chunkSetBuffer.length = r.chunkSetBuffer.length
  segment : r'.hasReadSegment = r.hasReadSegment
  start : r'.startOffset = r.startOffset
  finish : r'.endOffset = r.endOffset
  parity : r'.availableParityIdxs = r.availableParityIdxs
  index : r'.currentChunkSetIndex = r.currentChunkSetIndex
  opened : r.openSliceIdxs ⊆ r'.openSliceIdxs
  failed : r.failedSlices ⊆ r'.failedSlices

theorem Steady.refl (r : Reader) : Steady r r :=
  ⟨rfl, rfl, rfl, rfl, rfl, rfl, rfl, List.Subset.refl _, List.Subset.refl _⟩

theorem Steady.trans {a b c : Reader} (h : Steady a b) (h' : Steady b c) : Steady a c where
  base := by rw [h'.base, h.base]
  length := h'.length.trans h.length
  segment := h'.segment.trans h.segment
  start := h'.start.trans h.start
  finish := h'.finish.trans h.finish
  parity := h'.parity.trans h.parity
  index := h'.index.trans h.index
  opened := List.Subset.trans h.opened h'.opened
  failed := List.Subset.trans h.failed h'.failed

theorem Steady.chunkDataSize {r r' : Reader} (h : Steady r r') :
    r'.chunkDataSize = r.chunkDataSize := by
  rw [h.base]

theorem handleSliceFault_steady (r : Reader) (i : ℕ) (code : FaultCode) :
    Steady r (handleSliceFault r i code) := by
  refine ⟨rfl, rfl, rfl, rfl, rfl, rfl, rfl, List.Subset.refl _, ?_⟩
  intro j hj
  simp only [handleSliceFault]
  split_ifs
  · exact mem_setAdd.mpr (.inl hj)
  · exact hj

theorem attempt_steady {k n : ℕ} {a b : Assembly} (h : Attempt md5 o d k n a b) :
    Steady a.1 b.1 := by
  cases h with
  | wait r s tried t opened =>
    exact ⟨rfl, rfl, rfl, rfl, rfl, rfl, rfl, List.subset_append_left _ _, List.Subset.refl _⟩
  | put hi hnew hroom hread =>
    exact ⟨rfl, length_copyInto _ _ _, rfl, rfl, rfl, rfl, rfl, List.Subset.refl _,
      List.Subset.refl _⟩
  | fault hi hnew hread hcode => exact handleSliceFault_steady _ _ _

theorem attempts_steady {k n : ℕ} {a b : Assembly} (h : Attempts md5 o d k n a b) :
    Steady a.1 b.1 := by
  induction h with
  | refl => exact .refl _
  | tail _ hstep ih => exact ih.trans (attempt_steady hstep)

/-- Sources are tried slices, and there are never more than needed. -/
structure Gathered (o : FileObject) (a : Assembly) : Prop where
  nodup : a.2.1.Nodup
  tried : a.2.1 ⊆ a.2.2
  bound : a.2.1.length ≤ o.dataSliceCount
  range : ∀ i ∈ a.2.2, i < o.totalSliceCount

theorem attempts_gathered {k n : ℕ} {a b : Assembly} (h : Attempts md5 o d k n a b)
    (ha : Gathered o a) : Gathered o b := by
  induction h with
  | refl => exact ha
  | tail _ hstep ih =>
    cases hstep with
    | wait => exact ⟨ih.nodup, ih.tried, ih.bound, ih.range⟩
    | @put r s tried i chunk hi hnew hroom hread =>
      refine ⟨?_, ?_, ?_, ?_⟩
      · exact List.nodup_append.mpr ⟨ih.nodup, List.nodup_singleton _, fun x hx y hy hxy =>
          hnew (by rw [← List.mem_singleton.mp hy, ← hxy]; exact ih.tried hx)⟩
      · exact List.append_subset.mpr ⟨List.Subset.trans ih.tried (List.subset_append_left _ _),
          List.subset_append_right _ _⟩
      · rw [List.length_append]; exact hroom
      · intro j hj
        rcases List.mem_append.mp hj with hj | hj
        · exact ih.range j hj
        · rw [List.mem_singleton.mp hj]; exact hi
    | @fault r s tried i code hi hnew hread hcode =>
      refine ⟨ih.nodup, List.Subset.trans ih.tried (List.subset_append_left _ _), ih.bound, ?_⟩
      intro j hj
      rcases List.mem_append.mp hj with hj | hj
      · exact ih.range j hj
      · rw [List.mem_singleton.mp hj]; exact hi

theorem readParity_attempts {k n : ℕ} {idxs : List ℕ} {r : Reader} {s tried : List ℕ}
    (hk : r.currentChunkSetIndex = k) (hn : r.chunkDataSize = n)
    (hidx : ∀ i ∈ idxs, i < o.totalSliceCount) (hnodup : (tried ++ idxs).Nodup)
    (hsub : s ⊆ tried) :
    ∃ r' s' tried', Attempts md5 o d k n (r, s, tried) (r', s', tried') ∧ tried ⊆ tried' ∧
      s ⊆ s' ∧
      (readParity md5 o d r s idxs = (.ok s', r') ∧
        (s'.length < o.dataSliceCount → ∀ i ∈ idxs, i ∈ r'.failedSlices ∨ i ∈ tried') ∨
      readParity md5 o d r s idxs = (.error .ioAbort, r') ∧
        ∃ i, i < o.totalSliceCount ∧ FaultRead md5 o d k n i .IOABORT) := by
  induction idxs generalizing r s tried with
  | nil =>
    exact ⟨r, s, tried, .refl, List.Subset.refl _, List.Subset.refl _, .inl ⟨rfl, by simp⟩⟩
  | cons i rest ih =>
    have hrest : ∀ j ∈ rest, j < o.totalSliceCount :=
      fun j hj => hidx j (List.mem_cons_of_mem _ hj)
    have hi := hidx i List.mem_cons_self
    rw [readParity]
    by_cases hfull : o.dataSliceCount ≤ s.length
    · rw [if_pos hfull]
      exact ⟨r, s, tried, .refl, List.Subset.refl _, List.Subset.refl _,
        .inl ⟨rfl, fun h => by omega⟩⟩
    rw [if_neg hfull]
    by_cases hfailed : i ∈ r.failedSlices
    · rw [if_pos hfailed]
      obtain ⟨r', s', tried', hatt, ht, hs, hout⟩ := ih hk hn hrest
        (hnodup.sublist ((List.sublist_cons_self i rest).append_left tried)) hsub
      refine ⟨r', s', tried', hatt, ht, hs, hout.imp_left fun ⟨h1, h2⟩ => ⟨h1, ?_⟩⟩
      intro hlt j hj
      rcases List.mem_cons.mp hj with rfl | hj
      · exact .inl ((attempts_steady hatt).failed hfailed)
      · exact h2 hlt j hj
    rw [if_neg hfailed]
    have hnew : i ∉ tried := fun h =>
      (List.nodup_append.mp hnodup).2.2 i h i List.mem_cons_self rfl
    have hnodup' : (tried ++ [i] ++ rest).Nodup := by simpa using hnodup
    obtain ⟨t, opened, hstate, hans⟩ := @readParityChunk_answer md5 o d r i
    rw [hk, hn] at hans
    have hwait : Attempt md5 o d k n (r, s, tried)
        ((readParityChunk md5 o d r i).2, s, tried) := by
      rw [hstate]; exact .wait r s tried t opened
    have hk' : (readParityChunk md5 o d r i).2.currentChunkSetIndex = k := by rw [hstate]; exact hk
    have hn' : (readParityChunk md5 o d r i).2.chunkDataSize = n := by rw [hstate]; exact hn
    generalize readParityChunk md5 o d r i = answer at hwait hk' hn' hans ⊢
    obtain ⟨answer, r₁⟩ := answer
    have htail : ∀ {r₂ : Reader} {s₂ : List ℕ}, r₂.currentChunkSetIndex = k →
        r₂.chunkDataSize = n → s₂ ⊆ tried ++ [i] → s ⊆ s₂ →
        Attempt md5 o d k n (r₁, s, tried) (r₂, s₂, tried ++ [i]) →
        ∃ r' s' tried', Attempts md5 o d k n (r, s, tried) (r', s', tried') ∧ tried ⊆ tried' ∧
          s ⊆ s' ∧
          (readParity md5 o d r₂ s₂ rest = (.ok s', r') ∧
            (s'.length < o.dataSliceCount →
              ∀ j ∈ i :: rest, j ∈ r'.failedSlices ∨ j ∈ tried') ∨
          readParity md5 o d r₂ s₂ rest = (.error .ioAbort, r') ∧
            ∃ i, i < o.totalSliceCount ∧ FaultRead md5 o d k n i .IOABORT) := by
      intro r₂ s₂ hk₂ hn₂ hsub₂ hs₂ hstep
      obtain ⟨r', s', tried', hatt, ht, hs, hout⟩ := ih hk₂ hn₂ hrest hnodup' hsub₂
      refine ⟨r', s', tried', .head hwait (.head hstep hatt),
        List.Subset.trans (List.subset_append_left _ _) ht, List.Subset.trans hs₂ hs,
        hout.imp_left fun ⟨h1, h2⟩ => ⟨h1, ?_⟩⟩
      intro hlt j hj
      rcases List.mem_cons.mp hj with rfl | hj
      · exact .inr (ht (by simp))
      · exact h2 hlt j hj
    rcases answer with code | chunk
    · by_cases hcode : code = .IOABORT
      · subst hcode
        exact ⟨r₁, s, tried, .single hwait, List.Subset.refl _, List.Subset.refl _,
          .inr ⟨rfl, i, hi, hans⟩⟩
      · have hout := @htail (handleSliceFault r₁ i code) s hk' hn'
          (List.Subset.trans hsub (List.subset_append_left _ _)) (List.Subset.refl _)
          (.fault hi hnew hans hcode)
        cases code <;> first | exact absurd rfl hcode | exact hout
    · simp only [setAdd_of_notMem fun h => hnew (hsub h)]
      exact @htail (putChunk r₁ i chunk) (s ++ [i]) hk' hn'
        (List.append_subset.mpr ⟨List.Subset.trans hsub (List.subset_append_left _ _),
          List.subset_append_right _ _⟩) (List.subset_append_left _ _)
        (.put hi hnew (by omega) hans)

/-- What `prepare` leaves behind and every later call keeps. -/
structure Prepared (o : FileObject) (r : Reader) : Prop where
  data_open : ∀ i, i < o.dataSliceCount → i ∉ r.failedSlices → i ∈ r.openSliceIdxs
  parity_range : ∀ i ∈ r.availableParityIdxs, o.dataSliceCount ≤ i ∧ i < o.totalSliceCount
  parity_nodup : r.availableParityIdxs.Nodup

theorem Prepared.steady {r r' : Reader} (hp : Prepared o r) (h : Steady r r') :
    Prepared o r' where
  data_open i hi hnot := h.opened (hp.data_open i hi fun hf => hnot (h.failed hf))
  parity_range := by rw [h.parity]; exact hp.parity_range
  parity_nodup := by rw [h.parity]; exact hp.parity_nodup

theorem readBatch_attempts {k n : ℕ} {idxs : List ℕ} {r : Reader} {s tried : List ℕ}
    (hk : r.currentChunkSetIndex = k) (hn : r.chunkDataSize = n)
    (hidx : ∀ i ∈ idxs, i < o.dataSliceCount ∧ i ∈ r.openSliceIdxs)
    (hnodup : (tried ++ idxs).Nodup) (htried : ∀ i ∈ tried, i < o.dataSliceCount)
    (hsub : s ⊆ tried) (hlen : s.length ≤ tried.length) :
    ∃ r' s' tried', Attempts md5 o d k n (r, s, tried) (r', s', tried') ∧
      (readBatch md5 o d r s idxs = (.ok s', r') ∧ tried' = tried ++ idxs ∧ s' ⊆ tried' ∧
        s ⊆ s' ∧ (∀ i ∈ idxs, isFault (readSliceChunk md5 o d r i) = false → i ∈ s') ∨
      readBatch md5 o d r s idxs = (.error .ioAbort, r') ∧
        ∃ i, i < o.totalSliceCount ∧ FaultRead md5 o d k n i .IOABORT) := by
  have hfst : (idxs.map fun i => (i, readSliceChunk md5 o d r i)).map Prod.fst = idxs := by
    rw [List.map_map]
    exact List.map_id _
  have hres : ∀ p ∈ idxs.map fun i => (i, readSliceChunk md5 o d r i),
      p.1 < o.dataSliceCount ∧ Answer md5 o d k n p.1 p.2 := by
    intro p hp
    obtain ⟨i, hi, rfl⟩ := List.mem_map.mp hp
    have hans := @readSliceChunk_answer md5 o d _ _ (hidx i hi).2
    rw [hk, hn] at hans
    exact ⟨(hidx i hi).1, hans⟩
  obtain ⟨r', s', tried', hatt, hout⟩ := settle_attempts (r := tick r) hres
    (by rw [hfst]; exact hnodup) htried hsub hlen
  have hwait : Attempt md5 o d k n (r, s, tried) (tick r, s, tried) := by
    have := @Attempt.wait md5 o d k n r s tried
      (r.clock + 1) []
    rwa [List.append_nil] at this
  refine ⟨r', s', tried', .head hwait hatt, ?_⟩
  rw [hfst] at hout
  rcases hout with ⟨h1, h2, h3, -, h5, h6⟩ | h1
  · exact .inl ⟨h1, h2, h3, h5, fun i hi hok => h6 _ (List.mem_map_of_mem hi) hok⟩
  · exact .inr h1

/-- A batch gathers the slices that answer. -/
theorem settle_sources {results : List (ℕ × Except FaultCode Bytes)} {r r' : Reader}
    {s s' : List ℕ} (h : settle r s results = (.ok s', r')) {i : ℕ} (hi : i ∈ s') :
    i ∈ s ∨ ∃ chunk, (i, .ok chunk) ∈ results := by
  induction results generalizing r s with
  | nil =>
    rw [settle] at h
    cases h
    exact .inl hi
  | cons p rest ih =>
    obtain ⟨j, code | chunk⟩ := p
    · by_cases hcode : code = .IOABORT
      · subst hcode
        cases h
      · have hsettle : settle r s ((j, .error code) :: rest) =
            settle (handleSliceFault r j code) s rest := by
          rw [settle]
          exact hcode
        rw [hsettle] at h
        exact (ih h).imp_right fun ⟨chunk, hmem⟩ => ⟨chunk, List.mem_cons_of_mem _ hmem⟩
    · rw [settle] at h
      rcases ih h with hs | ⟨chunk', hmem⟩
      · rcases mem_setAdd.mp hs with hs | rfl
        · exact .inl hs
        · exact .inr ⟨chunk, List.mem_cons_self⟩
      · exact .inr ⟨chunk', List.mem_cons_of_mem _ hmem⟩

theorem readBatch_sources {idxs : List ℕ} {r r' : Reader} {s s' : List ℕ}
    (h : readBatch md5 o d r s idxs = (.ok s', r')) {i : ℕ} (hi : i ∈ s') :
    i ∈ s ∨ i ∈ idxs ∧ isFault (readSliceChunk md5 o d r i) = false := by
  refine (settle_sources h hi).imp_right fun ⟨chunk, hmem⟩ => ?_
  obtain ⟨j, hj, heq⟩ := List.mem_map.mp hmem
  obtain ⟨rfl, hread⟩ := Prod.mk.inj heq
  exact ⟨hj, by rw [hread]; rfl⟩

theorem readParity_sources {idxs : List ℕ} {r r' : Reader} {s s' : List ℕ}
    (h : readParity md5 o d r s idxs = (.ok s', r')) {i : ℕ} (hi : i ∈ s') : i ∈ s ∨ i ∈ idxs := by
  induction idxs generalizing r s with
  | nil =>
    rw [readParity] at h
    cases h
    exact .inl hi
  | cons j rest ih =>
    have hrest : ∀ {r₁ : Reader} {s₁ : List ℕ}, readParity md5 o d r₁ s₁ rest = (.ok s', r') →
        (i ∈ s₁ → i ∈ s ∨ i = j) → i ∈ s ∨ i ∈ j :: rest := by
      intro r₁ s₁ h₁ hs₁
      rcases ih h₁ with hs | hmem
      · exact (hs₁ hs).imp_right fun hij => by rw [hij]; exact List.mem_cons_self
      · exact .inr (List.mem_cons_of_mem _ hmem)
    rw [readParity] at h
    split_ifs at h with hfull hfailed
    · cases h
      exact .inl hi
    · exact hrest h .inl
    · rcases hread : readParityChunk md5 o d r j with ⟨code | chunk, r₁⟩
      · rw [hread] at h
        by_cases hcode : code = .IOABORT
        · subst hcode
          cases h
        · have hnext : readParity md5 o d (handleSliceFault r₁ j code) s rest = (.ok s', r') := by
            cases code <;> first | exact absurd rfl hcode | exact h
          exact hrest hnext .inl
      · rw [hread] at h
        exact hrest h fun hs => mem_setAdd.mp hs

/-- The ways an assembly can end. -/
inductive Assembled (md5 : Md5) (rs : Codec) (o : FileObject) (d : Disks) (k n : ℕ)
    (r : Reader) (needs : List ℕ) : Except ObjectError Unit × Reader → Prop
  | aborted {r' : Reader} {s tried : List ℕ}
      (hatt : Attempts md5 o d k n (r, [], []) (r', s, tried))
      (habort : ∃ i, i < o.totalSliceCount ∧ FaultRead md5 o d k n i .IOABORT) :
      Assembled md5 rs o d k n r needs (.error .ioAbort, r')
  | direct {r' : Reader} {s tried : List ℕ}
      (hatt : Attempts md5 o d k n (r, [], []) (r', s, tried)) (hall : ∀ i ∈ needs, i ∈ s) :
      Assembled md5 rs o d k n r needs (.ok (), r')
  | reconstructed {r' r'' : Reader} {s tried : List ℕ}
      (hatt : Attempts md5 o d k n (r, [], []) (r', s, tried))
      (hfull : o.dataSliceCount ≤ s.length)
      (hmissing : ∃ i ∈ needs, i ∈ r.failedSlices ∨ ∃ code, FaultRead md5 o d k n i code)
      (hcompute : reconstruct rs o r' s = .ok r'') :
      Assembled md5 rs o d k n r needs (.ok (), r'')
  | refused {r' : Reader} {s tried : List ℕ} {e : ObjectError}
      (hatt : Attempts md5 o d k n (r, [], []) (r', s, tried))
      (hfull : o.dataSliceCount ≤ s.length)
      (hmissing : ∃ i ∈ needs, i ∈ r.failedSlices ∨ ∃ code, FaultRead md5 o d k n i code)
      (htarget : ∃ i, i < o.dataSliceCount ∧ i ∉ s)
      (hcompute : reconstruct rs o r' s = .error e) :
      Assembled md5 rs o d k n r needs (.error e, r')
  | lost {r' : Reader} {s tried : List ℕ}
      (hatt : Attempts md5 o d k n (r, [], []) (r', s, tried))
      (hfew : s.length < o.dataSliceCount)
      (hmissing : ∃ i ∈ needs, i ∈ r.failedSlices ∨ ∃ code, FaultRead md5 o d k n i code)
      (htried : ∀ i, i < o.dataSliceCount ∨ i ∈ r.availableParityIdxs →
        i ∈ r'.failedSlices ∨ i ∈ tried) :
      Assembled md5 rs o d k n r needs (.error (quorumError o r' (some s)), r')

theorem needed_lt {full : Bool} {r : Reader} {i : ℕ} (h : i ∈ needed o full r) :
    i < o.dataSliceCount :=
  List.mem_range.mp (List.mem_filter.mp h).1

theorem assembleDataRegion_spec {k n : ℕ} {r : Reader} (hk : r.currentChunkSetIndex = k)
    (hn : r.chunkDataSize = n) (hp : Prepared o r) (full : Bool) :
    Assembled md5 rs o d k n r (needed o full r) (assembleDataRegion md5 rs o d full r) := by
  have hnodup : (needed o full r).Nodup := List.nodup_range.filter _
  have hattempts : ∀ i ∈ (needed o full r).filter (· ∉ r.failedSlices),
      i < o.dataSliceCount ∧ i ∈ r.openSliceIdxs := by
    intro i hi
    obtain ⟨hneed, hok⟩ := List.mem_filter.mp hi
    exact ⟨needed_lt hneed, hp.data_open i (needed_lt hneed) (of_decide_eq_true hok)⟩
  unfold assembleDataRegion
  simp only
  generalize hatts : (needed o full r).filter (· ∉ r.failedSlices) = attempts at hattempts ⊢
  have hatts_nodup : attempts.Nodup := hatts ▸ hnodup.filter _
  obtain ⟨r₁, s₁, tried₁, hatt₁, hout₁⟩ := @readBatch_attempts _ _ _ _ _ _ _ [] [] hk hn
    hattempts hatts_nodup (by simp) (by simp) (by simp)
  rcases hout₁ with ⟨hbatch, htr, hsub₁, -, hok₁⟩ | hbatch
  · rw [hbatch]
    rw [htr, List.nil_append] at hatt₁ hsub₁
    simp only
    by_cases hmissing : ((needed o full r).any (· ∈ r.failedSlices) ||
        attempts.any fun i => isFault (readSliceChunk md5 o d r i)) = true
    · rw [if_pos hmissing]
      have hneed : ∃ i ∈ needed o full r,
          i ∈ r.failedSlices ∨ ∃ code, FaultRead md5 o d k n i code := by
        simp only [Bool.or_eq_true, List.any_eq_true, decide_eq_true_eq] at hmissing
        rcases hmissing with ⟨i, hi, hf⟩ | ⟨i, hi, hf⟩
        · exact ⟨i, hi, .inl hf⟩
        · have hans := @readSliceChunk_answer md5 o d _ _ (hattempts i hi).2
          rw [hk, hn] at hans
          refine ⟨i, (List.mem_filter.mp (hatts ▸ hi)).1, .inr ?_⟩
          generalize readSliceChunk md5 o d r i = answer at hf hans
          rcases answer with code | chunk
          · exact ⟨code, hans⟩
          · cases hf
      have hsteady₁ := attempts_steady hatt₁
      have hlost : ∃ i ∈ needed o full r, i ∉ s₁ ∧ ¬(i ∉ attempts ∧ i ∉ r₁.failedSlices) := by
        simp only [Bool.or_eq_true, List.any_eq_true, decide_eq_true_eq] at hmissing
        rcases hmissing with ⟨i, hi, hf⟩ | ⟨i, hi, hf⟩
        · refine ⟨i, hi, fun hsource => ?_, fun hnot => hnot.2 (hsteady₁.failed hf)⟩
          rcases readBatch_sources hbatch hsource with hsource | ⟨hmem, -⟩
          · cases hsource
          · rw [← hatts] at hmem
            exact of_decide_eq_true (List.mem_filter.mp hmem).2 hf
        · refine ⟨i, (List.mem_filter.mp (hatts ▸ hi)).1, fun hsource => ?_, fun hnot => hnot.1 hi⟩
          rcases readBatch_sources hbatch hsource with hsource | ⟨-, hok⟩
          · cases hsource
          · rw [hf] at hok
            cases hok
      have hp₁ := hp.steady hsteady₁
      unfold assembleRest
      simp only
      generalize hrem : (List.range o.dataSliceCount).filter
        (fun i => i ∉ s₁ ∧ i ∉ attempts ∧ i ∉ r₁.failedSlices) = remaining
      have hrem_mem : ∀ i, i ∈ remaining ↔ i < o.dataSliceCount ∧ i ∉ s₁ ∧ i ∉ attempts ∧
          i ∉ r₁.failedSlices := by
        intro i
        rw [← hrem, List.mem_filter, List.mem_range, decide_eq_true_eq]
      have hnodup₂ : (attempts ++ remaining).Nodup :=
        List.nodup_append.mpr ⟨hatts_nodup, hrem ▸ List.nodup_range.filter _,
          fun i hi j hj hij => ((hrem_mem j).mp hj).2.2.1 (hij ▸ hi)⟩
      have hlen₁ : s₁.length ≤ attempts.length :=
        (List.subperm_of_subset (attempts_gathered hatt₁ ⟨List.nodup_nil, List.Subset.refl _,
          Nat.zero_le _, by simp⟩).nodup hsub₁).length_le
      obtain ⟨r₂, s₂, tried₂, hatt₂, hout₂⟩ := @readBatch_attempts md5 _ d _ _
        remaining _ s₁ attempts (hsteady₁.index.trans hk) (hsteady₁.chunkDataSize.trans hn)
        (fun i hi => ⟨((hrem_mem i).mp hi).1,
          hp₁.data_open i ((hrem_mem i).mp hi).1 ((hrem_mem i).mp hi).2.2.2⟩) hnodup₂
        (fun i hi => (hattempts i hi).1) hsub₁ hlen₁
      rcases hout₂ with ⟨hbatch₂, rfl, hsub₂, -, -⟩ | hbatch₂
      · rw [hbatch₂]
        simp only
        have hatt₁₂ := hatt₁.trans hatt₂
        have hsteady₂ := attempts_steady hatt₁₂
        have hparity : ∀ i ∈ r₂.availableParityIdxs,
            o.dataSliceCount ≤ i ∧ i < o.totalSliceCount := (hp.steady hsteady₂).parity_range
        have hnodup₃ : (attempts ++ remaining ++ r₂.availableParityIdxs).Nodup := by
          refine List.nodup_append.mpr ⟨hnodup₂, (hp.steady hsteady₂).parity_nodup, ?_⟩
          intro i hi j hj hij
          have hge := (hparity j hj).1
          rcases List.mem_append.mp hi with hi | hi
          · have := (hattempts i hi).1; omega
          · have := ((hrem_mem i).mp hi).1; omega
        obtain ⟨r₃, s₃, tried₃, hatt₃, ht₃, -, hout₃⟩ := @readParity_attempts md5
          o d _ _ _ _ _ _ (hsteady₂.index.trans hk) (hsteady₂.chunkDataSize.trans hn)
          (fun i hi => (hparity i hi).2) hnodup₃ hsub₂
        have hatt := hatt₁₂.trans hatt₃
        rcases hout₃ with ⟨hpar, hall⟩ | hpar
        · rw [hpar]
          simp only
          by_cases hfew : s₃.length < o.dataSliceCount
          · rw [if_pos hfew]
            refine .lost hatt hfew hneed ?_
            rintro i (hi | hi)
            · by_cases hf : i ∈ r₃.failedSlices
              · exact .inl hf
              · refine .inr (ht₃ ?_)
                by_cases hia : i ∈ attempts
                · exact List.mem_append_left _ hia
                · refine List.mem_append_right _ ((hrem_mem i).mpr ⟨hi, ?_, hia, ?_⟩)
                  · exact fun h => hia (hsub₁ h)
                  · exact fun h => hf ((attempts_steady (hatt₂.trans hatt₃)).failed h)
            · exact hall hfew i (by rw [hsteady₂.parity]; exact hi)
          · rw [if_neg hfew]
            rcases hcompute : reconstruct rs o r₃ s₃ with e | r₄
            · refine .refused hatt (by omega) hneed ?_ hcompute
              obtain ⟨i, hi, hbad⟩ := hlost
              refine ⟨i, needed_lt hi, fun hsource => ?_⟩
              rcases readParity_sources hpar hsource with hsource | hmem
              · rcases readBatch_sources hbatch₂ hsource with hsource | ⟨hmem, -⟩
                · exact hbad.1 hsource
                · exact hbad.2 ((hrem_mem i).mp hmem).2.2
              · have := (hparity i hmem).1
                have := needed_lt hi
                omega
            · exact .reconstructed hatt (by omega) hneed hcompute
        · rw [hpar.1]
          exact .aborted hatt hpar.2
      · rw [hbatch₂.1]
        exact .aborted (hatt₁.trans hatt₂) hbatch₂.2
    · rw [if_neg hmissing]
      refine .direct hatt₁ ?_
      simp only [Bool.or_eq_true, List.any_eq_true, decide_eq_true_eq, not_or, not_exists,
        not_and] at hmissing
      intro i hi
      have hia : i ∈ attempts := hatts ▸ List.mem_filter.mpr ⟨hi, by simpa using hmissing.1 i hi⟩
      exact hok₁ i hia (by simpa using hmissing.2 i hia)
  · rw [hbatch.1]
    exact .aborted hatt₁ hbatch.2

end FileObjectReader
