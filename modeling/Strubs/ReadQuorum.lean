import Strubs.ObjectRoundTrip

/-! # When a read fails

A read may fail for lack of slices although enough of them could be read, because a slice
that was faulty in two chunk sets is not tried again. What a failure does say about the
chunk set follows from the fault record, which counts every chunk set at most once. -/
namespace ReadQuorum

open ByteBuffer ErasureCode ChunkPlan MessageDigest SliceFile FileObjectBase FileObjectReader
  ReadSession ObjectRoundTrip
open FileObjectWriter (Written)

variable {md5 : Md5} {rs : Codec} {o : FileObject} {memory : ℕ → UInt8} {plaintext : Bytes}
  {d : Disks}

/-- Every slice is available and opens, and whether a chunk can be read never changes. -/
structure SoftFaults (o : FileObject) (d : Disks) (faults : ℕ → ℕ → Option FaultCode) : Prop where
  available : ∀ i, i < o.totalSliceCount → isAvailable o d i = true
  open_ok : ∀ t i, d.openFault t i = none
  fixed : ∀ t i k, d.readFault t i k = faults i k
  soft : ∀ i k code, faults i k = some code → code ∉ hardFaultCodes ∧ code ≠ .IOABORT

/-- In how many chunk sets from `c` up to `k` the slice is faulty. -/
def faultyBefore (faults : ℕ → ℕ → Option FaultCode) (c k i : ℕ) : ℕ :=
  ((List.range' c (k - c)).filter fun j => (faults i j).isSome).length

theorem faultyBefore_succ (faults : ℕ → ℕ → Option FaultCode) {c k : ℕ} (h : c ≤ k) (i : ℕ) :
    faultyBefore faults c (k + 1) i =
      faultyBefore faults c k i + if (faults i k).isSome then 1 else 0 := by
  unfold faultyBefore
  rw [show k + 1 - c = k - c + 1 by omega, List.range'_1_concat, List.filter_append,
    List.length_append, show c + (k - c) = k by omega]
  by_cases hf : (faults i k).isSome = true <;> simp [hf]

/-- The fault record of a read that has passed the chunk sets from `c` to `k`. -/
structure History (o : FileObject) (faults : ℕ → ℕ → Option FaultCode) (c k : ℕ) (r : Reader) :
    Prop where
  counts : ∀ i, r.faultCounts i ≤ faultyBefore faults c k i
  failed : ∀ i ∈ r.failedSlices, escalateThreshold ≤ r.faultCounts i
  parity : r.availableParityIdxs = List.range' o.dataSliceCount o.paritySliceCount

/-- The same in the middle of chunk set `k`, which tries a slice at most once. -/
structure MidHistory (faults : ℕ → ℕ → Option FaultCode) (c k : ℕ) (a : Assembly) : Prop where
  counts : ∀ i, a.1.faultCounts i ≤
    faultyBefore faults c k i + if i ∈ a.2.2 ∧ (faults i k).isSome then 1 else 0
  failed : ∀ i ∈ a.1.failedSlices, escalateThreshold ≤ a.1.faultCounts i
  gathered : ∀ i ∈ a.2.2, faults i k = none → i ∈ a.2.1

variable {faults : ℕ → ℕ → Option FaultCode}

theorem SoftFaults.faultRead (hd : SoftFaults o d faults)
    (h : Stored md5 rs o memory plaintext d) {k i : ℕ} {code : FaultCode}
    (hk : k < o.chunkSetCount) (hi : i < o.totalSliceCount)
    (hf : FaultRead md5 o d k (o.chunkDataSizeAt k) i code) : faults i k = some code := by
  rcases h.faultRead hk hi hf with ⟨t, ht⟩ | ⟨t, ht⟩
  · rw [← hd.fixed t, ht]
  · rw [hd.open_ok] at ht; cases ht

theorem attempts_midHistory (hd : SoftFaults o d faults)
    (h : Stored md5 rs o memory plaintext d) {c k : ℕ} (hk : k < o.chunkSetCount)
    {a b : Assembly} (hatt : Attempts md5 o d k (o.chunkDataSizeAt k) a b)
    (ha : MidHistory faults c k a) : MidHistory faults c k b := by
  induction hatt with
  | refl => exact ha
  | tail _ hstep ih =>
    cases hstep with
    | wait => exact ⟨ih.counts, ih.failed, ih.gathered⟩
    | @put r s tried i chunk hi hnew hroom hread =>
      obtain ⟨⟨t, ht⟩, -⟩ := hread
      rw [hd.fixed] at ht
      refine ⟨fun j => (ih.counts j).trans ?_, ih.failed, fun j hj hok => ?_⟩
      · by_cases hj : j ∈ tried ∧ (faults j k).isSome = true
        · rw [if_pos hj, if_pos ⟨List.mem_append_left _ hj.1, hj.2⟩]
        · rw [if_neg hj]; exact Nat.le_add_right _ _
      · rcases List.mem_append.mp hj with hj | hj
        · exact List.mem_append_left _ (ih.gathered j hj hok)
        · exact List.mem_append_right _ hj
    | @fault r s tried i code hi hnew hread hcode =>
      have hf := hd.faultRead h hk hi hread
      have hsoft := (hd.soft i k code hf).1
      have hbefore := ih.counts i
      rw [if_neg fun hj => hnew hj.1] at hbefore
      refine ⟨fun j => ?_, fun j hj => ?_, fun j hj hok => ?_⟩
      · simp only [handleSliceFault]
        by_cases hji : j = i
        · subst hji
          rw [Function.update_self, if_pos ⟨by simp, by rw [hf]; rfl⟩]
          exact Nat.add_le_add_right hbefore 1
        · rw [Function.update_of_ne hji]
          refine (ih.counts j).trans ?_
          by_cases hj : j ∈ tried ∧ (faults j k).isSome = true
          · rw [if_pos hj, if_pos ⟨List.mem_append_left _ hj.1, hj.2⟩]
          · rw [if_neg hj]; exact Nat.le_add_right _ _
      · simp only [handleSliceFault] at hj ⊢
        have hold : j ∈ r.failedSlices →
            escalateThreshold ≤ Function.update r.faultCounts i (r.faultCounts i + 1) j := by
          intro hmem
          have := ih.failed j hmem
          by_cases hji : j = i
          · subst hji; rw [Function.update_self]; exact this.trans (Nat.le_succ _)
          · rwa [Function.update_of_ne hji]
        split_ifs at hj with hesc
        · rcases mem_setAdd.mp hj with hj | rfl
          · exact hold hj
          · rw [Function.update_self]
            exact hesc.resolve_left hsoft
        · exact hold hj
      · rcases List.mem_append.mp hj with hj | hj
        · exact ih.gathered j hj hok
        · rw [List.mem_singleton.mp hj, hf] at hok
          cases hok

theorem History.mid {c k : ℕ} {r : Reader} (h : History o faults c k r) :
    MidHistory faults c k (r, [], []) :=
  ⟨fun i => (h.counts i).trans (Nat.le_add_right _ _), h.failed, by simp⟩

theorem MidHistory.next {c k : ℕ} (hc : c ≤ k) {r r' : Reader} {s tried : List ℕ}
    (h : MidHistory faults c k (r, s, tried)) (hsame : SameFaults r r')
    (hpar : r.availableParityIdxs = List.range' o.dataSliceCount o.paritySliceCount) :
    History o faults c (k + 1) r' := by
  obtain ⟨hs1, hs2, hs3⟩ := hsame
  refine ⟨fun i => ?_, ?_, hs3.trans hpar⟩
  · rw [hs2, faultyBefore_succ faults hc]
    refine (h.counts i).trans (Nat.add_le_add_left ?_ _)
    by_cases hf : (faults i k).isSome = true
    · rw [if_pos hf]
      split_ifs <;> omega
    · rw [if_neg hf, if_neg fun hj => hf hj.2]
  · rw [hs1, hs2]
    exact h.failed

/-- In chunk set `k` the redundancy is exhausted: a needed slice cannot be used, and too
few others can. A slice that was faulty in two earlier chunk sets is not tried again. -/
def Exhausted (o : FileObject) (faults : ℕ → ℕ → Option FaultCode) (a b c k : ℕ) : Prop :=
  (∃ i, i < o.dataSliceCount ∧ o.chunkSetOffset k + i * o.chunkDataSizeAt k < b ∧
    a < o.chunkSetOffset k + i * o.chunkDataSizeAt k + o.chunkDataSizeAt k ∧
    ((faults i k).isSome = true ∨ escalateThreshold ≤ faultyBefore faults c k i)) ∧
  ((List.range o.totalSliceCount).filter fun i =>
    (faults i k).isNone ∧ faultyBefore faults c k i < escalateThreshold).length <
    o.dataSliceCount

/-- One call, when the faults are soft and fixed. -/
theorem readChunk_softFaults (hd : SoftFaults o d faults)
    (h : Stored md5 rs o memory plaintext d)
    (hrs : rs.Recovers o.dataSliceCount o.paritySliceCount) {a b c k : ℕ} (hb : b ≤ o.size)
    {r : Reader} (hact : Active o a b r k) (hc : c ≤ k) (hist : History o faults c k r) :
    (∃ details r', readChunk md5 rs o d r = (.error (.quorum details), r') ∧
      Exhausted o faults a b c k) ∨
    ∃ data r', readChunk md5 rs o d r = (.ok (some data), r') ∧
      (Finished r' ∨ Active o a b r' (k + 1) ∧ History o faults c (k + 1) r') := by
  have hk := hact.lt_count hb
  have hspec := (@assembleDataRegion_spec md5 rs _ d) hact.index
    hact.configured.chunk hact.prepared false
  rcases hasm : assembleDataRegion md5 rs o d false r with ⟨e | _, r₁⟩
  · left
    rw [hasm] at hspec
    have hread := readChunk_failed hact hasm
    rcases assembled_failed hrs hk hact.toCursor hspec with
      ⟨s, tried, rfl, hatt, i, hi, hf⟩ | ⟨s, tried, rfl, hatt, hfew, hmissing, htried⟩
    · exact absurd rfl (hd.soft i k _ (hd.faultRead h hk hi hf)).2
    · refine ⟨_, r₁, hread, ?_, ?_⟩
      · obtain ⟨i, hi, hbad⟩ := hmissing
        obtain ⟨hiD, hlo, hhi⟩ := (mem_needed hact).mp hi
        refine ⟨i, hiD, hlo, hhi, ?_⟩
        rcases hbad with hfailed | ⟨code, hf⟩
        · exact .inr ((hist.failed i hfailed).trans (hist.counts i))
        · left
          rw [hd.faultRead h hk (Nat.lt_add_right _ hiD) hf]
          rfl
      · have hmid := attempts_midHistory hd h hk hatt hist.mid
        refine lt_of_le_of_lt (List.Subperm.length_le (List.subperm_of_subset
          (List.nodup_range.filter _) fun i hi => ?_)) hfew
        obtain ⟨hrange, husable⟩ := List.mem_filter.mp hi
        obtain ⟨hok, hfewer⟩ := of_decide_eq_true husable
        have hcount := hmid.counts i
        rw [if_neg fun hj => by rw [Option.isNone_iff_eq_none.mp hok] at hj; exact nomatch hj.2]
          at hcount
        have hnot : i ∉ r₁.failedSlices := fun hf => by
          have := hmid.failed i hf
          simp only at this hcount
          omega
        have htotal := List.mem_range.mp hrange
        have hcase : i < o.dataSliceCount ∨ i ∈ r.availableParityIdxs := by
          rcases Nat.lt_or_ge i o.dataSliceCount with hlt | hge
          · exact .inl hlt
          · right
            rw [hist.parity, List.mem_range'_1]
            exact ⟨hge, htotal⟩
        exact hmid.gathered i ((htried i hcase).resolve_left hnot)
          (Option.isNone_iff_eq_none.mp hok)
  · right
    rw [hasm] at hspec
    obtain ⟨hsteady, hblocks⟩ := assembled_needed h hrs hk hact.toCursor
      (fun i hi => needed_lt hi) hspec
    obtain ⟨r₂, hread, hsame, hstage⟩ := readChunk_assembled h.bounded hb hact
      (hact.steady hsteady) hasm
    have hnext : History o faults c (k + 1) r₂ := by
      cases hspec with
      | direct hatt hall =>
        exact (attempts_midHistory hd h hk hatt hist.mid).next hc hsame
          ((attempts_steady hatt).parity.trans hist.parity)
      | reconstructed hatt hfull hmissing hcompute =>
        obtain rfl := reconstruct_ok
          (hact.toCursor.steady (attempts_steady hatt)).configured hcompute
        exact (attempts_midHistory hd h hk hatt hist.mid).next hc hsame
          ((attempts_steady hatt).parity.trans hist.parity)
    refine ⟨_, r₂, hread, ?_⟩
    rcases hstage with ⟨-, hseg⟩ | ⟨-, hact₂⟩
    · exact .inl (.inl hseg)
    · exact .inr ⟨hact₂, hnext⟩

/-- A read whose calls have all succeeded so far has passed the chunk sets before the next. -/
theorem readChunks_softFaults (hd : SoftFaults o d faults)
    (h : Stored md5 rs o memory plaintext d)
    (hrs : rs.Recovers o.dataSliceCount o.paritySliceCount) {a b c : ℕ} (hb : b ≤ o.size)
    {r : Reader} (hstart : Finished r ∨ Active o a b r c ∧ History o faults c c r) (n : ℕ)
    (hok : ∀ outcome ∈ (readChunks md5 rs o d r n).1, isFault outcome = false) :
    Finished (readChunks md5 rs o d r n).2 ∨
    ∃ k, c ≤ k ∧ Active o a b (readChunks md5 rs o d r n).2 k ∧
      History o faults c k (readChunks md5 rs o d r n).2 := by
  induction n with
  | zero => exact hstart.imp_right fun h => ⟨c, le_rfl, h⟩
  | succ n ih =>
    rw [readChunks] at hok ⊢
    generalize readChunks md5 rs o d r n = before at ih hok ⊢
    obtain ⟨outcomes, r₁⟩ := before
    simp only at ih hok ⊢
    rcases ih fun x hx => hok x (List.mem_append_left _ hx) with hfin | ⟨k, hc, hact, hist⟩
    · obtain ⟨r₂, hread, hfin₂⟩ := (@readChunk_finished md5 rs o d) hfin
      rw [hread]
      exact .inl hfin₂
    · rcases readChunk_softFaults hd h hrs hb hact hc hist with
        ⟨details, r₂, hread, -⟩ | ⟨data, r₂, hread, hstage⟩
      · have := hok (readChunk md5 rs o d r₁).1 (by simp)
        rw [hread] at this
        cases this
      · rw [hread]
        rcases hstage with hfin | ⟨hact₂, hist₂⟩
        · exact .inl hfin
        · exact .inr ⟨k + 1, by omega, hact₂, hist₂⟩

/-- A read fails for lack of slices only in a chunk set whose redundancy is exhausted. -/
theorem quorum_error_exhausted (md5 : Md5) (rs : Codec) (hrs : rs.Lawful)
    (o : FileObject) (plaintext : Bytes) (files : ℕ → Bytes)
    (hw : Written md5 rs o plaintext files) (d : Disks)
    (hfiles : ∀ i, i < o.totalSliceCount → d.file i = files i)
    (faults : ℕ → ℕ → Option FaultCode) (hd : SoftFaults o d faults) (memory : ℕ → UInt8) :
    ∃ r₀, prepare rs o d memory = .ok r₀ ∧ ∀ a b n details, b ≤ o.size →
      let r := setReadRange o r₀ a b
      let reached := (readChunks md5 rs o d r n).2
      (∀ outcome ∈ (readChunks md5 rs o d r n).1, isFault outcome = false) →
      (readChunk md5 rs o d reached).1 = .error (.quorum details) →
      Exhausted o faults a b r.currentChunkSetIndex reached.currentChunkSetIndex := by
  obtain ⟨stored, h⟩ := Written.stored hrs hw hfiles
  have hcreate := (hw.spec fun hc => (hrs _ _ hc).keepsData).1
  obtain ⟨r₀, hr₀, hclean, hcounts, hparity⟩ := prepare_available hcreate hd.available
    (fun t i hi => h.openSlice hi (hd.open_ok t i)) memory
  obtain ⟨hp, hbuf⟩ := (prepare_spec memory).1 r₀ hr₀
  refine ⟨r₀, hr₀, fun a b n details hb => ?_⟩
  intro r reached hok hquorum
  have hstart : Finished r ∨ Active o a b r r.currentChunkSetIndex ∧
      History o faults r.currentChunkSetIndex r.currentChunkSetIndex r := by
    rcases Nat.lt_or_ge a b with hab | hba
    · right
      obtain ⟨k, hact, -, hs1, hs2, hs3⟩ := setReadRange_spec hp hbuf hab hb
      rw [show r.currentChunkSetIndex = k from hact.index]
      refine ⟨hact, fun i => ?_, fun i hi => ?_, hs3.trans hparity⟩
      · rw [hs2, hcounts]; exact Nat.zero_le _
      · rw [hs1, hclean] at hi; cases hi
    · refine .inl (.inr ?_)
      change (setReadRange o r₀ a b).endOffset ≤ (setReadRange o r₀ a b).startOffset
      unfold setReadRange
      simp only
      split_ifs <;> exact hba
  rcases readChunks_softFaults hd h (hrs _ _ hcreate) hb hstart n hok with
    hfin | ⟨k, hc, hact, hist⟩
  · obtain ⟨r₂, hread, -⟩ := (@readChunk_finished md5 rs o d) hfin
    rw [show readChunk md5 rs o d reached = _ from hread] at hquorum
    cases hquorum
  · rw [show reached.currentChunkSetIndex = k from hact.index]
    rcases readChunk_softFaults hd h (hrs _ _ hcreate) hb hact hc hist with
      ⟨_, r₂, -, hex⟩ | ⟨data, r₂, hread, -⟩
    · exact hex
    · rw [show readChunk md5 rs o d reached = _ from hread] at hquorum
      cases hquorum

/-- The data slice is faulty in the first two chunk sets, the parity slice in the third. -/
def scattered (i k : ℕ) : Option FaultCode :=
  if i = 0 ∧ k < 2 then some .ECHECKSUM else if i = 1 ∧ k = 2 then some .EINOUT else none

def scatteredDisks : Disks where
  isReadable _ := true
  openFault _ _ := none
  readFault _ := scattered
  file := FileObjectWriter.sliceFiles standard mirror spreadObject (fun _ => 0)
    ((List.range 120).map UInt8.ofNat)

theorem scattered_soft : SoftFaults spreadObject scatteredDisks scattered := by
  refine ⟨fun i _ => rfl, fun _ _ => rfl, fun _ _ _ => rfl, fun i k code h => ?_⟩
  unfold scattered at h
  split_ifs at h <;> cases h <;> decide

theorem quorum_error_exhausted_spread :
    ∃ r₀, prepare mirror spreadObject scatteredDisks (fun _ => 0) = .ok r₀ ∧ ∀ n details,
      let r := setReadRange spreadObject r₀ 0 120
      let reached := (readChunks standard mirror spreadObject scatteredDisks r n).2
      (∀ outcome ∈ (readChunks standard mirror spreadObject scatteredDisks r n).1,
        isFault outcome = false) →
      (readChunk standard mirror spreadObject scatteredDisks reached).1 =
        .error (.quorum details) →
      Exhausted spreadObject scattered 0 120 r.currentChunkSetIndex
        reached.currentChunkSetIndex := by
  obtain ⟨r₀, hr₀, hlost⟩ := quorum_error_exhausted standard mirror mirror_lawful spreadObject
    ((List.range 120).map UInt8.ofNat) _ (written_sliceFiles rfl (mirror_lawful 1 1 rfl).keepsData
      spreadObject_fits rfl)
    scatteredDisks (fun _ _ => rfl) scattered scattered_soft (fun _ => 0)
  exact ⟨r₀, hr₀, fun n details => hlost 0 120 n details le_rfl⟩

/-- The third call of a read over the whole object, and the chunk set it is for. -/
def thirdCall : Option (Except ObjectError (Option Bytes) × ℕ) :=
  match prepare mirror spreadObject scatteredDisks (fun _ => 0) with
  | .ok r =>
    let reached := (readChunks standard mirror spreadObject scatteredDisks
      (setReadRange spreadObject r 0 120) 2).2
    some ((readChunk standard mirror spreadObject scatteredDisks reached).1,
      reached.currentChunkSetIndex)
  | .error _ => none

/-- The third call fails although the data slice can be read in that chunk set. -/
theorem escalation_fails_readable_chunk_set : ¬ ∀ outcome k, thirdCall = some (outcome, k) →
    (∃ details, outcome = .error (.quorum details)) →
    (∃ i, i < spreadObject.dataSliceCount ∧ (scattered i k).isSome) ∧
    ((List.range spreadObject.totalSliceCount).filter fun i => (scattered i k).isNone).length <
      spreadObject.dataSliceCount := by
  intro hall
  -- the slice that failed in an earlier chunk set is not asked again
  have hcall : thirdCall = some (.error (.quorum ⟨1, 0, 2, 2, [], [0, 1], [0]⟩), 2) := by
    decide +kernel
  obtain ⟨⟨i, hi, hfault⟩, -⟩ := hall _ _ hcall ⟨_, rfl⟩
  obtain rfl : i = 0 := Nat.lt_one_iff.mp hi
  exact absurd hfault (by decide)

end ReadQuorum
