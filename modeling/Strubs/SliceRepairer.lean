import Strubs.ObjectRoundTrip
import Strubs.VolumeSlice

/-! # Repairing one slice

A slice is rebuilt from the surviving ones into a temporary file. Their content is
arbitrary: a slice that is consistent in itself may encode other data. What is rebuilt
replaces the committed slice only when the digest of the object it belongs to is right. -/
namespace SliceRepairer

open ByteBuffer ErasureCode ChunkPlan MessageDigest SliceFile FileObjectBase FileObjectReader
  ReadSession ObjectRoundTrip VolumeSlice

inductive RepairError where
  | invalidSliceIndex
  | volumeUnwritable
  | read (e : ObjectError)
  | slice (e : SliceError)
  | corrupt
  deriving DecidableEq, Repr

/-- What the integrity gate has hashed so far. There is no hash without a stored digest. -/
structure Gate where
  objectHash : Option Bytes
  hashedBytes : ℕ

variable (md5 : Md5) (rs : Codec) (o : FileObject) (d : Disks) (calls : Calls) (i : ℕ)

/-- The last data region is padded, and the stored digest covers the object's bytes only. -/
def hashRegion (g : Gate) (buffer : Bytes) (chunkDataSize : ℕ) : Gate :=
  match g.objectHash with
  | none => g
  | some hashed =>
    let take := min (o.dataSliceCount * chunkDataSize) (o.size - g.hashedBytes)
    if take > 0 then
      { objectHash := some (hashed ++ slice buffer 0 take), hashedBytes := g.hashedBytes + take }
    else g

/-- `none` is a loop that has not ended after `fuel` chunk sets. -/
def rebuildChunkSets : ℕ → Reader → Slice → Gate → Option (Except RepairError Gate × Slice)
  | 0, _, _, _ => none
  | fuel + 1, r, s, g =>
    match reconstructFullChunkSet md5 rs o d r with
    | (.error e, _) => some (.error (.read e), s)
    | (.ok none, _) => some (.ok g, s)
    | (.ok (some (buffer, chunkDataSize)), r) =>
      let g := hashRegion o g buffer chunkDataSize
      let start := i * chunkDataSize
      match writeChunk calls md5 (slice buffer start (start + chunkDataSize)) s with
      | (.error e, s) => some (.error (.slice e), s)
      | (.ok _, s) => rebuildChunkSets fuel r s g

def gateRefuses (g : Gate) : Bool :=
  match g.objectHash, o.md5 with
  | some hashed, some expected => md5.digest hashed != expected
  | _, _ => false

def rebuild (fuel : ℕ) (r : Reader) (s : Slice) : Option (Except RepairError Unit × Slice) :=
  match create calls (createHeader md5 o i) s with
  | (.error e, s) => some (.error (.slice e), s)
  | (.ok _, s) =>
    match rebuildChunkSets md5 rs o d calls i fuel r s ⟨o.md5.map fun _ => [], 0⟩ with
    | none => none
    | some (.error e, s) => some (.error e, s)
    | some (.ok g, s) =>
      match close calls s with
      | (.error e, s) => some (.error (.slice e), s)
      | (.ok _, s) =>
        if gateRefuses md5 o g then some (.error .corrupt, s)
        else
          match commit calls s with
          | (.error e, s) => some (.error (.slice e), s)
          | (.ok _, s) => some (.ok (), s)

/-- Whatever fails once the target exists, the target is deleted, and a failure of that is
ignored. -/
def repair (fuel : ℕ) (memory : ℕ → UInt8) (isWritable : Bool) (s : Slice) :
    Option (Except RepairError Unit × Slice) :=
  if o.totalSliceCount ≤ i then some (.error .invalidSliceIndex, s)
  else if !isWritable then some (.error .volumeUnwritable, s)
  else
    match prepare rs o d memory with
    | .error e => some (.error (.read e), s)
    | .ok r =>
      match rebuild md5 rs o d calls i fuel (setReadRange o r 0 o.size) s with
      | none => none
      | some (.ok _, s) => some (.ok (), s)
      | some (.error e, s) => some (.error e, (delete calls s).2)

/-- The slice of an object that was loaded from its record: it holds no reservation. -/
def ofRecord (committed temporary : Option Bytes) (volume : Volume) : Slice where
  mode := none
  outputOpen := false
  isCommitted := false
  size := 0
  reservedBytes := o.plan.sliceSize
  hasReservation := false
  sliceType := if i < o.dataSliceCount then .data else .parity
  committed := committed
  temporary := temporary
  volume := volume
  clock := 0

variable {md5 rs o d calls i}

/-- Chunk `k` of the slice when `regions` are the data regions of the chunk sets. -/
def sliceChunks (rs : Codec) (o : FileObject) (i : ℕ) (regions : List Bytes) : List Bytes :=
  regions.mapIdx fun k region =>
    rs.shard o.dataSliceCount o.paritySliceCount (o.chunkDataSizeAt k) region i

/-- The regions have the planned sizes and the temporary file holds their chunks, and the
gate has hashed the object's bytes in them. -/
structure Rebuilding (md5 : Md5) (rs : Codec) (o : FileObject) (i : ℕ) (regions : List Bytes)
    (s : Slice) (g : Gate) : Prop where
  sizes : ∀ k region, regions[k]? = some region →
    region.length = o.dataSliceCount * o.chunkDataSizeAt k
  temporary : s.temporary = some (fileContent md5 (headerBytes md5 o i)
    (sliceChunks rs o i regions))
  hashed : g.objectHash = some (regions.flatten.take o.size)
  hashed_bytes : g.hashedBytes = min o.size (o.chunkSetOffset regions.length)

theorem Rebuilding.length_flatten {regions : List Bytes}
    (h : ∀ k region, regions[k]? = some region →
      region.length = o.dataSliceCount * o.chunkDataSizeAt k) :
    regions.flatten.length = o.chunkSetOffset regions.length := by
  induction regions using List.reverseRecOn with
  | nil => rfl
  | append_singleton regions region ih =>
    have hlast := h regions.length region (by simp)
    have hinit := ih fun k r hr => h k r (by
      rw [List.getElem?_append_left (List.getElem?_eq_some_iff.mp hr).1]; exact hr)
    simp only [List.flatten_append, List.flatten_singleton, List.length_append, hinit, hlast,
      List.length_singleton, o.chunkSetOffset_succ]
    ring

/-- One round appends the chunk of one more data region. -/
theorem Rebuilding.step {regions : List Bytes} {s s' : Slice} {g : Gate}
    (h : Rebuilding md5 rs o i regions s g) (hk : regions.length < o.chunkSetCount)
    {buffer : Bytes}
    (hlen : (slice buffer 0 (o.dataSliceCount * o.chunkDataSizeAt regions.length)).length =
      o.dataSliceCount * o.chunkDataSizeAt regions.length)
    (hshard : block buffer (o.chunkDataSizeAt regions.length) i =
      rs.shard o.dataSliceCount o.paritySliceCount (o.chunkDataSizeAt regions.length)
        (slice buffer 0 (o.dataSliceCount * o.chunkDataSizeAt regions.length)) i)
    (hwrite : writeChunk calls md5 (block buffer (o.chunkDataSizeAt regions.length) i) s =
      (.ok (), s')) :
    Rebuilding md5 rs o i (regions ++
        [slice buffer 0 (o.dataSliceCount * o.chunkDataSizeAt regions.length)]) s'
      (hashRegion o g buffer (o.chunkDataSizeAt regions.length)) := by
  have hbegun := o.lt_chunkSetCount_iff.mp hk
  have hpos := Nat.mul_pos o.data_pos (o.chunkDataSizeAt_pos_of_lt hk)
  have hsucc := o.chunkSetOffset_succ regions.length
  rw [Nat.mul_comm] at hsucc
  have hbytes := h.hashed_bytes
  rw [Nat.min_eq_right hbegun.le] at hbytes
  generalize hn : o.dataSliceCount * o.chunkDataSizeAt regions.length = n at *
  have htake : min n (o.size - g.hashedBytes) > 0 := by omega
  refine ⟨?_, ?_, ?_, ?_⟩
  · intro k region hr
    rcases Nat.lt_trichotomy k regions.length with hlt | rfl | hgt
    · rw [List.getElem?_append_left hlt] at hr
      exact h.sizes k region hr
    · rw [List.getElem?_concat_length] at hr
      cases hr
      exact hlen.trans hn.symm
    · rw [List.getElem?_eq_none (by simp; omega)] at hr
      cases hr
  · rw [sliceChunks, List.mapIdx_concat, fileContent_snoc, ← sliceChunks, ← hshard]
    exact writeChunk_ok hwrite h.temporary
  · simp only [hashRegion, h.hashed, hn, if_pos htake]
    have hflat := Rebuilding.length_flatten h.sizes
    rw [List.flatten_append, List.flatten_singleton, List.take_append, hflat, hbytes]
    congr 2
    rw [slice_zero, slice_zero, List.take_take, Nat.min_comm]
  · simp only [hashRegion, h.hashed, hn, if_pos htake]
    rw [hbytes, List.length_append, List.length_singleton, hsucc]
    omega

theorem rebuildChunkSets_spec (hB : Bounded o.toGeometry)
    (hrs : rs.Recovers o.dataSliceCount o.paritySliceCount) (hi : i < o.totalSliceCount)
    (fuel : ℕ) {r : Reader} {regions : List Bytes} {s : Slice} {g : Gate}
    (hcur : Cursor o r regions.length) (hle : regions.length ≤ o.chunkSetCount)
    (hfuel : o.chunkSetCount < fuel + regions.length)
    (h : Rebuilding md5 rs o i regions s g) :
    ∃ result s', rebuildChunkSets md5 rs o d calls i fuel r s g = some (result, s') ∧
      Untouched s s' ∧ ∀ g', result = .ok g' →
        ∃ all, all.length = o.chunkSetCount ∧ Rebuilding md5 rs o i all s' g' := by
  induction fuel generalizing r regions s g with
  | zero => omega
  | succ fuel ih =>
    obtain ⟨heof, hmore⟩ := (@reconstructFullChunkSet_spec md5 _ _ d) hB hrs hcur
    rw [rebuildChunkSets]
    rcases Nat.lt_or_ge regions.length o.chunkSetCount with hlt | hge
    · rcases hread : reconstructFullChunkSet md5 rs o d r with ⟨e | found, r'⟩
      · exact ⟨_, s, rfl, .refl s, fun g' hg => by cases hg⟩
      · obtain ⟨buffer, rfl, hcur', hlen, hshard⟩ := hmore hlt _ _ hread
        simp only
        rcases hwrite : writeChunk calls md5 (slice buffer
          (i * o.chunkDataSizeAt regions.length) (i * o.chunkDataSizeAt regions.length +
            o.chunkDataSizeAt regions.length)) s with ⟨e | _, s₁⟩
        · have huntouched := (@writeChunk_untouched calls) md5 (slice buffer
            (i * o.chunkDataSizeAt regions.length) (i * o.chunkDataSizeAt regions.length +
              o.chunkDataSizeAt regions.length)) s
          rw [hwrite] at huntouched
          exact ⟨_, s₁, rfl, huntouched, fun g' hg => by cases hg⟩
        · have huntouched := (@writeChunk_untouched calls) md5 (slice buffer
            (i * o.chunkDataSizeAt regions.length) (i * o.chunkDataSizeAt regions.length +
              o.chunkDataSizeAt regions.length)) s
          rw [hwrite] at huntouched
          have hstep := h.step hlt hlen (hshard i hi) hwrite
          obtain ⟨result, s', hloop, hun, hok⟩ := @ih _ (regions ++ [_]) _ _
            (by rw [List.length_append]; exact hcur') (by rw [List.length_append]; exact hlt)
            (by rw [List.length_append, List.length_singleton]; omega) hstep
          exact ⟨result, s', hloop, huntouched.trans hun, hok⟩
    · rw [heof hge]
      refine ⟨_, s, rfl, .refl s, fun g' hg => ?_⟩
      cases hg
      exact ⟨regions, by omega, h⟩

/-- What is hashed decides nothing before the gate. -/
theorem rebuildChunkSets_gate (fuel : ℕ) {r : Reader} {s s' : Slice} {g : Gate} (g' : Gate)
    {result : Except RepairError Gate}
    (h : rebuildChunkSets md5 rs o d calls i fuel r s g = some (result, s')) :
    ∃ result', rebuildChunkSets md5 rs o d calls i fuel r s g' = some (result', s') ∧
      (result'.isOk → result.isOk) := by
  induction fuel generalizing r s g g' with
  | zero => cases h
  | succ fuel ih =>
    rw [rebuildChunkSets] at h ⊢
    rcases hread : reconstructFullChunkSet md5 rs o d r with ⟨e | found, r'⟩
    · rw [hread] at h
      obtain ⟨rfl, rfl⟩ := Prod.mk.inj (Option.some.inj h)
      exact ⟨_, rfl, id⟩
    · rw [hread] at h
      rcases found with _ | ⟨buffer, size⟩
      · obtain ⟨rfl, rfl⟩ := Prod.mk.inj (Option.some.inj h)
        exact ⟨_, rfl, id⟩
      · simp only at h ⊢
        split at h
        · obtain ⟨rfl, rfl⟩ := Prod.mk.inj (Option.some.inj h)
          exact ⟨_, rfl, id⟩
        · exact ih _ h

/-- The file a repair installs: its chunks belong to data regions with the object's digest, if
there is one. -/
structure Rebuilt (md5 : Md5) (rs : Codec) (o : FileObject) (i : ℕ) (regions : List Bytes)
    (file : Bytes) : Prop where
  count : regions.length = o.chunkSetCount
  sizes : ∀ k region, regions[k]? = some region →
    region.length = o.dataSliceCount * o.chunkDataSizeAt k
  file : file = fileContent md5 (headerBytes md5 o i) (sliceChunks rs o i regions)
  digest : ∀ expected, o.md5 = some expected →
    md5.digest (regions.flatten.take o.size) = expected

/-- With a stored digest or without one, what goes through the gate was rebuilt. -/
theorem rebuildChunkSets_rebuilt (hB : Bounded o.toGeometry)
    (hrs : rs.Recovers o.dataSliceCount o.paritySliceCount) (hi : i < o.totalSliceCount)
    {fuel : ℕ} (hfuel : o.chunkSetCount < fuel) {r : Reader} (hcur : Cursor o r 0) {s : Slice}
    (hstart : s.temporary = some (headerBytes md5 o i)) :
    ∃ result s', rebuildChunkSets md5 rs o d calls i fuel r s ⟨o.md5.map fun _ => [], 0⟩ =
        some (result, s') ∧ Untouched s s' ∧
      ∀ g, result = .ok g → gateRefuses md5 o g = false →
        ∃ regions file, s'.temporary = some file ∧ Rebuilt md5 rs o i regions file := by
  have hbegun : Rebuilding md5 rs o i [] s ⟨some [], 0⟩ :=
    ⟨by simp, by rw [hstart]; simp [sliceChunks, fileContent], by simp,
      by simp [Geometry.chunkSetOffset]⟩
  obtain ⟨result, s', hloop, hun, hok⟩ := @rebuildChunkSets_spec _ _ _ d calls _ hB hrs hi fuel
    _ [] _ _ hcur (Nat.zero_le _) hfuel hbegun
  cases hmd5 : o.md5 with
  | some expected =>
    refine ⟨result, s', hloop, hun, fun g hg hgate => ?_⟩
    obtain ⟨regions, hcount, hregions⟩ := hok g hg
    refine ⟨regions, _, hregions.temporary, hcount, hregions.sizes, rfl, fun e he => ?_⟩
    obtain rfl := Option.some.inj (hmd5.symm.trans he)
    simpa [gateRefuses, hregions.hashed, hmd5] using hgate
  | none =>
    obtain ⟨result', hloop', himp⟩ := rebuildChunkSets_gate fuel ⟨none, 0⟩ hloop
    refine ⟨result', s', hloop', hun, fun g hg _ => ?_⟩
    have hisOk : result.isOk := himp (by rw [hg]; rfl)
    rcases result with e | g'
    · cases hisOk
    obtain ⟨regions, hcount, hregions⟩ := hok g' rfl
    exact ⟨regions, _, hregions.temporary, hcount, hregions.sizes, rfl, fun e he => by
      rw [hmd5] at he
      cases he⟩

theorem rebuild_spec (hrs : rs.Recovers o.dataSliceCount o.paritySliceCount)
    (hi : i < o.totalSliceCount) {r : Reader} (hcur : Cursor o r 0) {s : Slice}
    (hr : s.hasReservation = false) {fuel : ℕ} (hfuel : o.chunkSetCount < fuel) :
    ∃ result s', rebuild md5 rs o d calls i fuel r s = some (result, s') ∧
      s'.volume = s.volume ∧ s'.hasReservation = false ∧
      (∀ e, result = .error e → s'.isCommitted = s.isCommitted) ∧
      (s'.committed = s.committed ∨ ∃ regions file, s'.committed = some file ∧
        Encodable o i ∧ Rebuilt md5 rs o i regions file) := by
  unfold rebuild
  have hcreate := (@create_untouched calls) (createHeader md5 o i) s
  rcases hc : create calls (createHeader md5 o i) s with ⟨e | _, s₁⟩
  · rw [hc] at hcreate
    exact ⟨_, s₁, rfl, hcreate.volume, hcreate.unreserved.trans hr,
      fun _ _ => hcreate.uncommitted, .inl hcreate.committed⟩
  rw [hc] at hcreate
  obtain ⟨bytes, hheader, htmp, -⟩ := create_ok hc
  obtain ⟨henc, rfl⟩ : Encodable o i ∧ headerBytes md5 o i = bytes := by
    unfold createHeader at hheader
    split_ifs at hheader with henc
    exact ⟨henc, Option.some.inj hheader⟩
  obtain ⟨result, s₂, hloop, hun, hok⟩ := @rebuildChunkSets_rebuilt md5 _ _ d calls _
    (bounded_of_encodable henc) hrs hi _ hfuel _ hcur _ htmp
  have hun₂ := hcreate.trans hun
  simp only [hloop]
  rcases result with e | g
  · exact ⟨_, s₂, rfl, hun₂.volume, hun₂.unreserved.trans hr, fun _ _ => hun₂.uncommitted,
      .inl hun₂.committed⟩
  simp only
  have hclose := (@close_untouched calls) s₂
  have hclose_tmp := (@close_temporary calls) s₂
  rcases hcl : close calls s₂ with ⟨e | _, s₃⟩
  · rw [hcl] at hclose
    have hun₃ := hun₂.trans hclose
    exact ⟨_, s₃, rfl, hun₃.volume, hun₃.unreserved.trans hr, fun _ _ => hun₃.uncommitted,
      .inl hun₃.committed⟩
  rw [hcl] at hclose hclose_tmp
  have hun₃ := hun₂.trans hclose
  simp only
  split_ifs with hgate
  · exact ⟨_, s₃, rfl, hun₃.volume, hun₃.unreserved.trans hr, fun _ _ => hun₃.uncommitted,
      .inl hun₃.committed⟩
  obtain ⟨regions, content, htemporary, hrebuilt⟩ := hok g rfl (by simpa using hgate)
  obtain ⟨hinstalled, hvolume, hres, herr⟩ :=
    (@commit_spec calls) s₃ (hun₃.unreserved.trans hr)
  have hfile : ∀ file, s₃.temporary = some file → Rebuilt md5 rs o i regions file := by
    intro file hfile
    obtain rfl := Option.some.inj ((hclose_tmp.trans htemporary).symm.trans hfile)
    exact hrebuilt
  rcases hcm : commit calls s₃ with ⟨e | _, s₄⟩
  · rw [hcm] at hinstalled hvolume hres herr
    refine ⟨_, s₄, rfl, hvolume.trans hun₃.volume, hres,
      fun _ _ => (herr e rfl).trans hun₃.uncommitted, ?_⟩
    exact hinstalled.imp (fun h => h.trans hun₃.committed)
      fun ⟨file, htemp, hcommitted⟩ => ⟨regions, file, hcommitted, henc, hfile file htemp⟩
  · rw [hcm] at hinstalled hvolume hres herr
    refine ⟨_, s₄, rfl, hvolume.trans hun₃.volume, hres, fun _ he => (by cases he), ?_⟩
    exact hinstalled.imp (fun h => h.trans hun₃.committed)
      fun ⟨file, htemp, hcommitted⟩ => ⟨regions, file, hcommitted, henc, hfile file htemp⟩

/-- A repair ends, leaves the byte accounting alone, and the committed slice is the old one or
one that was rebuilt. -/
theorem repair_spec (hrs : rs.Lawful) (memory : ℕ → UInt8) (isWritable : Bool)
    (committed temporary : Option Bytes) (volume : Volume) :
    ∃ result s', repair md5 rs o d calls i (o.chunkSetCount + 1) memory isWritable
        (ofRecord o i committed temporary volume) = some (result, s') ∧
      s'.volume = volume ∧
      (s'.committed = committed ∨ ∃ regions file, s'.committed = some file ∧
        Encodable o i ∧ Rebuilt md5 rs o i regions file) := by
  unfold repair
  split_ifs with hrange hwritable
  · exact ⟨_, _, rfl, rfl, .inl rfl⟩
  · exact ⟨_, _, rfl, rfl, .inl rfl⟩
  rcases hprep : prepare rs o d memory with e | r
  · exact ⟨_, _, rfl, rfl, .inl rfl⟩
  have hcreate : rs.create o.dataSliceCount o.paritySliceCount = true := by
    unfold prepare at hprep
    split_ifs at hprep with hc
    · exact hc
  obtain ⟨hp, hlen⟩ := (prepare_spec memory).1 r hprep
  obtain ⟨result, s', hrebuild, hvolume, hres, herr, hcommitted⟩ :=
    (@rebuild_spec md5 _ _ d calls) (hrs _ _ hcreate) (Nat.not_le.mp hrange)
      (setReadRange_whole hp hlen) (s := ofRecord o i committed temporary volume) rfl
      (Nat.lt_add_one _)
  simp only [hrebuild]
  rcases result with e | _
  · have hun := (@delete_untouched calls) (herr e rfl) hres
    refine ⟨_, _, rfl, hun.volume.trans hvolume, ?_⟩
    rw [hun.committed]
    exact hcommitted
  · exact ⟨_, s', rfl, hvolume, hcommitted⟩

/-- The byte object with the digest of the byte 7. -/
def digestObject : FileObject :=
  { smallObject with md5 := some (standardDigest [7]) }

/-- The unreadable slice is rebuilt from its mirror. -/
example : ((repair standard mirror digestObject halfDisks (fun _ => none) 0 2 (fun _ => 0) true
    (ofRecord digestObject 0 none none ⟨0, 0, 0, none⟩)).map fun p =>
      (p.1.isOk, p.2.committed.isSome)) = some (true, true) := by decide +kernel

end SliceRepairer
