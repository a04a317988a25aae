import Strubs.ByteBuffer
import Strubs.ChunkPlan
import Strubs.MessageDigest

/-! # Slice files

A slice file is a 48-byte header followed by chunks, each behind the MD5 of its data.
The header's fields have fixed widths, so an object that overflows one has no slices. -/
namespace SliceFile

open ByteBuffer ChunkPlan MessageDigest

inductive FaultCode where
  | EOPEN | ETIMEOUT | EHEADER | EUNAVAIL | ENOENT | EINOUT | ECHECKSUM | IOABORT
  | other (name : String)
  | unset
  deriving DecidableEq, Repr

structure FileObject extends Geometry where
  idBuf : Bytes
  md5 : Option Bytes
  unavailableSliceIdxs : List ℕ
  length_idBuf : idBuf.length = 12

def sliceMagic : Bytes := [0x01, 0xc3, 0xbb, 0x02]

def readUIntLE (b : Bytes) : ℕ := b.foldr (fun d rest => d.toNat + 256 * rest) 0

/-- `readIntLE(offset, 3)`: the top bit is the sign. -/
def readInt24LE (b : Bytes) : ℤ :=
  if readUIntLE b < 2 ^ 23 then readUIntLE b else (readUIntLE b : ℤ) - 2 ^ 24

/-- The object fits the header's fields; otherwise writing the header throws. -/
def Encodable (o : FileObject) (sliceIndex : ℕ) : Prop :=
  o.size < 2 ^ 39 ∧ o.dataSliceCount < 256 ∧ o.paritySliceCount < 256 ∧ sliceIndex < 256 ∧
  o.chunkSize < 2 ^ 23

instance (o : FileObject) (sliceIndex : ℕ) : Decidable (Encodable o sliceIndex) :=
  inferInstanceAs (Decidable (_ ∧ _ ∧ _ ∧ _ ∧ _))

/-- Header bytes 23 to 47, the ones its own checksum covers. -/
def descriptiveFields (o : FileObject) (sliceIndex : ℕ) : Bytes :=
  o.idBuf ++ leBytes o.size 5 ++
    [UInt8.ofNat o.dataSliceCount, UInt8.ofNat o.paritySliceCount, UInt8.ofNat sliceIndex] ++
    leBytes o.chunkSize 3 ++ [0, 0]

def headerBytes (md5 : Md5) (o : FileObject) (sliceIndex : ℕ) : Bytes :=
  sliceMagic ++ [1] ++ leBytes fileHeaderSize 2 ++
    md5.digest (descriptiveFields o sliceIndex) ++ descriptiveFields o sliceIndex

def createHeader (md5 : Md5) (o : FileObject) (sliceIndex : ℕ) : Option Bytes :=
  if Encodable o sliceIndex then some (headerBytes md5 o sliceIndex) else none

def validateHeader (o : FileObject) (sliceIndex : ℕ) (buf : Bytes) : Bool :=
  slice buf 23 35 = o.idBuf ∧
  (buf[40]?.getD 0).toNat = o.dataSliceCount ∧
  (buf[41]?.getD 0).toNat = o.paritySliceCount ∧
  (buf[42]?.getD 0).toNat = sliceIndex ∧
  readInt24LE (slice buf 43 46) = o.chunkSize

/-- What `open()` makes of the file's first bytes. -/
def openHeader (o : FileObject) (sliceIndex : ℕ) (file : Bytes) : Except FaultCode Unit :=
  let header := slice file 0 fileHeaderSize
  if header.length ≠ fileHeaderSize then .error .EINOUT
  else if validateHeader o sliceIndex header then .ok ()
  else .error .EHEADER

def chunkRecord (md5 : Md5) (data : Bytes) : Bytes := md5.digest data ++ data

def seekToChunkIndex (p : Plan) (chunkIndex : ℕ) : ℕ :=
  fileHeaderSize +
    (if chunkIndex > 0 then 1 else 0) * (chunkHeaderSize + p.startChunkDataSize) +
    (chunkIndex - 1) * (chunkHeaderSize + p.standardChunkDataSize)

/-- A short read and a checksum mismatch are faults of the slice. -/
def readChunkAt (md5 : Md5) (file : Bytes) (cursor readDataLen : ℕ) : Except FaultCode Bytes :=
  let raw := slice file cursor (cursor + (chunkHeaderSize + readDataLen))
  if raw.length ≠ chunkHeaderSize + readDataLen then .error .EINOUT
  else if md5.digest (raw.drop chunkHeaderSize) ≠ raw.take chunkHeaderSize then .error .ECHECKSUM
  else .ok (raw.drop chunkHeaderSize)

def fileContent (md5 : Md5) (header : Bytes) (chunks : List Bytes) : Bytes :=
  header ++ chunks.flatMap (chunkRecord md5)

theorem fileContent_snoc (md5 : Md5) (header : Bytes) (chunks : List Bytes) (data : Bytes) :
    fileContent md5 header (chunks ++ [data]) =
      fileContent md5 header chunks ++ chunkRecord md5 data := by
  simp [fileContent]

@[simp] theorem length_chunkRecord (md5 : Md5) (data : Bytes) :
    (chunkRecord md5 data).length = chunkHeaderSize + data.length := by
  simp [chunkRecord, md5.length_digest, chunkHeaderSize]

theorem readUIntLE_leBytes (n : ℕ) : ∀ value, value < 256 ^ n →
    readUIntLE (leBytes value n) = value := by
  induction n with
  | zero => intro value h; simp at h; subst h; rfl
  | succ n ih =>
    intro value h
    have hd : value / 256 < 256 ^ n := Nat.div_lt_of_lt_mul (by rwa [← Nat.pow_succ'])
    have hrest := ih _ hd
    simp only [readUIntLE] at hrest
    simp only [leBytes, readUIntLE, List.foldr_cons, hrest, UInt8.toNat_ofNat']
    omega

theorem readInt24LE_leBytes {value : ℕ} (h : value < 2 ^ 23) :
    readInt24LE (leBytes value 3) = value := by
  have hr := readUIntLE_leBytes 3 value (by omega)
  unfold readInt24LE
  rw [hr, if_pos h]

@[simp] theorem length_descriptiveFields (o : FileObject) (i : ℕ) :
    (descriptiveFields o i).length = 25 := by
  simp [descriptiveFields, o.length_idBuf]

@[simp] theorem length_headerBytes (md5 : Md5) (o : FileObject) (i : ℕ) :
    (headerBytes md5 o i).length = fileHeaderSize := by
  simp [headerBytes, md5.length_digest, sliceMagic, fileHeaderSize]

theorem getElem?_headerBytes (md5 : Md5) (o : FileObject) (i j : ℕ) (h : 23 ≤ j) :
    (headerBytes md5 o i)[j]? = (descriptiveFields o i)[j - 23]? := by
  have hl : (sliceMagic ++ [1] ++ leBytes fileHeaderSize 2 ++
      md5.digest (descriptiveFields o i)).length = 23 := by
    simp [md5.length_digest, sliceMagic]
  rw [headerBytes, List.getElem?_append_right (by omega), hl]

private theorem slice_headerBytes (md5 : Md5) (o : FileObject) (i : ℕ) {lo hi : ℕ}
    (h : 23 ≤ lo) : slice (headerBytes md5 o i) lo hi =
      slice (descriptiveFields o i) (lo - 23) (hi - 23) := by
  apply List.ext_getElem?
  intro j
  rw [getElem?_slice, getElem?_slice, getElem?_headerBytes _ _ _ _ (by omega)]
  split_ifs <;> first | omega | rfl | (congr 1; omega)

/-- Every slice accepts its own header. -/
theorem validateHeader_headerBytes (md5 : Md5) (o : FileObject) {i : ℕ}
    (h : Encodable o i) : validateHeader o i (headerBytes md5 o i) = true := by
  obtain ⟨_, hD, hP, hi, hC⟩ := h
  have hid := o.length_idBuf
  have hbyte : ∀ {v : ℕ}, v < 256 → (UInt8.ofNat v).toNat = v := by
    intro v hv
    rw [UInt8.toNat_ofNat']
    omega
  have hfields : ∀ j, 17 ≤ j → (descriptiveFields o i)[j]? =
      ([UInt8.ofNat o.dataSliceCount, UInt8.ofNat o.paritySliceCount, UInt8.ofNat i] ++
        leBytes o.chunkSize 3 ++ [0, 0])[j - 17]? := by
    intro j hj
    simp only [descriptiveFields, List.append_assoc]
    rw [← List.append_assoc, List.getElem?_append_right (by simp [hid]; omega)]
    simp [hid]
  simp only [validateHeader, Bool.decide_and, Bool.and_eq_true, decide_eq_true_eq]
  refine ⟨?_, ?_, ?_, ?_, ?_⟩
  · rw [slice_headerBytes _ _ _ (by omega)]
    simp only [descriptiveFields, List.append_assoc, slice]
    rw [show 35 - 23 = o.idBuf.length by omega, List.take_left]
    rfl
  · rw [getElem?_headerBytes _ _ _ _ (by omega), hfields _ (by omega)]
    simpa using hbyte hD
  · rw [getElem?_headerBytes _ _ _ _ (by omega), hfields _ (by omega)]
    simpa using hbyte hP
  · rw [getElem?_headerBytes _ _ _ _ (by omega), hfields _ (by omega)]
    simpa using hbyte hi
  · rw [slice_headerBytes _ _ _ (by omega), ← readInt24LE_leBytes hC]
    congr 1
    apply List.ext_getElem?
    intro j
    rw [getElem?_slice]
    split_ifs with hj
    · rw [hfields _ (by omega), List.getElem?_append_left (by simp; omega),
        List.getElem?_append_right (by simp; omega)]
      congr 1
      simp
      omega
    · exact (List.getElem?_eq_none (by simp; omega)).symm

theorem openHeader_fileContent (md5 : Md5) (o : FileObject) {i : ℕ} (h : Encodable o i)
    (chunks : List Bytes) :
    openHeader o i (fileContent md5 (headerBytes md5 o i) chunks) = .ok () := by
  have hs : slice (fileContent md5 (headerBytes md5 o i) chunks) 0 fileHeaderSize =
      headerBytes md5 o i := by
    rw [fileContent, slice_append_left (by simp), ← length_headerBytes md5 o i,
      slice_zero_length]
  simp only [openHeader, hs, length_headerBytes, ne_eq, not_true_eq_false, ↓reduceIte,
    validateHeader_headerBytes md5 o h]

/-- Reading back the record that starts where the cursor stands. -/
theorem readChunkAt_append (md5 : Md5) (before data after : Bytes) :
    readChunkAt md5 (before ++ chunkRecord md5 data ++ after) before.length data.length =
      .ok data := by
  have hs : slice (before ++ chunkRecord md5 data ++ after) before.length
      (before.length + (chunkHeaderSize + data.length)) = chunkRecord md5 data := by
    rw [List.append_assoc, slice_append_right le_rfl, Nat.sub_self, Nat.add_sub_cancel_left,
      slice_append_left (by simp), ← length_chunkRecord md5, slice_zero_length]
  have hd : (chunkRecord md5 data).drop chunkHeaderSize = data := by
    rw [chunkRecord, ← show (md5.digest data).length = chunkHeaderSize from md5.length_digest data,
      List.drop_left]
  have ht : (chunkRecord md5 data).take chunkHeaderSize = md5.digest data := by
    rw [chunkRecord, ← show (md5.digest data).length = chunkHeaderSize from md5.length_digest data,
      List.take_left]
  simp only [readChunkAt, hs, length_chunkRecord, ne_eq, not_true_eq_false, ↓reduceIte, hd, ht]

/-- The cursor of chunk `k` stands behind the header and the records of the chunks before. -/
theorem seekToChunkIndex_eq (g : Geometry) (md5 : Md5) {header : Bytes}
    (hh : header.length = fileHeaderSize) {chunks : List Bytes}
    (hlen : ∀ j, ∀ c ∈ chunks[j]?, c.length = g.chunkDataSizeAt j)
    (hk : chunks.length ≤ g.plan.standardChunkCountPerSlice + 1) :
    (fileContent md5 header chunks).length = seekToChunkIndex g.plan chunks.length := by
  induction chunks using List.reverseRecOn with
  | nil => simp [fileContent, hh, seekToChunkIndex]
  | append_singleton cs c ih =>
    have hc := hlen cs.length c (by simp)
    have hcs := ih (fun j d hd => hlen j d (by
      have hj := (List.getElem?_eq_some_iff.mp hd).1
      rw [List.getElem?_append_left hj]; exact hd)) (by simp at hk; omega)
    rw [fileContent_snoc, List.length_append, hcs, length_chunkRecord, hc]
    simp only [List.length_append, List.length_singleton] at hk ⊢
    unfold seekToChunkIndex Geometry.chunkDataSizeAt
    rcases Nat.eq_zero_or_pos cs.length with h0 | hpos
    · simp [h0]
    · rw [if_pos hpos, if_neg (by omega), if_pos (by omega), if_pos (by omega)]
      obtain ⟨j, hj⟩ : ∃ j, cs.length = j + 1 := ⟨cs.length - 1, by omega⟩
      simp only [hj, Nat.add_sub_cancel]
      ring

/-- A file whose chunks have the planned sizes gives back each of them. -/
theorem readChunkAt_fileContent (g : Geometry) (md5 : Md5) {header : Bytes}
    (hh : header.length = fileHeaderSize) {chunks : List Bytes}
    (hlen : ∀ j, ∀ c ∈ chunks[j]?, c.length = g.chunkDataSizeAt j)
    (hk : chunks.length ≤ g.plan.standardChunkCountPerSlice + 2) {k : ℕ} {data : Bytes}
    (hdata : chunks[k]? = some data) :
    readChunkAt md5 (fileContent md5 header chunks) (seekToChunkIndex g.plan k)
      (g.chunkDataSizeAt k) = .ok data := by
  obtain ⟨hlt, hget⟩ := List.getElem?_eq_some_iff.mp hdata
  have hsplit : chunks = chunks.take k ++ data :: chunks.drop (k + 1) := by
    rw [← hget, List.cons_getElem_drop_succ, List.take_append_drop]
  have hbefore := @seekToChunkIndex_eq g md5 _ hh (chunks.take k)
    (fun j c hc => hlen j c (by
      rw [List.getElem?_take] at hc
      split_ifs at hc with hj
      · exact hc
      · cases hc)) (by simp; omega)
  rw [List.length_take, Nat.min_eq_left (by omega)] at hbefore
  have hfile : fileContent md5 header chunks = fileContent md5 header (chunks.take k) ++
      chunkRecord md5 data ++ (chunks.drop (k + 1)).flatMap (chunkRecord md5) := by
    conv_lhs => rw [hsplit]
    simp [fileContent]
  rw [hfile, ← hbefore, ← hlen k data hdata]
  exact readChunkAt_append md5 _ _ _

end SliceFile
