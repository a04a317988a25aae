import Strubs.FileObjectBase
import Strubs.RecordSynthesis
import Strubs.BootstrapManifest

/-! # The header of a slice, written and read back

The writer lays the fields out in a buffer, the reader of an object compares them where they
stand, and the recovery takes them out again. The three know the layout separately. -/
namespace SliceHeaderCodec

open ByteBuffer ChunkPlan MessageDigest SliceFile
open NamespaceRecord (Text)
open FileObjectBase (allocUnsafe)
open BootstrapManifest (isHexDigit isObjectId)
open RecordSynthesis (HeaderFields SliceContents SliceHeader Shape HeaderRead maxSlices
  readSliceHeaderResult checkHeader)

/-! ## Hexadecimal text -/

def hexDigit (n : ℕ) : Char :=
  if n < 10 then Char.ofNat (48 + n) else Char.ofNat (87 + n)

def hexValue (c : Char) : ℕ :=
  if c.toNat < 58 then c.toNat - 48 else if c.toNat < 71 then c.toNat - 55 else c.toNat - 87

/-- `buffer.toString('hex')`. -/
def toHex (b : Bytes) : Text :=
  b.flatMap fun x => [hexDigit (x.toNat / 16), hexDigit (x.toNat % 16)]

/-- `Buffer.from(text, 'hex')` stops at the first pair that is not two digits. -/
def fromHex : Text → Bytes
  | a :: b :: rest =>
    if isHexDigit a && isHexDigit b then
      UInt8.ofNat (16 * hexValue a + hexValue b) :: fromHex rest
    else []
  | _ => []

theorem hexValue_hexDigit {n : ℕ} (h : n < 16) : hexValue (hexDigit n) = n := by
  revert n
  decide

theorem hexDigit_injective {m n : ℕ} (hm : m < 16) (hn : n < 16)
    (h : hexDigit m = hexDigit n) : m = n := by
  rw [← hexValue_hexDigit hm, h, hexValue_hexDigit hn]

theorem toHex_injective : Function.Injective toHex := by
  intro a
  induction a with
  | nil =>
    intro b h
    cases b with
    | nil => rfl
    | cons y b => simp [toHex] at h
  | cons x a ih =>
    intro b h
    cases b with
    | nil => simp [toHex] at h
    | cons y b =>
      simp only [toHex, List.flatMap_cons, List.cons_append, List.nil_append,
        List.cons.injEq] at h
      obtain ⟨hhigh, hlow, hrest⟩ := h
      have hx := x.toNat_lt
      have hy := y.toNat_lt
      have hdiv := hexDigit_injective (by omega) (by omega) hhigh
      have hmod := hexDigit_injective (by omega) (by omega) hlow
      rw [ih hrest, UInt8.toNat_inj.mp (show x.toNat = y.toNat by omega)]

theorem hexDigit_hexValue {c : Char} (h : isHexDigit c) :
    hexValue c < 16 ∧ hexDigit (hexValue c) = c.toLower := by
  have hascii : ∀ n < 103, isHexDigit (Char.ofNat n) →
      hexValue (Char.ofNat n) < 16 ∧
        hexDigit (hexValue (Char.ofNat n)) = (Char.ofNat n).toLower := by
    decide
  have hlt : c.toNat < 103 := by
    simp only [isHexDigit, Bool.or_eq_true, Bool.and_eq_true, decide_eq_true_eq] at h
    rcases h with (⟨_, h⟩ | ⟨_, h⟩) | ⟨_, h⟩ <;> exact lt_of_le_of_lt h (by decide)
  have hc := hascii c.toNat hlt
  rw [Char.ofNat_toNat] at hc
  exact hc h

/-- The digits come back in lower case. -/
theorem toHex_fromHex : ∀ t : Text, 2 ∣ t.length → t.all isHexDigit →
    toHex (fromHex t) = t.map Char.toLower ∧ 2 * (fromHex t).length = t.length
  | [], _, _ => ⟨rfl, rfl⟩
  | [_], h, _ => by simp at h
  | a :: b :: rest, h, hall => by
    simp only [List.all_cons, Bool.and_eq_true] at hall
    obtain ⟨ha, hb, hrest⟩ := hall
    have hlen : 2 ∣ rest.length := by simp only [List.length_cons] at h; omega
    obtain ⟨htext, hcount⟩ := toHex_fromHex rest hlen hrest
    obtain ⟨hva, hda⟩ := hexDigit_hexValue ha
    obtain ⟨hvb, hdb⟩ := hexDigit_hexValue hb
    have hbyte : (UInt8.ofNat (16 * hexValue a + hexValue b)).toNat =
        16 * hexValue a + hexValue b := by
      rw [UInt8.toNat_ofNat']
      omega
    simp only [fromHex, ha, hb, Bool.and_self, if_true, toHex, List.flatMap_cons, hbyte,
      List.cons_append, List.nil_append, List.map_cons, List.length_cons]
    refine ⟨?_, by omega⟩
    rw [show (16 * hexValue a + hexValue b) / 16 = hexValue a by omega,
      show (16 * hexValue a + hexValue b) % 16 = hexValue b by omega, hda, hdb, ← htext]
    rfl

/-! ## The layout -/

/-- A file object as its slices see it, and which of them this is. -/
structure Slice where
  idBuf : Bytes
  size : ℕ
  dataSliceCount : ℕ
  paritySliceCount : ℕ
  chunkSize : ℕ
  sliceIndex : ℕ
  deriving DecidableEq

/-- A number that its width cannot hold, or a field beyond the end of the buffer, throws. -/
def writeField (bound width value offset : ℕ) (buf : Bytes) : Option Bytes :=
  if value < bound ∧ offset + width ≤ buf.length then
    some (copyInto buf offset (leBytes value width))
  else none

def writeUInt8 (value offset : ℕ) (buf : Bytes) : Option Bytes :=
  writeField (2 ^ 8) 1 value offset buf

def writeUInt16LE (value offset : ℕ) (buf : Bytes) : Option Bytes :=
  writeField (2 ^ 16) 2 value offset buf

/-- `writeIntLE` of a number that is not negative. -/
def writeIntLE (value offset width : ℕ) (buf : Bytes) : Option Bytes :=
  writeField (2 ^ (8 * width - 1)) width value offset buf

/-- The digest of a range, written over another one. -/
def hashInto (md5 : Md5) (source length target : ℕ) (buf : Bytes) : Option Bytes :=
  if source + length ≤ buf.length ∧ target + 16 ≤ buf.length then
    some (copyInto buf target (md5.digest (slice buf source (source + length))))
  else none

/-- The bytes that are handed to the file. -/
def writeOut (length : ℕ) (buf : Bytes) : Option Bytes :=
  if length ≤ buf.length then some (slice buf 0 length) else none

/-- What `create()` writes. The header is built in a buffer of one chunk. -/
def Slice.create (md5 : Md5) (memory : ℕ → UInt8) (s : Slice) : Option Bytes := do
  let buf := copyInto (allocUnsafe memory s.chunkSize) 0 sliceMagic
  let buf ← writeUInt8 1 4 buf
  let buf ← writeUInt16LE fileHeaderSize 5 buf
  let buf := copyInto buf 23 (s.idBuf.take 12)
  let buf ← writeIntLE s.size 35 5 buf
  let buf ← writeUInt8 s.dataSliceCount 40 buf
  let buf ← writeUInt8 s.paritySliceCount 41 buf
  let buf ← writeUInt8 s.sliceIndex 42 buf
  let buf ← writeIntLE s.chunkSize 43 3 buf
  let buf := fillFrom buf 46 0
  let buf ← hashInto md5 23 25 7 buf
  writeOut fileHeaderSize buf

/-- `readIntLE`: the top bit is the sign. -/
def readIntLE (b : Bytes) : ℤ :=
  if 2 * readUIntLE b < 256 ^ b.length then readUIntLE b else (readUIntLE b : ℤ) - 256 ^ b.length

def readUInt8 (buf : Bytes) (offset : ℕ) : ℕ := (buf[offset]?.getD 0).toNat

def Slice.validateHeader (s : Slice) (buf : Bytes) : Bool :=
  slice buf 23 35 = s.idBuf ∧
  readUInt8 buf 40 = s.dataSliceCount ∧
  readUInt8 buf 41 = s.paritySliceCount ∧
  readUInt8 buf 42 = s.sliceIndex ∧
  readIntLE (slice buf 43 46) = s.chunkSize

/-- The fields as the recovery takes them out. -/
def decodeFields (buf : Bytes) : HeaderFields where
  id := toHex (slice buf 23 35)
  size := readIntLE (slice buf 35 40)
  dataSliceCount := readUInt8 buf 40
  paritySliceCount := readUInt8 buf 41
  sliceIndex := readUInt8 buf 42
  chunkSize := readIntLE (slice buf 43 46)

/-- What the recovery finds in a file. The checksum of the header is advisory. -/
def sliceContents (file : Bytes) : SliceContents :=
  let buf := slice file 0 fileHeaderSize
  if buf.length < fileHeaderSize then .short
  else if slice buf 0 4 ≠ sliceMagic then .noMagic
  else .fields (decodeFields buf)

/-! ## What is written -/

/-- Header bytes 23 to 47, the ones its own checksum covers. -/
def Slice.descriptiveFields (s : Slice) : Bytes :=
  s.idBuf ++ leBytes s.size 5 ++ leBytes s.dataSliceCount 1 ++ leBytes s.paritySliceCount 1 ++
    leBytes s.sliceIndex 1 ++ leBytes s.chunkSize 3 ++ [0, 0]

def Slice.headerBytes (md5 : Md5) (s : Slice) : Bytes :=
  sliceMagic ++ leBytes 1 1 ++ leBytes fileHeaderSize 2 ++ md5.digest s.descriptiveFields ++
    s.descriptiveFields

/-- Every field fits its width, and the header a chunk. -/
structure Slice.Fits (s : Slice) : Prop where
  size : s.size < 2 ^ 39
  data : s.dataSliceCount < 2 ^ 8
  parity : s.paritySliceCount < 2 ^ 8
  index : s.sliceIndex < 2 ^ 8
  chunk : s.chunkSize < 2 ^ 23
  header : fileHeaderSize ≤ s.chunkSize

theorem slice_copyInto_snoc {b laid src : Bytes} {lo pos : ℕ} (h : slice b lo pos = laid)
    (hlo : lo ≤ pos) (hfit : pos + src.length ≤ b.length) :
    slice (copyInto b pos src) lo (pos + src.length) = laid ++ src := by
  rw [← slice_append_slice _ hlo (Nat.le_add_right _ _) (by simp; omega),
    slice_copyInto_disjoint hfit (.inl le_rfl), slice_copyInto_self hfit, h]

theorem fillFrom_eq_copyInto {b : Bytes} {pos : ℕ} {v : UInt8} :
    fillFrom b pos v = copyInto b pos (List.replicate (b.length - pos) v) := by
  have hrest : b.length ≤ pos + (b.length - pos) := by omega
  simp [fillFrom, copyInto, hrest]

/-- What a buffer holds before the place of the checksum and after it. -/
structure Laid (b : Bytes) (left : Bytes) (hi : ℕ) (right : Bytes) : Prop where
  left : slice b 0 7 = left
  right : slice b 23 hi = right

/-- The next field stands where the ones before it end. -/
theorem Laid.copyInto {b left right : Bytes} {hi : ℕ} (h : Laid b left hi right) (src : Bytes)
    (hhi : 23 ≤ hi) (hfit : hi + src.length ≤ b.length) :
    Laid (copyInto b hi src) left (hi + src.length) (right ++ src) :=
  ⟨by rw [slice_copyInto_disjoint hfit (.inl (by omega)), h.left],
    slice_copyInto_snoc h.right hhi hfit⟩

theorem Laid.fillFrom {b left right : Bytes} (h : Laid b left 46 right) (hlen : 48 ≤ b.length) :
    Laid (fillFrom b 46 0) left 48 (right ++ [0, 0]) := by
  have hfit : 46 + (List.replicate (b.length - 46) (0 : UInt8)).length ≤ b.length := by
    rw [List.length_replicate]
    omega
  have hzero : slice (List.replicate (b.length - 46) (0 : UInt8)) 0 2 = [0, 0] := by
    rw [slice_zero, List.take_replicate, show min 2 (b.length - 46) = 2 by omega]
    rfl
  rw [fillFrom_eq_copyInto]
  refine ⟨by rw [slice_copyInto_disjoint hfit (.inl (by omega)), h.left], ?_⟩
  rw [← slice_append_slice _ (show 23 ≤ 46 by omega) (show 46 ≤ 48 by omega)
    (by rw [length_copyInto]; omega), slice_copyInto_disjoint hfit (.inl le_rfl),
    slice_copyInto_within hfit le_rfl (by rw [List.length_replicate]; omega), h.right, hzero]

theorem bind_writeField {bound width value offset : ℕ} {buf : Bytes} (hvalue : value < bound)
    (hfit : offset + width ≤ buf.length) (f : Bytes → Option Bytes) :
    (writeField bound width value offset buf).bind f =
      f (copyInto buf offset (leBytes value width)) := by
  rw [writeField, if_pos ⟨hvalue, hfit⟩, Option.bind_some]

theorem bind_hashInto {md5 : Md5} {source length target : ℕ} {buf : Bytes}
    (hsource : source + length ≤ buf.length) (htarget : target + 16 ≤ buf.length)
    (f : Bytes → Option Bytes) : (hashInto md5 source length target buf).bind f =
      f (copyInto buf target (md5.digest (slice buf source (source + length)))) := by
  rw [hashInto, if_pos ⟨hsource, htarget⟩, Option.bind_some]

/-- The checksum goes in last. -/
theorem Laid.finish {md5 : Md5} {b left right : Bytes} (h : Laid b left 48 right)
    (hlen : 48 ≤ b.length) :
    ((hashInto md5 23 25 7 b).bind fun buf => writeOut fileHeaderSize buf) =
      some (left ++ md5.digest right ++ right) := by
  have hfit : 7 + (md5.digest right).length ≤ b.length := by
    rw [md5.length_digest]
    omega
  have hseven : 7 + (md5.digest right).length = 23 := by rw [md5.length_digest]
  have hhead := slice_copyInto_snoc h.left (Nat.zero_le 7) hfit
  rw [hseven] at hhead
  rw [bind_hashInto (by omega) (by omega), show 23 + 25 = 48 from rfl, h.right, writeOut,
    length_copyInto, if_pos (show fileHeaderSize ≤ b.length from hlen)]
  rw [show fileHeaderSize = 48 from rfl, ← slice_append_slice _ (Nat.zero_le 23)
    (show 23 ≤ 48 by omega) (by rw [length_copyInto]; omega), hhead,
    slice_copyInto_disjoint hfit (.inr hseven.le), h.right]

theorem Slice.create_of_fits (md5 : Md5) (memory : ℕ → UInt8) {s : Slice}
    (hid : s.idBuf.length = 12) (h : s.Fits) :
    s.create md5 memory = some (s.headerBytes md5) := by
  obtain ⟨hsize, hdata, hparity, hindex, hchunk, hheader⟩ := h
  have h48 : 48 ≤ s.chunkSize := hheader
  have hstart : Laid (copyInto (copyInto (copyInto (allocUnsafe memory s.chunkSize) 0 sliceMagic)
      4 (leBytes 1 1)) 5 (leBytes fileHeaderSize 2))
      (sliceMagic ++ leBytes 1 1 ++ leBytes fileHeaderSize 2) 23 [] := by
    have hmagic := @slice_copyInto_self _ (allocUnsafe memory s.chunkSize) sliceMagic 0
      (by simp [sliceMagic]; omega)
    exact ⟨slice_copyInto_snoc (slice_copyInto_snoc hmagic (by decide) (by simp; omega))
      (by decide) (by simp; omega), slice_self _ _⟩
  have hid' := hstart.copyInto s.idBuf le_rfl (by simp; omega)
  rw [hid, List.nil_append] at hid'
  have hsize' := hid'.copyInto (leBytes s.size 5) (by omega) (by simp; omega)
  have hcounts := ((hsize'.copyInto (leBytes s.dataSliceCount 1) (by simp)
    (by simp; omega)).copyInto (leBytes s.paritySliceCount 1) (by simp)
    (by simp; omega)).copyInto (leBytes s.sliceIndex 1) (by simp) (by simp; omega)
  have hchunk' := hcounts.copyInto (leBytes s.chunkSize 3) (by simp) (by simp; omega)
  simp only [length_leBytes] at hchunk'
  simp only [create, writeUInt8, writeUInt16LE, writeIntLE, Option.bind_eq_bind,
    List.take_of_length_le hid.le]
  rw [bind_writeField (by omega) (by simp; omega), bind_writeField (by decide) (by simp; omega),
    bind_writeField (by omega) (by simp; omega), bind_writeField (by omega) (by simp; omega),
    bind_writeField (by omega) (by simp; omega), bind_writeField (by omega) (by simp; omega),
    bind_writeField (by omega) (by simp; omega)]
  exact (hchunk'.fillFrom (by simp; omega)).finish (by simp; omega)

theorem writeField_eq_some {bound width value offset : ℕ} {buf buf' : Bytes}
    (h : writeField bound width value offset buf = some buf') :
    value < bound ∧ offset + width ≤ buf.length ∧ buf'.length = buf.length := by
  unfold writeField at h
  split_ifs at h with hfit
  obtain rfl := Option.some.inj h
  exact ⟨hfit.1, hfit.2, length_copyInto ..⟩

theorem Slice.fits_of_create {md5 : Md5} {memory : ℕ → UInt8} {s : Slice} {header : Bytes}
    (h : s.create md5 memory = some header) : s.Fits := by
  simp only [create, writeUInt8, writeUInt16LE, writeIntLE, Option.bind_eq_bind,
    Option.bind_eq_some_iff] at h
  obtain ⟨b₁, h₁, b₂, h₂, b₃, h₃, b₄, h₄, b₅, h₅, b₆, h₆, b₇, h₇, b₈, h₈, -⟩ := h
  obtain ⟨-, -, hl₁⟩ := writeField_eq_some h₁
  obtain ⟨-, -, hl₂⟩ := writeField_eq_some h₂
  obtain ⟨hsize, -, hl₃⟩ := writeField_eq_some h₃
  obtain ⟨hdata, -, hl₄⟩ := writeField_eq_some h₄
  obtain ⟨hparity, -, hl₅⟩ := writeField_eq_some h₅
  obtain ⟨hindex, -, hl₆⟩ := writeField_eq_some h₆
  obtain ⟨hchunk, -, hl₇⟩ := writeField_eq_some h₇
  rw [length_copyInto] at hl₁ hl₃
  rw [FileObjectBase.length_allocUnsafe] at hl₁
  unfold hashInto at h₈
  rw [length_fillFrom] at h₈
  split_ifs at h₈ with hend
  refine ⟨by omega, by omega, by omega, by omega, by omega, ?_⟩
  show 48 ≤ s.chunkSize
  omega

/-- `create()` writes the header if every field fits, and otherwise nothing. -/
theorem Slice.create_eq_some_iff {md5 : Md5} {memory : ℕ → UInt8} {s : Slice} {header : Bytes}
    (hid : s.idBuf.length = 12) :
    s.create md5 memory = some header ↔ s.Fits ∧ header = s.headerBytes md5 := by
  constructor
  · intro h
    have hfits := fits_of_create h
    rw [create_of_fits md5 memory hid hfits] at h
    exact ⟨hfits, (Option.some.inj h).symm⟩
  · rintro ⟨hfits, rfl⟩
    exact create_of_fits md5 memory hid hfits

/-! ## What is read back -/

theorem readIntLE_leBytes {value n : ℕ} (h : 2 * value < 256 ^ n) :
    readIntLE (leBytes value n) = value := by
  have hr := readUIntLE_leBytes n value (by omega)
  rw [readIntLE, hr, length_leBytes, if_pos h]

/-- The three signed bytes that the reader of an object compares. -/
theorem readIntLE_three {b : Bytes} (h : b.length = 3) : readIntLE b = readInt24LE b := by
  rw [readIntLE, readInt24LE, h]
  have hiff : 2 * readUIntLE b < 256 ^ 3 ↔ readUIntLE b < 2 ^ 23 := by omega
  simp only [hiff]
  norm_num

section HeaderBytes

variable {md5 : Md5} {s : Slice}

theorem Slice.length_descriptiveFields (hid : s.idBuf.length = 12) :
    s.descriptiveFields.length = 25 := by
  simp [descriptiveFields, hid]

theorem Slice.length_headerBytes (hid : s.idBuf.length = 12) :
    (s.headerBytes md5).length = fileHeaderSize := by
  simp [headerBytes, md5.length_digest, sliceMagic, length_descriptiveFields hid, fileHeaderSize]

/-- What follows the checksum of a header are its fields. -/
theorem Slice.slice_headerBytes {lo hi : ℕ} (h : 23 ≤ lo) :
    slice (s.headerBytes md5) lo hi = slice s.descriptiveFields (lo - 23) (hi - 23) := by
  have hl : (sliceMagic ++ leBytes 1 1 ++ leBytes fileHeaderSize 2 ++
      md5.digest s.descriptiveFields).length = 23 := by
    simp [md5.length_digest, sliceMagic]
  rw [headerBytes, slice_append_right (by rw [hl]; exact h), hl]

theorem Slice.slice_field {before field : Bytes} (after : Bytes) {lo hi : ℕ}
    (h : s.descriptiveFields = before ++ field ++ after) (hlo : 23 + before.length = lo)
    (hhi : lo + field.length = hi) : slice (s.headerBytes md5) lo hi = field := by
  rw [slice_headerBytes (by omega), h]
  exact slice_middle after (by omega) (by omega)

theorem readUInt8_of_slice {buf : Bytes} {offset value : ℕ} (hvalue : value < 256)
    (h : slice buf offset (offset + 1) = leBytes value 1) : readUInt8 buf offset = value := by
  have hget := congrArg (fun b : Bytes => b[0]?) h
  simp only [getElem?_slice, Nat.add_zero, Nat.lt_succ_self, if_true] at hget
  rw [readUInt8, hget]
  simp only [leBytes, List.getElem?_cons_zero, Option.getD_some, UInt8.toNat_ofNat']
  omega

theorem Slice.decodeFields_headerBytes (hid : s.idBuf.length = 12) (h : s.Fits) :
    decodeFields (s.headerBytes md5) =
      ⟨toHex s.idBuf, s.size, s.dataSliceCount, s.paritySliceCount, s.sliceIndex, s.chunkSize⟩ := by
  obtain ⟨hsize, hdata, hparity, hindex, hchunk, -⟩ := h
  have hid' : slice (s.headerBytes md5) 23 35 = s.idBuf :=
    @slice_field _ _ [] _ _ _ _ (by simp [descriptiveFields]; rfl) rfl (by omega)
  have hsize' : slice (s.headerBytes md5) 35 40 = leBytes s.size 5 :=
    @slice_field _ _ s.idBuf _ _ _ _ (by simp [descriptiveFields]; rfl) (by omega) (by simp)
  have hdata' : slice (s.headerBytes md5) 40 41 = leBytes s.dataSliceCount 1 :=
    @slice_field _ _ (s.idBuf ++ leBytes s.size 5) _ _ _ _ (by simp [descriptiveFields]; rfl)
      (by simp; omega) (by simp)
  have hparity' : slice (s.headerBytes md5) 41 42 = leBytes s.paritySliceCount 1 :=
    @slice_field _ _ (s.idBuf ++ leBytes s.size 5 ++ leBytes s.dataSliceCount 1) _ _ _ _
      (by simp [descriptiveFields]; rfl) (by simp; omega) (by simp)
  have hindex' : slice (s.headerBytes md5) 42 43 = leBytes s.sliceIndex 1 :=
    @slice_field _ _ (s.idBuf ++ leBytes s.size 5 ++ leBytes s.dataSliceCount 1 ++
      leBytes s.paritySliceCount 1) _ _ _ _ (by simp [descriptiveFields]; rfl) (by simp; omega)
      (by simp)
  have hchunk' : slice (s.headerBytes md5) 43 46 = leBytes s.chunkSize 3 :=
    @slice_field _ _ (s.idBuf ++ leBytes s.size 5 ++ leBytes s.dataSliceCount 1 ++
      leBytes s.paritySliceCount 1 ++ leBytes s.sliceIndex 1) _ _ _ _
      (by simp [descriptiveFields]; rfl) (by simp; omega) (by simp)
  rw [decodeFields, hid', hsize', hchunk', readIntLE_leBytes (by omega),
    readIntLE_leBytes (by omega), readUInt8_of_slice hdata hdata',
    readUInt8_of_slice hparity hparity', readUInt8_of_slice hindex hindex']

/-- The recovery reads the header of any file that begins with it. -/
theorem Slice.sliceContents_headerBytes (hid : s.idBuf.length = 12) (chunks : Bytes) :
    sliceContents (s.headerBytes md5 ++ chunks) =
      .fields (decodeFields (s.headerBytes md5)) := by
  have hlen := @length_headerBytes md5 _ hid
  have hbuf : slice (s.headerBytes md5 ++ chunks) 0 fileHeaderSize = s.headerBytes md5 := by
    rw [slice_append_left hlen.ge, ← hlen, slice_zero_length]
  have hmagic : slice (s.headerBytes md5) 0 4 = sliceMagic := by
    rw [headerBytes]
    simp only [List.append_assoc]
    rw [slice_append_left (by decide)]
    rfl
  simp only [sliceContents, hbuf, hlen, Nat.lt_irrefl, if_false, hmagic, ne_eq, not_true_eq_false]

end HeaderBytes

/-- The reader's comparison accepts what decodes to the slice's own fields, and nothing else. -/
theorem Slice.validateHeader_iff (s : Slice) (buf : Bytes) :
    s.validateHeader buf ↔ (decodeFields buf).id = toHex s.idBuf ∧
      (decodeFields buf).dataSliceCount = s.dataSliceCount ∧
      (decodeFields buf).paritySliceCount = s.paritySliceCount ∧
      (decodeFields buf).sliceIndex = s.sliceIndex ∧
      (decodeFields buf).chunkSize = s.chunkSize := by
  simp only [validateHeader, decodeFields, toHex_injective.eq_iff, decide_eq_true_eq]

theorem checkHeader_fields {fromName : ℕ} {h : HeaderFields} {header : SliceHeader}
    (hok : checkHeader fromName h = .ok header) :
    header.id = h.id ∧ header.shape.dataSliceCount = h.dataSliceCount ∧
      header.shape.paritySliceCount = h.paritySliceCount ∧ header.sliceIndex = h.sliceIndex ∧
      (header.shape.chunkSize : ℤ) = h.chunkSize := by
  unfold checkHeader at hok
  split_ifs at hok with h1 h2 h3 h4 h5
  cases hok
  exact ⟨rfl, rfl, rfl, rfl, Int.toNat_of_nonneg (by omega)⟩

/-- What the recovery takes a file for is what the reader of an object takes it for. -/
theorem Slice.validateHeader_of_ok {s : Slice} {fromName : ℕ} {file : Bytes} {header : SliceHeader}
    (hok : readSliceHeaderResult fromName (sliceContents file) = .ok header) :
    s.validateHeader (slice file 0 fileHeaderSize) ↔ header.id = toHex s.idBuf ∧
      header.shape.dataSliceCount = s.dataSliceCount ∧
      header.shape.paritySliceCount = s.paritySliceCount ∧
      header.sliceIndex = s.sliceIndex ∧ header.shape.chunkSize = s.chunkSize := by
  unfold sliceContents at hok
  dsimp only at hok
  split_ifs at hok with hshort hmagic
  · cases hok
  · cases hok
  · obtain ⟨hid, hdata, hparity, hindex, hchunk⟩ := checkHeader_fields hok
    rw [s.validateHeader_iff, hid, hdata, hparity, hindex, ← hchunk, Nat.cast_inj]

/-- A header that makes sense is decoded as it stands. -/
theorem checkHeader_eq_ok {fromName : ℕ} (h : HeaderFields) (hdata : 1 ≤ h.dataSliceCount)
    (htotal : h.dataSliceCount + h.paritySliceCount ≤ maxSlices)
    (hindex : h.sliceIndex < h.dataSliceCount + h.paritySliceCount) (hchunk : 0 < h.chunkSize)
    (hsize : 0 ≤ h.size) (hname : fromName = h.sliceIndex) :
    checkHeader fromName h = .ok ⟨h.id, ⟨h.size.toNat, h.dataSliceCount, h.paritySliceCount,
      h.chunkSize.toNat⟩, h.sliceIndex⟩ := by
  unfold checkHeader
  rw [if_neg (by omega), if_neg (by omega), if_neg (by omega), if_neg (by omega),
    if_neg (by simpa using hname)]

/-! The header of an object that is being written is the one its readers expect. -/

def ofFileObject (o : FileObject) (sliceIndex : ℕ) : Slice :=
  ⟨o.idBuf, o.size, o.dataSliceCount, o.paritySliceCount, o.chunkSize, sliceIndex⟩

theorem create_ofFileObject (md5 : Md5) (memory : ℕ → UInt8) (o : FileObject) (i : ℕ) :
    (ofFileObject o i).create md5 memory = createHeader md5 o i := by
  have hlarge := o.chunk_large
  have hfits : (ofFileObject o i).Fits ↔ Encodable o i := by
    constructor
    · rintro ⟨hsize, hdata, hparity, hindex, hchunk, -⟩
      exact ⟨hsize, hdata, hparity, hindex, hchunk⟩
    · rintro ⟨hsize, hdata, hparity, hindex, hchunk⟩
      refine ⟨hsize, hdata, hparity, hindex, hchunk, ?_⟩
      show 48 ≤ o.chunkSize
      omega
  unfold createHeader
  split_ifs with henc
  · rw [Slice.create_of_fits md5 memory o.length_idBuf (hfits.mpr henc)]
    simp [Slice.headerBytes, Slice.descriptiveFields, headerBytes, descriptiveFields, ofFileObject,
      leBytes]
  · cases hcreate : (ofFileObject o i).create md5 memory with
    | none => rfl
    | some header => exact absurd (hfits.mp (Slice.fits_of_create hcreate)) henc

theorem validateHeader_ofFileObject (o : FileObject) (i : ℕ) {buf : Bytes}
    (h : fileHeaderSize ≤ buf.length) :
    (ofFileObject o i).validateHeader buf = validateHeader o i buf := by
  have h48 : 48 ≤ buf.length := h
  simp only [Slice.validateHeader, validateHeader, ofFileObject, readUInt8,
    readIntLE_three (b := slice buf 43 46) (by simp; omega)]

/-! ## The round trip -/

/-- A slice of an object that carries its id as text. -/
def sliceOf (id : Text) (size dataSliceCount paritySliceCount chunkSize sliceIndex : ℕ) : Slice :=
  ⟨fromHex id, size, dataSliceCount, paritySliceCount, chunkSize, sliceIndex⟩

/-- A chunk that has room for the header is all that the encoding asks for. The three parties
agree on every header then, and on a smaller chunk nothing is written. -/
theorem header_round_trip (md5 : Md5) (memory : ℕ → UInt8) (id : Text) (size D P C i : ℕ)
    (hid : isObjectId id) (hsize : size < 2 ^ 39) (hdata : 1 ≤ D) (htotal : D + P ≤ 32)
    (hindex : i < D + P) (hpos : 0 < C) (hchunk : C < 2 ^ 23) :
    (fileHeaderSize ≤ C → ∃ header,
      (sliceOf id size D P C i).create md5 memory = some header ∧
      (∀ chunks, readSliceHeaderResult i (sliceContents (header ++ chunks)) =
        .ok ⟨id.map Char.toLower, ⟨size, D, P, C⟩, i⟩) ∧
      (sliceOf id size D P C i).validateHeader header) ∧
    (C < fileHeaderSize → (sliceOf id size D P C i).create md5 memory = none) ∧
    (∀ (s : Slice) (buf : Bytes), s.validateHeader buf ↔
      (decodeFields buf).id = toHex s.idBuf ∧
      (decodeFields buf).dataSliceCount = s.dataSliceCount ∧
      (decodeFields buf).paritySliceCount = s.paritySliceCount ∧
      (decodeFields buf).sliceIndex = s.sliceIndex ∧
      (decodeFields buf).chunkSize = s.chunkSize) ∧
    ∀ (s : Slice) (fromName : ℕ) (file : Bytes) (header : SliceHeader),
      readSliceHeaderResult fromName (sliceContents file) = .ok header →
        (s.validateHeader (slice file 0 fileHeaderSize) ↔ header.id = toHex s.idBuf ∧
          header.shape.dataSliceCount = s.dataSliceCount ∧
          header.shape.paritySliceCount = s.paritySliceCount ∧
          header.sliceIndex = s.sliceIndex ∧ header.shape.chunkSize = s.chunkSize) := by
  simp only [isObjectId, Bool.and_eq_true, beq_iff_eq] at hid
  obtain ⟨hlen, hdigits⟩ := hid
  obtain ⟨htext, hcount⟩ := toHex_fromHex id (by omega) hdigits
  have hbuf : (sliceOf id size D P C i).idBuf.length = 12 := by
    show (fromHex id).length = 12
    omega
  refine ⟨fun hheader => ?_, fun hsmall => ?_, fun s buf => s.validateHeader_iff buf,
    fun _ _ _ _ hok => Slice.validateHeader_of_ok hok⟩
  · have hfits : (sliceOf id size D P C i).Fits := by
      refine ⟨hsize, ?_, ?_, ?_, hchunk, hheader⟩ <;> simp only [sliceOf] <;> omega
    have hfields := @Slice.decodeFields_headerBytes md5 _ hbuf hfits
    refine ⟨_, Slice.create_of_fits md5 memory hbuf hfits, fun chunks => ?_, ?_⟩
    · rw [Slice.sliceContents_headerBytes hbuf, hfields]
      refine (checkHeader_eq_ok ⟨toHex (fromHex id), size, D, P, i, C⟩ hdata htotal hindex
        (by simpa using hpos) (Int.natCast_nonneg size) rfl).trans ?_
      simp [htext]
    · rw [Slice.validateHeader_iff, hfields]
      exact ⟨rfl, rfl, rfl, rfl, rfl⟩
  · cases hcreate : (sliceOf id size D P C i).create md5 memory with
    | none => rfl
    | some header => exact absurd (Slice.fits_of_create hcreate).header (Nat.not_le_of_lt hsmall)

theorem header_round_trip_parity : ∃ header,
    (sliceOf (List.replicate 24 'A') 100000 4 2 16384 5).create standard (fun _ => 0) =
      some header ∧
    readSliceHeaderResult 5 (sliceContents header) =
      .ok ⟨List.replicate 24 'a', ⟨100000, 4, 2, 16384⟩, 5⟩ := by
  obtain ⟨header, hcreate, hread, -⟩ :=
    (header_round_trip standard (fun _ => 0) (List.replicate 24 'A') 100000 4 2 16384 5
      (by decide) (by decide) (by decide) (by decide) (by decide) (by decide) (by decide)).1
      (by decide)
  exact ⟨header, hcreate, by simpa using hread []⟩

/-- A chunk of eight bytes has no room for the fields, and writing the size throws. -/
theorem no_header_in_small_chunk : ¬ ∀ (memory : ℕ → UInt8) (id : Text) (size D P C i : ℕ),
    isObjectId id → size < 2 ^ 39 → 1 ≤ D → D + P ≤ 32 → i < D + P → 0 < C → C < 2 ^ 23 →
    ∃ header, (sliceOf id size D P C i).create standard memory = some header := by
  intro hall
  obtain ⟨header, hcreate⟩ := hall (fun _ => 0) (List.replicate 24 '0') 1 1 1 8 0 (by decide)
    (by decide) (by decide) (by decide) (by decide) (by decide) (by decide)
  exact absurd (Slice.fits_of_create hcreate).header (by decide)

end SliceHeaderCodec
