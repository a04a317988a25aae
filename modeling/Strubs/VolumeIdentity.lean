import Strubs.DeviceIdentityProbe
import Strubs.DeviceProvisioner
import Strubs.SliceHeaderCodec

/-! # The identity file of a volume

Forty-one bytes that say which array a disk belongs to and which volume it is. A volume compares
them when it starts, and the wipe guard takes them out of whatever disk it looks at. -/
namespace VolumeIdentity

open ByteBuffer MessageDigest
open DeviceIdentityProbe (IdentityFile ProbeResult hex readIdentity)
open DeviceProvisioner (getNextVolumeId)
open NamespaceRecord (Text)
open SliceHeaderCodec (fromHex toHex toHex_fromHex writeField writeUInt8)

def isLowerHexDigit (c : Char) : Bool := ('0' ≤ c && c ≤ '9') || ('a' ≤ c && c ≤ 'f')

/-- The bytes of a uuid, whatever stands between its digits. -/
def uuidBytes (uuid : Text) : Bytes := fromHex (uuid.filter isLowerHexDigit)

/-- An id that one byte cannot hold throws. -/
def buildVolumeIdentityBuffer (volumeId : ℕ) (volumeUuid : Text) (status : UInt8)
    (identityBuffer : Bytes) : Option Bytes := do
  let buffer := List.replicate 41 0
  let buffer ← writeUInt8 0x1f 0 buffer
  let buffer ← writeUInt8 0xfb 1 buffer
  let buffer ← writeUInt8 0x01 2 buffer
  let buffer ← writeUInt8 0xfb 3 buffer
  let buffer ← writeUInt8 1 4 buffer
  let buffer := copyInto buffer 5 identityBuffer
  let buffer := copyInto buffer 21 (uuidBytes volumeUuid)
  let buffer ← writeUInt8 volumeId 37 buffer
  let buffer := copyInto buffer 38 [status]
  let buffer ← writeUInt8 0x19 39 buffer
  writeUInt8 0xfb 40 buffer

inductive VerifyError where
  | noMountPoint
  | inaccessible
  | notProvisioned
  | unreadable
  | corrupt
  | invalidVersion
  | outOfRange
  | otherInstance
  | otherUuid
  | otherId
  deriving DecidableEq

/-- Where a volume is mounted, as far as its check asks. -/
structure Mount where
  configured : Bool
  accessible : Bool

/-- A range that reaches beyond the end of a buffer throws. -/
def compareRange (target data : Bytes) (sourceStart sourceEnd : ℕ) (differs : VerifyError) :
    Except VerifyError Unit :=
  if target.length < 16 ∨ data.length < sourceEnd then throw .outOfRange
  else if target.take 16 ≠ slice data sourceStart sourceEnd then throw differs
  else return

/-- What a volume does with its identity file before it starts. -/
def verify (identityBuffer : Option Bytes) (uuid : Text) (id : ℕ) (mount : Mount)
    (file : IdentityFile) : Except VerifyError Unit := do
  if mount.configured = false then throw .noMountPoint
  if mount.accessible = false then throw .inaccessible
  match file with
  | .absent => throw .notProvisioned
  | .unreadable => throw .unreadable
  | .bytes data =>
    if data[0]? ≠ some 0x1f ∨ data[1]? ≠ some 0xfb ∨ data[2]? ≠ some 0x01 ∨ data[3]? ≠ some 0xfb ∨
        data[data.length - 2]? ≠ some 0x19 ∨ data[data.length - 1]? ≠ some 0xfb then
      throw .corrupt
    if data[4]? ≠ some 1 then throw .invalidVersion
    match identityBuffer with
    | none => throw .otherInstance
    | some identityBuffer => compareRange identityBuffer data 5 21 .otherInstance
    compareRange (uuidBytes uuid) data 21 37 .otherUuid
    if (data[37]?).map UInt8.toNat ≠ some id then throw .otherId

/-- A uuid has thirty-two digits. -/
structure VolumeUuid where
  text : Text
  digits : (text.filter isLowerHexDigit).length = 32

namespace VolumeUuid

def bytes (uuid : VolumeUuid) : Bytes := uuidBytes uuid.text

theorem isHexDigit_of_lower {c : Char} (h : isLowerHexDigit c) :
    BootstrapManifest.isHexDigit c ∧ c.toLower = c := by
  have hascii : ∀ n < 103, isLowerHexDigit (Char.ofNat n) →
      BootstrapManifest.isHexDigit (Char.ofNat n) ∧
        (Char.ofNat n).toLower = Char.ofNat n := by
    decide
  have hlt : c.toNat < 103 := by
    simp only [isLowerHexDigit, Bool.or_eq_true, Bool.and_eq_true, decide_eq_true_eq] at h
    rcases h with ⟨_, h⟩ | ⟨_, h⟩ <;> exact lt_of_le_of_lt h (by decide)
  have hc := hascii c.toNat hlt
  rw [Char.ofNat_toNat] at hc
  exact hc h

theorem toHex_bytes (uuid : VolumeUuid) :
    toHex uuid.bytes = uuid.text.filter isLowerHexDigit ∧ uuid.bytes.length = 16 := by
  have hall : (uuid.text.filter isLowerHexDigit).all BootstrapManifest.isHexDigit := by
    rw [List.all_eq_true]
    exact fun c hc => (isHexDigit_of_lower (List.mem_filter.mp hc).2).1
  have hlower : (uuid.text.filter isLowerHexDigit).map Char.toLower =
      uuid.text.filter isLowerHexDigit := by
    conv_rhs => rw [← List.map_id (uuid.text.filter isLowerHexDigit)]
    exact List.map_congr_left fun c hc => (isHexDigit_of_lower (List.mem_filter.mp hc).2).2
  obtain ⟨htext, hlength⟩ := toHex_fromHex _ (by rw [uuid.digits]; decide) hall
  constructor
  · rw [bytes, uuidBytes, htext, hlower]
  · have hdigits := uuid.digits
    rw [bytes, uuidBytes]
    omega

/-- Two uuids are the same if they have the same digits. -/
theorem bytes_eq_iff {uuid uuid' : VolumeUuid} : uuid'.bytes = uuid.bytes ↔
    uuid'.text.filter isLowerHexDigit = uuid.text.filter isLowerHexDigit := by
  constructor
  · intro h
    rw [← uuid'.toHex_bytes.1, ← uuid.toHex_bytes.1, h]
  · intro h
    rw [bytes, bytes, uuidBytes, uuidBytes, h]

end VolumeUuid

/-! ## What is written -/

section Codec

variable {identity : Bytes} {uuid : VolumeUuid} {volumeId : ℕ} {status : UInt8}

/-- The file with its fields in place. -/
def layout (identity : Bytes) (uuid : VolumeUuid) (volumeId : ℕ) (status : UInt8) : Bytes :=
  [0x1f, 0xfb, 0x01, 0xfb, 1] ++ identity ++ uuid.bytes ++
    [UInt8.ofNat volumeId, status, 0x19, 0xfb]

/-- A byte that fits goes behind the ones that are there. -/
theorem writeUInt8_next {b fields : Bytes} {value pos : ℕ} (hvalue : value < 2 ^ 8)
    (hpos : fields.length = pos) (h : pos < b.length) :
    writeUInt8 value pos (copyInto b 0 fields) =
      some (copyInto b 0 (fields ++ [UInt8.ofNat value])) := by
  rw [writeUInt8, writeField, if_pos ⟨hvalue, by rw [length_copyInto]; omega⟩,
    copyInto_zero_append hpos (by rw [length_leBytes]; omega)]
  rfl

theorem build_eq (hidentity : identity.length = 16) :
    buildVolumeIdentityBuffer volumeId uuid.text status identity =
      if volumeId ≤ 255 then some (layout identity uuid volumeId status) else none := by
  have huuid := uuid.toHex_bytes.2
  have hempty : List.replicate 41 (0 : UInt8) = copyInto (List.replicate 41 0) 0 [] := by simp
  rw [buildVolumeIdentityBuffer, show uuidBytes uuid.text = uuid.bytes from rfl]
  simp only [Option.bind_eq_bind]
  rw [hempty, writeUInt8_next (by decide) (by rfl) (by decide), Option.bind_some,
    writeUInt8_next (by decide) (by rfl) (by decide), Option.bind_some,
    writeUInt8_next (by decide) (by rfl) (by decide), Option.bind_some,
    writeUInt8_next (by decide) (by rfl) (by decide), Option.bind_some,
    writeUInt8_next (by decide) (by rfl) (by decide), Option.bind_some,
    copyInto_zero_append (by rfl) (by simp [hidentity]),
    copyInto_zero_append (by simp [hidentity]) (by simp [huuid])]
  by_cases hid : volumeId ≤ 255
  · rw [if_pos hid, writeUInt8_next (by omega) (by simp [hidentity, huuid]) (by simp),
      Option.bind_some,
      copyInto_zero_append (by simp [hidentity, huuid]) (by simp),
      writeUInt8_next (by decide) (by simp [hidentity, huuid]) (by simp), Option.bind_some,
      writeUInt8_next (by decide) (by simp [hidentity, huuid]) (by simp),
      copyInto_whole (by simp [hidentity, huuid])]
    simp [layout]
  · rw [if_neg hid, writeUInt8, writeField, if_neg fun h => hid (by omega)]
    rfl

theorem length_layout (hidentity : identity.length = 16) :
    (layout identity uuid volumeId status).length = 41 := by
  simp [layout, hidentity, uuid.toHex_bytes.2]

/-! ## What is read back -/

theorem slice_identity (hidentity : identity.length = 16) :
    slice (layout identity uuid volumeId status) 5 21 = identity := by
  rw [layout, List.append_assoc _ uuid.bytes]
  exact slice_middle _ rfl (by rw [hidentity])

theorem slice_uuid (hidentity : identity.length = 16) :
    slice (layout identity uuid volumeId status) 21 37 = uuid.bytes :=
  slice_middle _ (by simp [hidentity]) (by rw [uuid.toHex_bytes.2])

theorem getElem?_id (hidentity : identity.length = 16) :
    (layout identity uuid volumeId status)[37]? = some (UInt8.ofNat volumeId) := by
  rw [layout, List.getElem?_append_right (by simp [hidentity, uuid.toHex_bytes.2])]
  simp [hidentity, uuid.toHex_bytes.2]

theorem compareRange_ok_iff {target data : Bytes} {lo hi : ℕ} {differs : VerifyError}
    (htarget : target.length = 16) (hdata : hi ≤ data.length) :
    compareRange target data lo hi differs = .ok () ↔ target = slice data lo hi := by
  rw [compareRange, if_neg (by omega), List.take_of_length_le (by omega)]
  split_ifs with h
  · constructor
    · intro hthrow
      cases hthrow
    · exact fun heq => absurd heq h
  · exact ⟨fun _ => not_not.mp h, fun _ => rfl⟩

theorem bind_eq_ok_iff {e : Except VerifyError Unit} {rest : Except VerifyError Unit} :
    (do e; rest) = .ok () ↔ e = .ok () ∧ rest = .ok () := by
  cases e with
  | error err =>
    constructor
    · intro h
      cases h
    · intro h
      cases h.1
  | ok u => exact ⟨fun h => ⟨rfl, h⟩, fun h => h.2⟩

/-- The check of a volume passes what was written for it, and nothing else that was written. -/
theorem verify_layout_iff {identity' : Bytes} {uuid' : VolumeUuid} {id' : ℕ}
    (hidentity : identity.length = 16) (hidentity' : identity'.length = 16)
    (hid : volumeId ≤ 255) :
    verify (some identity') uuid'.text id' ⟨true, true⟩
        (.bytes (layout identity uuid volumeId status)) = .ok () ↔
      identity' = identity ∧ uuid'.bytes = uuid.bytes ∧ id' = volumeId := by
  have hlength := @length_layout identity uuid volumeId status hidentity
  have htail : ∀ {i : ℕ} {x : UInt8}, 37 ≤ i →
      [UInt8.ofNat volumeId, status, 0x19, 0xfb][i - 37]? = some x →
      (layout identity uuid volumeId status)[i]? = some x := by
    intro i x hi hx
    rw [layout, List.getElem?_append_right (by simp [hidentity, uuid.toHex_bytes.2]; omega)]
    simpa [hidentity, uuid.toHex_bytes.2] using hx
  have hend : (layout identity uuid volumeId status)[39]? = some 0x19 ∧
      (layout identity uuid volumeId status)[40]? = some 0xfb :=
    ⟨htail (by omega) rfl, htail (by omega) rfl⟩
  have hmagic : ¬((layout identity uuid volumeId status)[0]? ≠ some 0x1f ∨
      (layout identity uuid volumeId status)[1]? ≠ some 0xfb ∨
      (layout identity uuid volumeId status)[2]? ≠ some 0x01 ∨
      (layout identity uuid volumeId status)[3]? ≠ some 0xfb ∨
      (layout identity uuid volumeId status)[
        (layout identity uuid volumeId status).length - 2]? ≠ some 0x19 ∨
      (layout identity uuid volumeId status)[
        (layout identity uuid volumeId status).length - 1]? ≠ some 0xfb) := by
    rw [hlength]
    simp only [hend, ne_eq, not_true_eq_false, or_false]
    simp [layout]
  have hversion : ¬(layout identity uuid volumeId status)[4]? ≠ some 1 := by simp [layout]
  have hnumber : (UInt8.ofNat volumeId).toNat = volumeId := by
    rw [UInt8.toNat_ofNat']
    omega
  simp only [verify, Bool.true_eq_false, if_false, if_neg hmagic, if_neg hversion]
  have huuid' : (uuidBytes uuid'.text).length = 16 := uuid'.toHex_bytes.2
  rw [bind_eq_ok_iff, bind_eq_ok_iff, compareRange_ok_iff hidentity' (by omega),
    compareRange_ok_iff huuid' (by omega), slice_identity hidentity,
    slice_uuid hidentity, getElem?_id hidentity, Option.map_some, hnumber]
  have hlast : (if some volumeId ≠ some id' then throw VerifyError.otherId else pure ()) =
      (Except.ok () : Except VerifyError Unit) ↔ id' = volumeId := by
    by_cases h : id' = volumeId
    · simp [h, pure, Except.pure]
    · simp [h, Ne.symm h, throw, throwThe, MonadExceptOf.throw]
  rw [hlast]
  rfl

theorem readIdentity_layout (path : Text) (hidentity : identity.length = 16)
    (hid : volumeId ≤ 255) :
    readIdentity path (.bytes (layout identity uuid volumeId status)) =
      .strubs ⟨hex identity, volumeId⟩ := by
  have hfield : ((layout identity uuid volumeId status).drop 5).take 16 = identity := by
    have h := @slice_identity identity uuid volumeId status hidentity
    rwa [slice, List.drop_take] at h
  have hnumber : (UInt8.ofNat volumeId).toNat = volumeId := by
    rw [UInt8.toNat_ofNat']
    omega
  rw [readIdentity, length_layout hidentity, if_neg (by decide), if_neg (by simp [layout,
    DeviceIdentityProbe.identityMagic]), hfield, List.getD_eq_getElem?_getD, getElem?_id hidentity,
    Option.getD_some, hnumber]

/-- The file of a volume can be written if its id fits a byte. It passes the check of that volume
in that array and of no other, and the wipe guard reads the array and the id back from it. -/
theorem identity_round_trip (identity : Bytes) (uuid : VolumeUuid) (volumeId : ℕ) (status : UInt8)
    (hidentity : identity.length = 16) :
    (volumeId ≤ 255 → ∃ data,
      buildVolumeIdentityBuffer volumeId uuid.text status identity = some data ∧
      (∀ (identity' : Bytes) (uuid' : VolumeUuid) (id' : ℕ), identity'.length = 16 →
        (verify (some identity') uuid'.text id' ⟨true, true⟩ (.bytes data) = .ok () ↔
          identity' = identity ∧ uuid'.bytes = uuid.bytes ∧ id' = volumeId)) ∧
      ∀ path, readIdentity path (.bytes data) = .strubs ⟨hex identity, volumeId⟩) ∧
    (255 < volumeId →
      buildVolumeIdentityBuffer volumeId uuid.text status identity = none) := by
  constructor
  · intro hid
    refine ⟨layout identity uuid volumeId status, ?_, ?_, ?_⟩
    · rw [build_eq hidentity, if_pos hid]
    · exact fun identity' uuid' id' hidentity' => verify_layout_iff hidentity hidentity' hid
    · exact fun path => readIdentity_layout path hidentity hid
  · intro hid
    rw [build_eq hidentity, if_neg (by omega)]

end Codec

/-- A uuid as the provisioner makes them. -/
def someUuid : VolumeUuid := ⟨"6f1c9a34-5b7e-4d02-9c11-0a2b3c4d5e6f".toList, by decide⟩

theorem identity_round_trip_first :
    ∃ data, buildVolumeIdentityBuffer 1 someUuid.text 0x4f (List.replicate 16 7) = some data ∧
      verify (some (List.replicate 16 7)) someUuid.text 1 ⟨true, true⟩ (.bytes data) = .ok () := by
  obtain ⟨data, hdata, hverify, -⟩ :=
    (identity_round_trip (List.replicate 16 7) someUuid 1 0x4f (by decide)).1 (by decide)
  exact ⟨data, hdata, (hverify _ someUuid 1 (by decide)).mpr ⟨rfl, rfl, rfl⟩⟩

/-- An array that has had 255 volumes gives the next one an id for which there is no file. -/
theorem identity_not_written : ¬∀ (identity : Bytes) (uuid : VolumeUuid) (existing : List ℕ),
    identity.length = 16 → ∃ data,
      buildVolumeIdentityBuffer (getNextVolumeId existing) uuid.text 0x4f identity = some data := by
  intro h
  obtain ⟨data, hdata⟩ := h (List.replicate 16 7) someUuid [255] (by decide)
  have hnone : buildVolumeIdentityBuffer 256 someUuid.text 0x4f (List.replicate 16 7) = none := by
    rw [build_eq (by decide), if_neg (by decide)]
  cases hnone.symm.trans hdata

end VolumeIdentity
