import Strubs.FileObjectBase
import Strubs.SliceFile

/-! # The ids of objects

Time, host, process and a counter that wraps, one after the other in twelve bytes. The counter
is written as a signed number, of which the upper half of its values is none. -/
namespace ObjectIdGenerator

open ByteBuffer MessageDigest SliceFile
open FileObjectBase (allocUnsafe)

/-- The `n` low bytes of a value, most significant first. -/
def beBytes (value n : ℕ) : Bytes := (leBytes value n).reverse

/-- Writes a signed number that is not negative. What its width cannot hold throws. -/
def writeIntBE (value offset byteLength : ℕ) (buf : Bytes) : Option Bytes :=
  if value < 2 ^ (8 * byteLength - 1) ∧ offset + byteLength ≤ buf.length then
    some (copyInto buf offset (beBytes value byteLength))
  else none

def writeInt32BE (value offset : ℕ) (buf : Bytes) : Option Bytes := writeIntBE value offset 4 buf

def writeInt16BE (value offset : ℕ) (buf : Bytes) : Option Bytes := writeIntBE value offset 2 buf

/-- What a process is started with. -/
structure Host where
  hostname : Bytes
  pid : ℕ

variable (md5 : Md5) (memory : ℕ → UInt8) (host : Host)

def hostId : Bytes := (md5.digest host.hostname).drop 13

def objectIdPid : ℕ := host.pid &&& 0xff

/-- With it goes the counter, which is raised even by a call that throws. -/
def generateObjectId (now objectIdCounter : ℕ) : Option Bytes × ℕ :=
  let objectIdCounter := objectIdCounter + 1
  let objectIndex := objectIdCounter &&& 0xffffff
  let time := now / 1000
  (do
    let result ← writeInt32BE time 0 (allocUnsafe memory 12)
    let result := copyInto result 4 (hostId md5 host)
    let result ← writeInt16BE (objectIdPid host) 7 result
    writeIntBE objectIndex 9 3 result,
    objectIdCounter)

/-- One call after another, each at its time. -/
def generateObjectIds : List ℕ → ℕ → List (Option Bytes)
  | [], _ => []
  | now :: times, objectIdCounter =>
    let (id, objectIdCounter) := generateObjectId md5 memory host now objectIdCounter
    id :: generateObjectIds times objectIdCounter

/-- No call throws, every id has its twelve bytes, and no two are the same. -/
structure Available (results : List (Option Bytes)) : Prop where
  returned : ∀ result ∈ results, ∃ id, result = some id ∧ id.length = 12
  distinct : results.Nodup

/-! ## One id -/

section Id

variable {md5 memory host} {now objectIdCounter : ℕ}

@[simp] theorem length_beBytes (value n : ℕ) : (beBytes value n).length = n := by
  simp [beBytes]

theorem beBytes_injective {n a b : ℕ} (ha : a < 256 ^ n) (hb : b < 256 ^ n)
    (h : beBytes a n = beBytes b n) : a = b := by
  have hle : leBytes a n = leBytes b n := List.reverse_injective h
  rw [← readUIntLE_leBytes n a ha, ← readUIntLE_leBytes n b hb, hle]

theorem length_hostId : (hostId md5 host).length = 3 := by
  simp [hostId, md5.length_digest]

theorem objectIdPid_lt : objectIdPid host < 2 ^ 8 := Nat.and_lt_two_pow _ (by norm_num)

theorem index_eq (n : ℕ) : n &&& 0xffffff = n % 2 ^ 24 := Nat.and_two_pow_sub_one_eq_mod n 24

variable (md5 host) in
/-- An id with its fields in place. -/
def layout (now objectIndex : ℕ) : Bytes :=
  beBytes (now / 1000) 4 ++ hostId md5 host ++ beBytes (objectIdPid host) 2 ++
    beBytes objectIndex 3

theorem length_layout (now objectIndex : ℕ) : (layout md5 host now objectIndex).length = 12 := by
  simp [layout, length_hostId]

/-- The counter is at the end of an id, and tells ids apart. -/
theorem layout_injective {now now' i j : ℕ} (hi : i < 2 ^ 24) (hj : j < 2 ^ 24)
    (h : layout md5 host now i = layout md5 host now' j) : i = j := by
  have htail := (List.append_inj' h (by simp)).2
  exact beBytes_injective (by omega) (by omega) htail

/-- A call throws if the signed field cannot hold the index, and else there is an id. -/
theorem generateObjectId_eq (hnow : now / 1000 < 2 ^ 31) :
    generateObjectId md5 memory host now objectIdCounter =
      (if (objectIdCounter + 1) % 2 ^ 24 < 2 ^ 23 then
        some (layout md5 host now ((objectIdCounter + 1) % 2 ^ 24))
      else none, objectIdCounter + 1) := by
  have hpid := @objectIdPid_lt host
  have hhost := @length_hostId md5 host
  have hbuf : (allocUnsafe memory 12).length = 12 := by simp
  rw [generateObjectId]
  simp only [writeInt32BE, writeInt16BE, writeIntBE, index_eq]
  rw [if_pos ⟨hnow, by simp⟩]
  simp only [Option.bind_eq_bind, Option.bind_some]
  rw [copyInto_zero_append (by simp) (by simp [hhost]), if_pos ⟨by omega, by simp⟩]
  simp only [Option.bind_some]
  rw [copyInto_zero_append (by simp [hhost]) (by simp)]
  by_cases hindex : (objectIdCounter + 1) % 2 ^ 24 < 2 ^ 23
  · rw [if_pos hindex, if_pos ⟨hindex, by simp⟩, copyInto_zero_append (by simp [hhost]) (by simp),
      copyInto_whole (by simp [hhost])]
    rfl
  · rw [if_neg hindex, if_neg fun h => hindex h.1]

end Id

/-! ## A run of calls -/

section Run

variable {md5 memory host}

/-- The results of a run are those of its calls. -/
theorem generateObjectIds_eq (times : List ℕ) (objectIdCounter : ℕ) :
    generateObjectIds md5 memory host times objectIdCounter = times.mapIdx fun i now =>
      (generateObjectId md5 memory host now (objectIdCounter + i)).1 := by
  induction times generalizing objectIdCounter with
  | nil => rfl
  | cons now times ih =>
    rw [List.mapIdx_cons, generateObjectIds]
    apply congrArg (List.cons _)
    rw [ih]
    apply congrArg (List.mapIdx · times)
    funext i now
    rw [Nat.add_right_comm, Nat.add_assoc]

/-- Fewer than 2^24 calls that one clock allows get their ids exactly if no call draws an index
from the upper half of the counter. -/
theorem ids_available_iff (times : List ℕ) (objectIdCounter : ℕ) (hlength : times.length < 2 ^ 24)
    (hclock : ∀ now ∈ times, now / 1000 < 2 ^ 31) :
    Available (generateObjectIds md5 memory host times objectIdCounter) ↔
      ∀ i < times.length, (objectIdCounter + 1 + i) % 2 ^ 24 < 2 ^ 23 := by
  have hget : ∀ i (hi : i < times.length),
      (generateObjectIds md5 memory host times objectIdCounter)[i]? =
        some (if (objectIdCounter + 1 + i) % 2 ^ 24 < 2 ^ 23 then
          some (layout md5 host times[i] ((objectIdCounter + 1 + i) % 2 ^ 24)) else none) := by
    intro i hi
    rw [generateObjectIds_eq, List.getElem?_mapIdx, List.getElem?_eq_getElem hi, Option.map_some,
      generateObjectId_eq (hclock _ (List.getElem_mem hi)), Nat.add_right_comm]
  have hresults : (generateObjectIds md5 memory host times objectIdCounter).length =
      times.length := by
    rw [generateObjectIds_eq, List.length_mapIdx]
  constructor
  · intro h i hi
    by_contra hthrows
    obtain ⟨id, hid, -⟩ := h.returned _ (List.mem_of_getElem? (hget i hi))
    rw [if_neg hthrows] at hid
    cases hid
  · intro h
    constructor
    · intro result hresult
      obtain ⟨i, hi⟩ := List.mem_iff_getElem?.mp hresult
      have hlt : i < times.length := by
        rw [← hresults]
        exact (List.getElem?_eq_some_iff.mp hi).1
      rw [hget i hlt, if_pos (h i hlt)] at hi
      exact ⟨_, (Option.some.inj hi).symm, length_layout _ _⟩
    · rw [List.nodup_iff_injective_getElem]
      intro i j hij
      have hi : i.val < times.length := hresults ▸ i.isLt
      have hj : j.val < times.length := hresults ▸ j.isLt
      have heq := congrArg some hij
      simp only [← List.getElem?_eq_getElem] at heq
      rw [hget _ hi, hget _ hj, if_pos (h _ hi), if_pos (h _ hj)] at heq
      -- fewer calls than the counter has values: the index of each is its own
      have hindex := layout_injective (Nat.mod_lt _ (by norm_num)) (Nat.mod_lt _ (by norm_num))
        (Option.some.inj (Option.some.inj heq))
      apply Fin.ext
      omega

end Run

/-- Two calls of a process that has just begun. -/
theorem ids_available_first : [0, 1500].length < 2 ^ 24 ∧
    (Available (generateObjectIds standard (fun _ => 0) ⟨[], 4242⟩ [0, 1500] 0) ↔
      ∀ i < [0, 1500].length, (0 + 1 + i) % 2 ^ 24 < 2 ^ 23) :=
  ⟨by decide, ids_available_iff [0, 1500] 0 (by decide) (by decide)⟩

/-- After 2^23 - 1 calls the next one throws. -/
theorem ids_run_out : ¬∀ (md5 : Md5) (memory : ℕ → UInt8) (host : Host) (times : List ℕ)
    (objectIdCounter : ℕ), times.length < 2 ^ 24 → times.Pairwise (· ≤ ·) →
    (∀ now ∈ times, now / 1000 < 2 ^ 31) →
    Available (generateObjectIds md5 memory host times objectIdCounter) := by
  intro h
  have havailable := h standard (fun _ => 0) ⟨[], 4242⟩ [0] (2 ^ 23 - 1) (by decide) (by simp)
    (by decide)
  have hthrows : (generateObjectId standard (fun _ => 0) ⟨[], 4242⟩ 0 (2 ^ 23 - 1)).1 = none := by
    have hindex : ¬(2 ^ 23 - 1 + 1) % 2 ^ 24 < 2 ^ 23 := by decide
    rw [generateObjectId_eq (by decide), if_neg hindex]
  obtain ⟨id, hid, -⟩ := havailable.returned none (List.mem_singleton.mpr hthrows.symm)
  cases hid

end ObjectIdGenerator
