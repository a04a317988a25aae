import Mathlib.Algebra.Order.Floor.Div
import Mathlib.Data.Int.Init
import Mathlib.Tactic.Linarith
import Mathlib.Tactic.Ring

/-! # The chunk plan of an object

Sizes are below 2^53, where a double-precision quotient rounded up or down is the exact
one, so the source's arithmetic is integer arithmetic. A slice holds one start chunk,
`standardChunkCountPerSlice` standard chunks and possibly one end chunk. -/
namespace ChunkPlan

def fileHeaderSize : ℕ := 48
def chunkHeaderSize : ℕ := 16
def maxSafeInteger : ℕ := 2 ^ 53 - 1

/-- `Math.ceil(x / 8) * 8`. -/
def ceil8 (x : ℕ) : ℕ := x ⌈/⌉ 8 * 8

/-- `Math.ceil(a / b)` for a numerator of either sign. -/
def ceilDivInt (a : ℤ) (b : ℕ) : ℤ := -((-a) / b)

structure Plan where
  fileSize : ℕ
  dataSliceCount : ℕ
  chunkSize : ℕ
  sliceSize : ℕ
  startChunkDataSize : ℕ
  standardChunkDataSize : ℕ
  endChunkDataSize : ℕ
  standardChunkCountPerSlice : ℕ
  standardChunkSetOffset : ℕ
  endChunkSetDataOffset : ℕ
  deriving DecidableEq, Repr

/-- The end chunk set may hold a negative number of bytes, when the last full chunk set
is itself padded. For a nonempty object it then rounds up to an end chunk of no bytes. -/
def populatePlanDerivedFields (fileSize dataSliceCount chunkSize : ℕ) : Plan :=
  let sliceDataSize := fileSize ⌈/⌉ dataSliceCount
  let startChunkSize : ℤ := chunkSize - fileHeaderSize
  let chunkCount : ℤ := 1 + ceilDivInt (sliceDataSize - startChunkSize + chunkHeaderSize)
    (chunkSize - chunkHeaderSize)
  let standardChunkDataSize := chunkSize - chunkHeaderSize
  let startChunkDataSize := ceil8 (max 1
    (min (standardChunkDataSize - fileHeaderSize) (fileSize / dataSliceCount)))
  let standardChunkSetOffset := startChunkDataSize * dataSliceCount
  let bytesRemaining := fileSize - standardChunkSetOffset
  let bytesRemainingPerSlice := bytesRemaining ⌈/⌉ dataSliceCount
  let standardChunkCountPerSlice := bytesRemainingPerSlice / standardChunkDataSize
  let totalBytesInStandardChunks :=
    standardChunkCountPerSlice * standardChunkDataSize * dataSliceCount
  let totalBytesBeforeEndChunkSet := standardChunkSetOffset + totalBytesInStandardChunks
  let endChunkSetBytes : ℤ := fileSize - totalBytesBeforeEndChunkSet
  let endChunkDataSize : ℤ := ceilDivInt (ceilDivInt endChunkSetBytes dataSliceCount) 8 * 8
  { fileSize, dataSliceCount, chunkSize, startChunkDataSize, standardChunkDataSize,
    standardChunkCountPerSlice, standardChunkSetOffset
    sliceSize := (fileHeaderSize + sliceDataSize + chunkHeaderSize * chunkCount).toNat
    endChunkSetDataOffset := (fileSize - endChunkSetBytes).toNat
    endChunkDataSize := endChunkDataSize.toNat }

/-- The shape of an object for which a plan makes sense. -/
structure Geometry where
  size : ℕ
  dataSliceCount : ℕ
  paritySliceCount : ℕ
  chunkSize : ℕ
  data_pos : 0 < dataSliceCount
  parity_pos : 0 < paritySliceCount
  chunk_large : 64 < chunkSize
  chunk_eight : 8 ∣ chunkSize

namespace Geometry

variable (g : Geometry)

def totalSliceCount : ℕ := g.dataSliceCount + g.paritySliceCount
def plan : Plan := populatePlanDerivedFields g.size g.dataSliceCount g.chunkSize

/-- Data bytes of every slice's chunk in the `k`-th chunk set. -/
def chunkDataSizeAt (k : ℕ) : ℕ :=
  if k = 0 then g.plan.startChunkDataSize
  else if k ≤ g.plan.standardChunkCountPerSlice then g.plan.standardChunkDataSize
  else g.plan.endChunkDataSize

/-- Where the `k`-th chunk set begins in the object. -/
def chunkSetOffset : ℕ → ℕ
  | 0 => 0
  | k + 1 => chunkSetOffset k + g.chunkDataSizeAt k * g.dataSliceCount

/-- How many chunk sets begin inside the object. -/
def chunkSetCount : ℕ :=
  if g.size = 0 then 0
  else if g.size ≤ g.plan.endChunkSetDataOffset then g.plan.standardChunkCountPerSlice + 1
  else g.plan.standardChunkCountPerSlice + 2

end Geometry

theorem ceil8_spec (x : ℕ) : 8 ∣ ceil8 x ∧ x ≤ ceil8 x ∧ ceil8 x < x + 8 := by
  simp only [ceil8, Nat.ceilDiv_eq_add_pred_div]
  omega

theorem ceil8_le {x y : ℕ} (h : x ≤ y) (hy : 8 ∣ y) : ceil8 x ≤ y := by
  simp only [ceil8, Nat.ceilDiv_eq_add_pred_div]
  omega

theorem ceilDiv_bounds (a : ℕ) {b : ℕ} (hb : 0 < b) :
    a ≤ (a ⌈/⌉ b) * b ∧ (a ⌈/⌉ b) * b < a + b := by
  have h1 := (ceilDiv_le_iff_le_mul (a := b) (b := a) hb).mp le_rfl
  refine ⟨by rw [Nat.mul_comm]; exact h1, ?_⟩
  by_contra h
  have hpos : 0 < a ⌈/⌉ b := by
    by_contra h0
    have : a ⌈/⌉ b = 0 := by omega
    simp only [this, Nat.zero_mul] at h
    omega
  have h2 : a ⌈/⌉ b ≤ a ⌈/⌉ b - 1 := by
    apply (ceilDiv_le_iff_le_mul (a := b) (b := a) hb).mpr
    rw [Nat.mul_sub, Nat.mul_one, Nat.mul_comm]
    omega
  omega

theorem ceilDivInt_of_nonneg (a : ℕ) {b : ℕ} (hb : 0 < b) :
    ceilDivInt (a : ℤ) b = (a ⌈/⌉ b : ℕ) := by
  obtain ⟨h1, h2⟩ := ceilDiv_bounds a hb
  have hb' : (0 : ℤ) < b := by exact_mod_cast hb
  unfold ceilDivInt
  have h : (-(a : ℤ)) / b = -((a ⌈/⌉ b : ℕ) : ℤ) := by
    rw [Int.ediv_eq_iff_of_pos hb']
    constructor <;> nlinarith [h1, h2]
  rw [h, neg_neg]

theorem ceilDivInt_nonpos {a : ℤ} (ha : a ≤ 0) (b : ℕ) : ceilDivInt a b ≤ 0 := by
  have : 0 ≤ (-a) / (b : ℤ) := Int.ediv_nonneg (by omega) (by omega)
  unfold ceilDivInt
  omega

namespace Geometry

variable (g : Geometry)

theorem plan_setOffset :
    g.plan.standardChunkSetOffset = g.plan.startChunkDataSize * g.dataSliceCount := rfl

theorem plan_endOffset : g.plan.endChunkSetDataOffset = g.plan.standardChunkSetOffset +
    g.plan.standardChunkCountPerSlice * g.plan.standardChunkDataSize * g.dataSliceCount := by
  simp only [plan, populatePlanDerivedFields]
  omega

theorem plan_standard : g.plan.standardChunkDataSize = g.chunkSize - 16 := rfl

theorem standard_spec : 8 ∣ g.plan.standardChunkDataSize ∧
    48 < g.plan.standardChunkDataSize := by
  have h1 := g.chunk_large
  have h2 := g.chunk_eight
  rw [plan_standard]
  omega

theorem start_spec : 8 ∣ g.plan.startChunkDataSize ∧ 0 < g.plan.startChunkDataSize ∧
    g.plan.startChunkDataSize + 48 ≤ g.plan.standardChunkDataSize ∧
    g.plan.startChunkDataSize * g.dataSliceCount ≤ g.size + 8 * g.dataSliceCount := by
  obtain ⟨hT8, hT⟩ := g.standard_spec
  have hs : g.plan.startChunkDataSize = ceil8 (max 1
    (min (g.plan.standardChunkDataSize - 48) (g.size / g.dataSliceCount))) := rfl
  have hq := Nat.div_mul_le_self g.size g.dataSliceCount
  generalize g.size / g.dataSliceCount = q at hs hq
  obtain ⟨h8, hle, hlt⟩ := ceil8_spec (max 1 (min (g.plan.standardChunkDataSize - 48) q))
  rw [← hs] at h8 hle hlt
  have hcap : g.plan.startChunkDataSize ≤ g.plan.standardChunkDataSize - 48 := by
    rw [hs]
    exact ceil8_le (by omega) (by omega)
  have hmul := Nat.mul_le_mul_right g.dataSliceCount
    (show g.plan.startChunkDataSize ≤ q + 8 by omega)
  rw [Nat.add_mul] at hmul
  exact ⟨h8, by omega, by omega, by omega⟩

/-- The full chunk sets do not reach beyond the object by as much as one byte a slice. -/
theorem standard_sets_bound (hn : 0 < g.plan.standardChunkCountPerSlice) :
    g.plan.endChunkSetDataOffset < g.size + g.dataSliceCount := by
  have hD := g.data_pos
  have hcount : g.plan.standardChunkCountPerSlice =
    (g.size - g.plan.standardChunkSetOffset) ⌈/⌉ g.dataSliceCount /
      g.plan.standardChunkDataSize := rfl
  obtain ⟨_, hlt⟩ := ceilDiv_bounds (g.size - g.plan.standardChunkSetOffset) hD
  have hle := Nat.div_mul_le_self
    ((g.size - g.plan.standardChunkSetOffset) ⌈/⌉ g.dataSliceCount) g.plan.standardChunkDataSize
  rw [← hcount] at hle
  have hmul := Nat.mul_le_mul_right g.dataSliceCount hle
  have hpos : 0 < g.size - g.plan.standardChunkSetOffset := by
    by_contra h0
    have : g.size - g.plan.standardChunkSetOffset = 0 := by omega
    rw [hcount, this, zero_ceilDiv, Nat.zero_div] at hn
    omega
  rw [plan_endOffset]
  omega

theorem end_bytes : (g.plan.endChunkDataSize : ℤ) =
    max 0 (ceilDivInt (ceilDivInt (g.size - g.plan.endChunkSetDataOffset)
      g.dataSliceCount) 8 * 8) := by
  simp only [plan, populatePlanDerivedFields]
  rw [Int.ofNat_toNat, max_comm]
  congr 4
  omega

theorem end_of_le (h : g.size ≤ g.plan.endChunkSetDataOffset) :
    g.plan.endChunkDataSize = 0 := by
  have h1 := ceilDivInt_nonpos (a := (g.size : ℤ) - g.plan.endChunkSetDataOffset)
    (by omega) g.dataSliceCount
  have h2 := ceilDivInt_nonpos h1 8
  have := g.end_bytes
  omega

theorem end_of_lt (h : g.plan.endChunkSetDataOffset < g.size) :
    g.plan.endChunkDataSize =
      ceil8 ((g.size - g.plan.endChunkSetDataOffset) ⌈/⌉ g.dataSliceCount) := by
  have hb := g.end_bytes
  rw [show (g.size : ℤ) - g.plan.endChunkSetDataOffset =
      ((g.size - g.plan.endChunkSetDataOffset : ℕ) : ℤ) by omega,
    ceilDivInt_of_nonneg _ g.data_pos, ceilDivInt_of_nonneg _ (by omega)] at hb
  unfold ceil8
  omega

/-- The end chunk set covers what the full ones leave, in chunks no longer than theirs. -/
theorem end_spec (h : g.plan.endChunkSetDataOffset < g.size) :
    8 ∣ g.plan.endChunkDataSize ∧ 0 < g.plan.endChunkDataSize ∧
    g.plan.endChunkDataSize ≤ g.plan.standardChunkDataSize ∧
    g.size ≤ g.plan.endChunkSetDataOffset + g.plan.endChunkDataSize * g.dataSliceCount ∧
    g.plan.endChunkSetDataOffset + g.plan.endChunkDataSize * g.dataSliceCount ≤
      g.size + 8 * g.dataSliceCount := by
  have hD := g.data_pos
  obtain ⟨hT8, hT⟩ := g.standard_spec
  have he := g.end_of_lt h
  set r := g.size - g.plan.endChunkSetDataOffset with hr
  obtain ⟨hc1, hc2⟩ := ceilDiv_bounds r hD
  obtain ⟨h8, hle, hlt⟩ := ceil8_spec (r ⌈/⌉ g.dataSliceCount)
  rw [← he] at h8 hle hlt
  have hrest : r ⌈/⌉ g.dataSliceCount ≤ g.plan.standardChunkDataSize := by
    apply (ceilDiv_le_iff_le_mul hD).mpr
    have hlt' := Nat.lt_div_mul_add (a := (g.size - g.plan.standardChunkSetOffset) ⌈/⌉
      g.dataSliceCount) (b := g.plan.standardChunkDataSize) (by omega)
    rw [show (g.size - g.plan.standardChunkSetOffset) ⌈/⌉ g.dataSliceCount /
      g.plan.standardChunkDataSize = g.plan.standardChunkCountPerSlice from rfl] at hlt'
    have hup := (ceilDiv_bounds (g.size - g.plan.standardChunkSetOffset) hD).1
    have hmul := Nat.mul_le_mul_right g.dataSliceCount (Nat.le_of_lt hlt')
    rw [Nat.add_mul] at hmul
    have := g.plan_endOffset
    rw [Nat.mul_comm g.dataSliceCount]
    omega
  have hcap : g.plan.endChunkDataSize ≤ g.plan.standardChunkDataSize := by
    rw [he]
    exact ceil8_le hrest hT8
  have hpos : 0 < r ⌈/⌉ g.dataSliceCount := by
    by_contra h0
    have : r ⌈/⌉ g.dataSliceCount = 0 := by omega
    rw [this] at hc1
    omega
  have hmul1 := Nat.mul_le_mul_right g.dataSliceCount hle
  have hmul2 := Nat.mul_le_mul_right g.dataSliceCount
    (show g.plan.endChunkDataSize ≤ r ⌈/⌉ g.dataSliceCount + 7 by omega)
  rw [Nat.add_mul] at hmul2
  exact ⟨h8, by omega, hcap, by omega, by omega⟩

theorem chunkSetOffset_succ (k : ℕ) : g.chunkSetOffset (k + 1) =
    g.chunkSetOffset k + g.chunkDataSizeAt k * g.dataSliceCount := rfl

theorem chunkSetOffset_standard {k : ℕ} (h : k ≤ g.plan.standardChunkCountPerSlice) :
    g.chunkSetOffset (k + 1) = g.plan.standardChunkSetOffset +
      k * (g.plan.standardChunkDataSize * g.dataSliceCount) := by
  induction k with
  | zero => simp [chunkSetOffset, chunkDataSizeAt, plan_setOffset]
  | succ k ih =>
    rw [chunkSetOffset_succ, ih (by omega), chunkDataSizeAt, if_neg (by omega), if_pos h]
    ring

theorem chunkSetOffset_end : g.chunkSetOffset (g.plan.standardChunkCountPerSlice + 1) =
    g.plan.endChunkSetDataOffset := by
  rw [chunkSetOffset_standard g le_rfl, plan_endOffset]
  ring

theorem chunkSetOffset_last : g.chunkSetOffset (g.plan.standardChunkCountPerSlice + 2) =
    g.plan.endChunkSetDataOffset + g.plan.endChunkDataSize * g.dataSliceCount := by
  rw [chunkSetOffset_succ, chunkSetOffset_end, chunkDataSizeAt, if_neg (by omega),
    if_neg (by omega)]

theorem chunkSetOffset_mono {j k : ℕ} (h : j ≤ k) :
    g.chunkSetOffset j ≤ g.chunkSetOffset k := by
  induction k, h using Nat.le_induction with
  | base => exact le_rfl
  | succ k _ ih => rw [chunkSetOffset_succ]; omega

theorem chunkDataSizeAt_spec (k : ℕ) :
    8 ∣ g.chunkDataSizeAt k ∧ g.chunkDataSizeAt k ≤ g.plan.standardChunkDataSize := by
  have hs := g.start_spec
  have hT := g.standard_spec
  unfold chunkDataSizeAt
  split_ifs
  · omega
  · omega
  · rcases Nat.lt_or_ge g.plan.endChunkSetDataOffset g.size with h | h
    · have := g.end_spec h; omega
    · rw [g.end_of_le h]; omega

theorem chunkDataSizeAt_pos {k : ℕ} (h : k ≤ g.plan.standardChunkCountPerSlice) :
    0 < g.chunkDataSizeAt k := by
  have hs := g.start_spec
  have hT := g.standard_spec
  unfold chunkDataSizeAt
  split_ifs <;> omega

/-- The full chunk sets all begin inside a nonempty object. -/
theorem chunkSetOffset_lt_size {k : ℕ} (hS : 0 < g.size)
    (h : k ≤ g.plan.standardChunkCountPerSlice) : g.chunkSetOffset k < g.size := by
  rcases k with _ | k
  · exact hS
  have hn := g.standard_sets_bound (by omega)
  have hoff := g.chunkSetOffset_standard (show k ≤ _ by omega)
  have hT := g.standard_spec
  have hstep := Nat.mul_le_mul_right (g.plan.standardChunkDataSize * g.dataSliceCount)
    (show k + 1 ≤ g.plan.standardChunkCountPerSlice by omega)
  have hD : g.dataSliceCount ≤ g.plan.standardChunkDataSize * g.dataSliceCount :=
    Nat.le_mul_of_pos_left _ (by omega)
  have hend := g.plan_endOffset
  rw [Nat.mul_assoc] at hend
  rw [Nat.add_mul, Nat.one_mul] at hstep
  omega

theorem chunkSetCount_spec (hS : 0 < g.size) : ∃ last, g.chunkSetCount = last + 1 ∧
    g.plan.standardChunkCountPerSlice ≤ last ∧
    last ≤ g.plan.standardChunkCountPerSlice + 1 ∧
    g.chunkSetOffset last < g.size ∧ g.size ≤ g.chunkSetOffset (last + 1) := by
  unfold chunkSetCount
  rw [if_neg (by omega)]
  split_ifs with h
  · exact ⟨_, rfl, le_rfl, by omega, g.chunkSetOffset_lt_size hS le_rfl,
      by rw [chunkSetOffset_end]; exact h⟩
  · refine ⟨_, rfl, by omega, le_rfl, by rw [chunkSetOffset_end]; omega, ?_⟩
    rw [chunkSetOffset_last]
    exact (g.end_spec (by omega)).2.2.2.1

/-- The chunk sets below `chunkSetCount` are exactly those that begin inside the object. -/
theorem lt_chunkSetCount_iff {k : ℕ} : k < g.chunkSetCount ↔ g.chunkSetOffset k < g.size := by
  rcases Nat.eq_zero_or_pos g.size with hS | hS
  · simp [chunkSetCount, hS]
  obtain ⟨last, hc, _, _, hlt, hge⟩ := g.chunkSetCount_spec hS
  rw [hc]
  constructor
  · intro hk
    exact lt_of_le_of_lt (g.chunkSetOffset_mono (by omega)) hlt
  · intro hk
    by_contra h
    have := g.chunkSetOffset_mono (show last + 1 ≤ k by omega)
    omega

theorem chunkSetCount_le : g.chunkSetCount ≤ g.plan.standardChunkCountPerSlice + 2 := by
  unfold chunkSetCount
  split_ifs <;> omega

theorem chunkDataSizeAt_pos_of_lt {k : ℕ} (h : k < g.chunkSetCount) :
    0 < g.chunkDataSizeAt k := by
  rcases Nat.lt_or_ge g.plan.standardChunkCountPerSlice k with hk | hk
  · have hle := g.chunkSetCount_le
    have hk' : k = g.plan.standardChunkCountPerSlice + 1 := by omega
    have hlt := g.lt_chunkSetCount_iff.mp h
    rw [hk', chunkSetOffset_end] at hlt
    rw [chunkDataSizeAt, if_neg (by omega), if_neg (by omega)]
    exact (g.end_spec hlt).2.1
  · exact g.chunkDataSizeAt_pos hk

/-- No chunk set boundary comes near the largest exact integer. -/
theorem chunkSetOffset_le (k : ℕ) (h : k ≤ g.plan.standardChunkCountPerSlice + 2) :
    g.chunkSetOffset k ≤ g.size + 8 * g.dataSliceCount := by
  refine (g.chunkSetOffset_mono h).trans ?_
  rw [chunkSetOffset_last]
  have hD := g.data_pos
  rcases Nat.lt_or_ge g.plan.endChunkSetDataOffset g.size with hlt | hge
  · exact (g.end_spec hlt).2.2.2.2
  · rw [g.end_of_le hge, Nat.zero_mul, Nat.add_zero]
    rcases Nat.eq_zero_or_pos g.plan.standardChunkCountPerSlice with h0 | hn
    · rw [plan_endOffset, h0, Nat.zero_mul, Nat.zero_mul, Nat.add_zero, plan_setOffset]
      exact g.start_spec.2.2.2
    · have := g.standard_sets_bound hn
      omega

end Geometry

end ChunkPlan
