import Mathlib.Data.List.Basic

/-! # Message digests

Everything about a digest that a format needs is that it is a function of the bytes with
a fixed length. `standard` is MD5 itself. -/
namespace MessageDigest

abbrev Bytes := List UInt8

structure Md5 where
  digest : Bytes → Bytes
  length_digest : ∀ b, (digest b).length = 16

/-- The `n` low bytes of a value, least significant first. -/
def leBytes (value : ℕ) : ℕ → Bytes
  | 0 => []
  | n + 1 => UInt8.ofNat value :: leBytes (value / 256) n

@[simp] theorem length_leBytes (value n : ℕ) : (leBytes value n).length = n := by
  induction n generalizing value with
  | zero => rfl
  | succ n ih => simp [leBytes, ih]

def sineTable : List UInt32 := [
  0xd76aa478, 0xe8c7b756, 0x242070db, 0xc1bdceee, 0xf57c0faf, 0x4787c62a, 0xa8304613, 0xfd469501,
  0x698098d8, 0x8b44f7af, 0xffff5bb1, 0x895cd7be, 0x6b901122, 0xfd987193, 0xa679438e, 0x49b40821,
  0xf61e2562, 0xc040b340, 0x265e5a51, 0xe9b6c7aa, 0xd62f105d, 0x02441453, 0xd8a1e681, 0xe7d3fbc8,
  0x21e1cde6, 0xc33707d6, 0xf4d50d87, 0x455a14ed, 0xa9e3e905, 0xfcefa3f8, 0x676f02d9, 0x8d2a4c8a,
  0xfffa3942, 0x8771f681, 0x6d9d6122, 0xfde5380c, 0xa4beea44, 0x4bdecfa9, 0xf6bb4b60, 0xbebfbc70,
  0x289b7ec6, 0xeaa127fa, 0xd4ef3085, 0x04881d05, 0xd9d4d039, 0xe6db99e5, 0x1fa27cf8, 0xc4ac5665,
  0xf4292244, 0x432aff97, 0xab9423a7, 0xfc93a039, 0x655b59c3, 0x8f0ccc92, 0xffeff47d, 0x85845dd1,
  0x6fa87e4f, 0xfe2ce6e0, 0xa3014314, 0x4e0811a1, 0xf7537e82, 0xbd3af235, 0x2ad7d2bb, 0xeb86d391]

def shiftTable : List (List UInt32) :=
  [[7, 12, 17, 22], [5, 9, 14, 20], [4, 11, 16, 23], [6, 10, 15, 21]]

structure Chain where
  a : UInt32
  b : UInt32
  c : UInt32
  d : UInt32

def Chain.initial : Chain := ⟨0x67452301, 0xefcdab89, 0x98badcfe, 0x10325476⟩

def rotateLeft (x n : UInt32) : UInt32 := x <<< n ||| x >>> (32 - n)

def mix (h : Chain) (i : ℕ) : UInt32 × ℕ :=
  if i < 16 then (h.b &&& h.c ||| ~~~h.b &&& h.d, i)
  else if i < 32 then (h.d &&& h.b ||| ~~~h.d &&& h.c, (5 * i + 1) % 16)
  else if i < 48 then (h.b ^^^ h.c ^^^ h.d, (3 * i + 5) % 16)
  else (h.c ^^^ (h.b ||| ~~~h.d), 7 * i % 16)

def step (words : List UInt32) (h : Chain) (i : ℕ) : Chain :=
  let (f, g) := mix h i
  let sum := f + h.a + (sineTable[i]?.getD 0) + (words[g]?.getD 0)
  let shift := (shiftTable[i / 16]?.getD [])[i % 4]?.getD 0
  ⟨h.d, h.b + rotateLeft sum shift, h.b, h.c⟩

def word (block : Bytes) (i : ℕ) : UInt32 :=
  ((block.drop (4 * i)).take 4).foldr (fun x w => w <<< 8 ||| x.toUInt32) 0

def compress (h : Chain) (block : Bytes) : Chain :=
  let h' := (List.range 64).foldl (step ((List.range 16).map (word block))) h
  ⟨h.a + h'.a, h.b + h'.b, h.c + h'.c, h.d + h'.d⟩

def pad (b : Bytes) : Bytes :=
  b ++ 0x80 :: List.replicate ((119 - b.length % 64) % 64) 0 ++ leBytes (8 * b.length) 8

def standardDigest (b : Bytes) : Bytes :=
  let padded := pad b
  let h := (List.range (padded.length / 64)).foldl
    (fun h i => compress h ((padded.drop (64 * i)).take 64)) Chain.initial
  leBytes h.a.toNat 4 ++ leBytes h.b.toNat 4 ++ leBytes h.c.toNat 4 ++ leBytes h.d.toNat 4

def standard : Md5 where
  digest := standardDigest
  length_digest b := by simp [standardDigest]

example : standardDigest [] = [0xd4, 0x1d, 0x8c, 0xd9, 0x8f, 0x00, 0xb2, 0x04,
    0xe9, 0x80, 0x09, 0x98, 0xec, 0xf8, 0x42, 0x7e] := by decide +kernel

end MessageDigest
