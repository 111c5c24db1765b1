import Mathlib.Data.Nat.Digits.Defs
import Mathlib.Data.Nat.Prime.Defs
import Mhda.Blocks

set_option autoImplicit false

namespace Mhda.SecureHash
open Mhda.Blocks

abbrev Word := BitVec 32
abbrev Octet := UInt8

section Padding

/-- The octets of zero bits between the end mark and the length field. -/
def zeroOctets (n : ℕ) : ℕ := (119 - n % 64) % 64

/-- The message length in bits, as 64 bits with the most significant octet first. -/
def lengthField (n : ℕ) : List Octet :=
  (List.range 8).map fun i => .ofBitVec ((BitVec.ofNat 64 (8 * n)).extractLsb' (8 * (7 - i)) 8)

def pad (m : List Octet) : List Octet :=
  m ++ 0x80 :: List.replicate (zeroOctets m.length) 0 ++ lengthField m.length

theorem length_lengthField (n : ℕ) : (lengthField n).length = 8 := rfl

theorem length_pad (m : List Octet) : (pad m).length = m.length + 1 + zeroOctets m.length + 8 := by
  simp only [pad, List.length_append, List.length_cons, List.length_replicate, length_lengthField]
  omega

theorem dvd_length_pad (m : List Octet) : 64 ∣ (pad m).length := by
  rw [length_pad, zeroOctets]
  omega

/-- The bits behind the end bit are the fewest that leave 64 bits of the last block. -/
theorem zeroBits_least (n : ℕ) : (8 * n + 1 + (7 + 8 * zeroOctets n)) % 512 = 448 ∧
    ∀ k, (8 * n + 1 + k) % 512 = 448 → 7 + 8 * zeroOctets n ≤ k := by
  unfold zeroOctets
  constructor
  · omega
  · intro k hk
    omega

/-- No shorter run of zeros fills up the last block. -/
theorem zeroOctets_least (n k : ℕ) (h : 64 ∣ n + 1 + k + 8) : zeroOctets n ≤ k := by
  have bits := (zeroBits_least n).2 (7 + 8 * k) (by omega)
  omega

theorem ofDigits_low (b m k : ℕ) : Nat.ofDigits b ((List.range k).map fun i => m / b ^ i % b) = m % b ^ k := by
  induction k with
  | zero => simp [Nat.mod_one]
  | succ k ih =>
    rw [List.range_succ, List.map_append, Nat.ofDigits_append, ih, List.map_singleton,
      Nat.ofDigits_singleton, List.length_map, List.length_range, Nat.mod_pow_succ]

/-- Below 2^64 bits the field holds the length itself. -/
theorem lengthField_value {n : ℕ} (h : n < 2 ^ 61) :
    Nat.ofDigits 256 ((lengthField n).reverse.map UInt8.toNat) = 8 * n := by
  have fits : 8 * n < 256 ^ 8 := by omega
  have base : 2 ^ 8 = 256 := rfl
  have bits : (BitVec.ofNat 64 (8 * n)).toNat = 8 * n := by
    rw [BitVec.toNat_ofNat]
    exact Nat.mod_eq_of_lt fits
  have octet : ∀ i, (UInt8.ofBitVec ((BitVec.ofNat 64 (8 * n)).extractLsb' (8 * i) 8)).toNat =
      8 * n / 256 ^ i % 256 := by
    intro i
    rw [UInt8.toNat_ofBitVec, BitVec.extractLsb'_toNat, bits, Nat.shiftRight_eq_div_pow, Nat.pow_mul, base]
  have digits : (lengthField n).reverse.map UInt8.toNat =
      (List.range 8).map fun i => 8 * n / 256 ^ i % 256 := by
    simp only [← octet]
    rfl
  rw [digits, ofDigits_low, Nat.mod_eq_of_lt fits]

end Padding

section Functions

def wordOf (b₀ b₁ b₂ b₃ : Octet) : Word := b₀.toBitVec ++ b₁.toBitVec ++ b₂.toBitVec ++ b₃.toBitVec

/-- `M_t` of a block. -/
def messageWord (block : List Octet) (t : ℕ) : Word :=
  wordOf (block.getD (4 * t) 0) (block.getD (4 * t + 1) 0) (block.getD (4 * t + 2) 0) (block.getD (4 * t + 3) 0)

def octetsOf (x : Word) : List Octet :=
  [.ofBitVec (x.extractLsb' 24 8), .ofBitVec (x.extractLsb' 16 8), .ofBitVec (x.extractLsb' 8 8),
    .ofBitVec (x.extractLsb' 0 8)]

def choose (x y z : Word) : Word := (x &&& y) ^^^ (~~~x &&& z)
def parity (x y z : Word) : Word := x ^^^ y ^^^ z
def majority (x y z : Word) : Word := (x &&& y) ^^^ (x &&& z) ^^^ (y &&& z)

end Functions

def iterate {σ : Type} (compress : σ → List Octet → σ) (initial : σ) (m : List Octet) : σ :=
  (cut 64 (pad m)).foldl compress initial

structure Five (α : Type) where
  a : α
  b : α
  c : α
  d : α
  e : α
  deriving DecidableEq

namespace Five
variable {α β : Type}

def map (f : α → β) (v : Five α) : Five β := ⟨f v.a, f v.b, f v.c, f v.d, f v.e⟩
def add [Add α] (v w : Five α) : Five α := ⟨v.a + w.a, v.b + w.b, v.c + w.c, v.d + w.d, v.e + w.e⟩
def toList (v : Five α) : List α := [v.a, v.b, v.c, v.d, v.e]

theorem toList_map (f : α → β) (v : Five α) : (v.map f).toList = v.toList.map f := rfl

theorem toList_injective : Function.Injective (toList (α := α)) := by
  rintro ⟨⟩ ⟨⟩ h
  simpa [toList] using h

end Five

structure Eight (α : Type) where
  a : α
  b : α
  c : α
  d : α
  e : α
  f : α
  g : α
  h : α
  deriving DecidableEq

namespace Eight
variable {α β : Type}

def map (f : α → β) (v : Eight α) : Eight β :=
  ⟨f v.a, f v.b, f v.c, f v.d, f v.e, f v.f, f v.g, f v.h⟩

def add [Add α] (v w : Eight α) : Eight α :=
  ⟨v.a + w.a, v.b + w.b, v.c + w.c, v.d + w.d, v.e + w.e, v.f + w.f, v.g + w.g, v.h + w.h⟩

def toList (v : Eight α) : List α := [v.a, v.b, v.c, v.d, v.e, v.f, v.g, v.h]

theorem toList_map (f : α → β) (v : Eight α) : (v.map f).toList = v.toList.map f := rfl

theorem toList_injective : Function.Injective (toList (α := α)) := by
  rintro ⟨⟩ ⟨⟩ h
  simpa [toList] using h

end Eight

namespace Sha1

def logical (t : ℕ) : Word → Word → Word → Word :=
  if t < 20 then choose else if t < 40 then parity else if t < 60 then majority else parity

def constant (t : ℕ) : Word :=
  if t < 20 then 0x5a827999 else if t < 40 then 0x6ed9eba1 else if t < 60 then 0x8f1bbcdc else 0xca62c1d6

def initial : Five Word := ⟨0x67452301, 0xefcdab89, 0x98badcfe, 0x10325476, 0xc3d2e1f0⟩

def schedule (M : ℕ → Word) (t : ℕ) : Word :=
  if t < 16 then M t
  else (schedule M (t - 3) ^^^ schedule M (t - 8) ^^^ schedule M (t - 14) ^^^ schedule M (t - 16)).rotateLeft 1

theorem schedule_loaded (M : ℕ → Word) {t : ℕ} (h : t < 16) : schedule M t = M t := by
  rw [schedule, if_pos h]

theorem schedule_extended (M : ℕ → Word) {t : ℕ} (h : 16 ≤ t) : schedule M t =
    (schedule M (t - 3) ^^^ schedule M (t - 8) ^^^ schedule M (t - 14) ^^^ schedule M (t - 16)).rotateLeft 1 := by
  rw [schedule, if_neg (Nat.not_lt.mpr h)]

def round (t : ℕ) (W : Word) (v : Five Word) : Five Word :=
  let T := v.a.rotateLeft 5 + logical t v.b v.c v.d + v.e + constant t + W
  ⟨T, v.a, v.b.rotateLeft 30, v.c, v.d⟩

def compress (H : Five Word) (block : List Octet) : Five Word :=
  H.add ((List.range 80).foldl (fun v t => round t (schedule (messageWord block) t) v) H)

def digest (m : List Octet) : List Octet := (iterate compress initial m).toList.flatMap octetsOf

end Sha1

namespace Sha256

def bigSigma0 (x : Word) : Word := x.rotateRight 2 ^^^ x.rotateRight 13 ^^^ x.rotateRight 22
def bigSigma1 (x : Word) : Word := x.rotateRight 6 ^^^ x.rotateRight 11 ^^^ x.rotateRight 25
def smallSigma0 (x : Word) : Word := x.rotateRight 7 ^^^ x.rotateRight 18 ^^^ (x >>> 3)
def smallSigma1 (x : Word) : Word := x.rotateRight 17 ^^^ x.rotateRight 19 ^^^ (x >>> 10)

def constants : List Word :=
  [0x428a2f98, 0x71374491, 0xb5c0fbcf, 0xe9b5dba5, 0x3956c25b, 0x59f111f1, 0x923f82a4, 0xab1c5ed5,
    0xd807aa98, 0x12835b01, 0x243185be, 0x550c7dc3, 0x72be5d74, 0x80deb1fe, 0x9bdc06a7, 0xc19bf174,
    0xe49b69c1, 0xefbe4786, 0x0fc19dc6, 0x240ca1cc, 0x2de92c6f, 0x4a7484aa, 0x5cb0a9dc, 0x76f988da,
    0x983e5152, 0xa831c66d, 0xb00327c8, 0xbf597fc7, 0xc6e00bf3, 0xd5a79147, 0x06ca6351, 0x14292967,
    0x27b70a85, 0x2e1b2138, 0x4d2c6dfc, 0x53380d13, 0x650a7354, 0x766a0abb, 0x81c2c92e, 0x92722c85,
    0xa2bfe8a1, 0xa81a664b, 0xc24b8b70, 0xc76c51a3, 0xd192e819, 0xd6990624, 0xf40e3585, 0x106aa070,
    0x19a4c116, 0x1e376c08, 0x2748774c, 0x34b0bcb5, 0x391c0cb3, 0x4ed8aa4a, 0x5b9cca4f, 0x682e6ff3,
    0x748f82ee, 0x78a5636f, 0x84c87814, 0x8cc70208, 0x90befffa, 0xa4506ceb, 0xbef9a3f7, 0xc67178f2]

def constant (t : ℕ) : Word := constants.getD t 0

def initial : Eight Word :=
  ⟨0x6a09e667, 0xbb67ae85, 0x3c6ef372, 0xa54ff53a, 0x510e527f, 0x9b05688c, 0x1f83d9ab, 0x5be0cd19⟩

def primesBelow (n : ℕ) : List ℕ :=
  (List.range n).filter fun p => 2 ≤ p && (List.range p).all fun d => d < 2 || p % d ≠ 0

theorem mem_primesBelow {n p : ℕ} : p ∈ primesBelow n ↔ p < n ∧ p.Prime := by
  rw [primesBelow, List.mem_filter, List.mem_range, Nat.prime_def_lt']
  simp only [Bool.and_eq_true, decide_eq_true_eq, List.all_eq_true, List.mem_range, Bool.or_eq_true,
    Nat.dvd_iff_mod_eq_zero]
  refine and_congr_right fun _ => and_congr_right fun _ => forall_congr' fun d => ?_
  omega

/-- The first 32 bits of the fractional part of the cube root of `p`. -/
def CubeRootFraction (p : ℕ) (x : Word) : Prop :=
  ∃ whole < 8, (whole * 2 ^ 32 + x.toNat) ^ 3 ≤ p * 2 ^ 96 ∧ p * 2 ^ 96 < (whole * 2 ^ 32 + x.toNat + 1) ^ 3

/-- The first 32 bits of the fractional part of the square root of `p`. -/
def SquareRootFraction (p : ℕ) (x : Word) : Prop :=
  ∃ whole < 8, (whole * 2 ^ 32 + x.toNat) ^ 2 ≤ p * 2 ^ 64 ∧ p * 2 ^ 64 < (whole * 2 ^ 32 + x.toNat + 1) ^ 2

/-- The constants come from the primes in their order, and the initial value from the first eight. -/
theorem constants_roots :
    (∀ p, p ∈ primesBelow 312 ↔ p < 312 ∧ p.Prime) ∧ (primesBelow 312).Pairwise (· < ·) ∧
      List.Forall₂ CubeRootFraction (primesBelow 312) constants ∧
      List.Forall₂ SquareRootFraction ((primesBelow 312).take 8) initial.toList := by
  have roots : List.Forall₂ CubeRootFraction (primesBelow 312) constants ∧
      List.Forall₂ SquareRootFraction ((primesBelow 312).take 8) initial.toList := by
    unfold CubeRootFraction SquareRootFraction
    decide +kernel
  exact ⟨fun p => mem_primesBelow, List.pairwise_lt_range.filter _, roots⟩

def schedule (M : ℕ → Word) (t : ℕ) : Word :=
  if t < 16 then M t
  else smallSigma1 (schedule M (t - 2)) + schedule M (t - 7) + smallSigma0 (schedule M (t - 15)) +
    schedule M (t - 16)

theorem schedule_loaded (M : ℕ → Word) {t : ℕ} (h : t < 16) : schedule M t = M t := by
  rw [schedule, if_pos h]

theorem schedule_extended (M : ℕ → Word) {t : ℕ} (h : 16 ≤ t) : schedule M t =
    smallSigma1 (schedule M (t - 2)) + schedule M (t - 7) + smallSigma0 (schedule M (t - 15)) +
      schedule M (t - 16) := by
  rw [schedule, if_neg (Nat.not_lt.mpr h)]

def round (t : ℕ) (W : Word) (v : Eight Word) : Eight Word :=
  let T₁ := v.h + bigSigma1 v.e + choose v.e v.f v.g + constant t + W
  let T₂ := bigSigma0 v.a + majority v.a v.b v.c
  ⟨T₁ + T₂, v.a, v.b, v.c, v.d + T₁, v.e, v.f, v.g⟩

def compress (H : Eight Word) (block : List Octet) : Eight Word :=
  H.add ((List.range 64).foldl (fun v t => round t (schedule (messageWord block) t) v) H)

def digest (m : List Octet) : List Octet := (iterate compress initial m).toList.flatMap octetsOf

end Sha256

end Mhda.SecureHash
