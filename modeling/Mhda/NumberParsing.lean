import Mhda.Descriptor

set_option autoImplicit false

namespace Mhda.NumberParsing
open Mhda.ByteString Mhda.Detail Mhda.DetailFacts Mhda.Numeral Mhda.Path Mhda.Addresses Mhda.PathText
open Mhda.Descriptors

inductive Base
  | decimal
  | hexadecimal
deriving DecidableEq

namespace Base

def radix : Base → UInt64
  | decimal => 10
  | hexadecimal => 16

def digit : Base → Byte → Option ℕ
  | decimal => decDigit
  | hexadecimal => hexDigit

theorem reads (b : Base) : Reads b.radix b.digit := by
  cases b with
  | decimal => exact reads_decimal
  | hexadecimal => exact reads_hex

end Base

/-- The positional value of a string; bytes that are not digits do not count. -/
def valueOf (b : Base) (s : Bytes) : ℕ := Nat.ofDigits b.radix.toNat (s.filterMap b.digit).reverse

/-- A nonempty string of digits with the value `n`, leading zeros included. -/
def Spelled (b : Base) (s : Bytes) (n : ℕ) : Prop :=
  s ≠ [] ∧ (∀ c ∈ s, (b.digit c).isSome = true) ∧ valueOf b s = n

theorem spelled_iff (b : Base) (s : Bytes) (n : ℕ) :
    Spelled b s n ↔ s ≠ [] ∧ value b.digit b.radix.toNat s = some n := by
  rw [Spelled, valueOf, value_eq_some]

theorem spelled_decimal (s : Bytes) (n : ℕ) : Spelled .decimal s n ↔ IsDecimal s n :=
  spelled_iff .decimal s n

theorem spelled_hexadecimal (s : Bytes) (n : ℕ) : Spelled .hexadecimal s n ↔ IsHex s n :=
  spelled_iff .hexadecimal s n

/-- While it reads `s` the loop computes `value * base + digit` in 64 bits. -/
def Computes (base : UInt64) (s : Bytes) (value digit : UInt64) : Prop :=
  ∃ read c rest, s = read ++ c :: rest ∧ parseInBaseLoop base 0 read = some value ∧
    digitOf base c = some digit ∧ ¬ digit ≥ base ∧ ¬ value > (uint64Max - digit) / base

theorem parseInBaseLoop_append (base acc : UInt64) (s t : Bytes) :
    parseInBaseLoop base acc (s ++ t) =
      (parseInBaseLoop base acc s).bind fun value => parseInBaseLoop base value t := by
  induction s generalizing acc with
  | nil => rfl
  | cons c s ih =>
    simp only [List.cons_append, parseInBaseLoop]
    cases digitOf base c with
    | none => rfl
    | some digit =>
      simp only
      split
      · rfl
      · split
        · rfl
        · exact ih _

/-- The guard lets no step through that would wrap. -/
theorem Computes.fits {base value digit : UInt64} {s : Bytes} (h : Computes base s value digit) :
    value.toNat * base.toNat + digit.toNat < 2 ^ 64 := by
  obtain ⟨_, _, _, _, _, _, small, within⟩ := h
  have below : digit < base := UInt64.not_le.mp small
  exact Nat.lt_of_not_le (mt (guard_iff below).mpr within)

theorem parseInBaseLoop_cons_eq_some {base value w : UInt64} {c : Byte} {rest : Bytes} :
    parseInBaseLoop base value (c :: rest) = some w ↔ ∃ digit, digitOf base c = some digit ∧
      ¬ digit ≥ base ∧ ¬ value > (uint64Max - digit) / base ∧
      parseInBaseLoop base (value * base + digit) rest = some w := by
  rw [parseInBaseLoop]
  cases digitOf base c with
  | none => simp
  | some digit =>
    simp only [Option.some.injEq, exists_eq_left']
    by_cases small : digit ≥ base
    · simp only [small, if_true, not_true_eq_false, false_and, reduceCtorEq]
    · by_cases within : value > (uint64Max - digit) / base
      · simp only [small, within, if_true, if_false, not_true_eq_false, false_and, and_false, reduceCtorEq]
      · simp only [small, within, if_false, not_false_eq_true, true_and]

theorem parseInBaseLoop_computes {base w : UInt64} {read rest : Bytes} {c : Byte}
    (h : parseInBaseLoop base 0 (read ++ c :: rest) = some w) :
    ∃ value digit, parseInBaseLoop base 0 read = some value ∧ digitOf base c = some digit ∧
      Computes base (read ++ c :: rest) value digit := by
  rw [parseInBaseLoop_append, Option.bind_eq_some_iff] at h
  obtain ⟨value, front, last⟩ := h
  obtain ⟨digit, hd, small, within, _⟩ := parseInBaseLoop_cons_eq_some.mp last
  exact ⟨value, digit, front, hd, read, c, rest, rfl, front, hd, small, within⟩

/-- A reader into words, seen as a reader of numbers below the size of a word. -/
theorem map_toNat_eq_some {ω : Type} {toNat : ω → ℕ} {size : ℕ} (below : ∀ w, toNat w < size)
    (onto : ∀ n < size, ∃ w, toNat w = n) {read : Option ω} {P : ℕ → Prop}
    (spec : ∀ w, read = some w ↔ P (toNat w)) (n : ℕ) : read.map toNat = some n ↔ P n ∧ n < size := by
  rw [Option.map_eq_some_iff]
  constructor
  · rintro ⟨w, hw, rfl⟩
    exact ⟨(spec w).mp hw, below w⟩
  · rintro ⟨hp, fits⟩
    obtain ⟨w, rfl⟩ := onto n fits
    exact ⟨w, (spec w).mpr hp, rfl⟩

theorem uint64_onto (n : ℕ) (h : n < 2 ^ 64) : ∃ w : UInt64, w.toNat = n :=
  ⟨UInt64.ofNat n, UInt64.toNat_ofNat_of_lt' h⟩

theorem uint32_onto (n : ℕ) (h : n < 2 ^ 32) : ∃ v : UInt32, v.toNat = n :=
  ⟨UInt32.ofNat n, UInt32.toNat_ofNat_of_lt' h⟩

theorem parseInBase_spelled (b : Base) (s : Bytes) (n : ℕ) :
    (parseInBase s b.radix).map UInt64.toNat = some n ↔ Spelled b s n ∧ n < 2 ^ 64 := by
  have read : ∀ w, parseInBase s b.radix = some w ↔ Spelled b s w.toNat := by
    intro w
    rw [spelled_iff]
    exact parseInBase_eq_some b.reads s w
  exact map_toNat_eq_some (fun w => w.toNat_lt) uint64_onto read n

/-- Decimal, or hexadecimal behind "0x" or "0X". -/
def CoinSpelled (s : Bytes) (n : ℕ) : Prop :=
  Spelled .decimal s n ∨
    ∃ x body, s = ch '0' :: x :: body ∧ (x = ch 'x' ∨ x = ch 'X') ∧ Spelled .hexadecimal body n

theorem coinSpelled_iff (s : Bytes) (n : ℕ) : CoinSpelled s n ↔ SpellsNumber s n := by
  simp only [CoinSpelled, SpellsNumber, spelled_decimal, spelled_hexadecimal]

theorem parseUint32_spelled (s : Bytes) (n : ℕ) :
    (parseUint32 s).map UInt32.toNat = some n ↔ CoinSpelled s n ∧ n < 2 ^ 32 := by
  have read : ∀ v, parseUint32 s = some v ↔ CoinSpelled s v.toNat := by
    intro v
    rw [coinSpelled_iff]
    exact parseUint32_eq_some s v
  exact map_toNat_eq_some (fun v => v.toNat_lt) uint32_onto read n

/-- A leading zero does not make a number octal. -/
example : parseUint32 (lit "0017") = some 17 ∧ parseUint32 (lit "0x0017") = some 23 := by decide

theorem parseUint31Dec_spelled (s : Bytes) (n : ℕ) :
    (parseUint31Dec s).map UInt32.toNat = some n ↔ Spelled .decimal s n ∧ n < 2 ^ 31 := by
  have narrow : n < 2 ^ 31 → n < 2 ^ 32 := fun h => lt_trans h (by decide)
  have read : (parseUint31Dec s).map UInt32.toNat = some n ↔ (IsDecimal s n ∧ n < 2 ^ 31) ∧ n < 2 ^ 32 :=
    map_toNat_eq_some (P := fun n => IsDecimal s n ∧ n < 2 ^ 31) (fun v => v.toNat_lt) uint32_onto
      (parseUint31Dec_eq_some s) n
  rw [read, spelled_decimal]
  exact and_iff_left_of_imp fun h => narrow h.2

def Canonical (s : Bytes) (n : ℕ) : Prop :=
  Spelled .decimal s n ∧ (s.length = 1 ∨ s.head? ≠ some (ch '0'))

theorem canonical_iff (s : Bytes) (n : ℕ) : Canonical s n ↔ s = decimal n := by
  rw [Canonical, spelled_decimal]
  constructor
  · rintro ⟨spelled, short⟩
    exact decimal_unique spelled short
  · rintro rfl
    exact ⟨isDecimal_decimal n, decimal_head n⟩

theorem rendered_canonical (v : UInt32) : ∃ text,
    (∀ out, DerivationPath.appendUint32 out v = out ++ text) ∧
      (∀ out, Address.appendUint32 out v = out ++ text) ∧
      Canonical text v.toNat ∧ (∀ other, Canonical other v.toNat → other = text) ∧
      parseUint32 text = some v ∧ (v.toNat < 2 ^ 31 → parseUint31Dec text = some v) := by
  have spelled := isDecimal_decimal v.toNat
  refine ⟨decimal v.toNat, fun out => appendUint32_eq out v, fun out => addressAppendUint32_eq out v,
    (canonical_iff _ _).mpr rfl, fun other h => (canonical_iff _ _).mp h, ?_, ?_⟩
  · exact (parseUint32_eq_some _ v).mpr (.inl spelled)
  · intro small
    exact (parseUint31Dec_eq_some _ v).mpr ⟨spelled, small⟩

/-- The parsers accept exactly what spells a number in range and return that number. -/
theorem numbers_exact :
    (∀ b s n, (parseInBase s b.radix).map UInt64.toNat = some n ↔ Spelled b s n ∧ n < 2 ^ 64) ∧
      (∀ b : Base, ∀ s value digit, Computes b.radix s value digit →
        value.toNat * b.radix.toNat + digit.toNat < 2 ^ 64) ∧
      (∀ b : Base, ∀ read c rest w, parseInBaseLoop b.radix 0 (read ++ c :: rest) = some w →
        ∃ value digit, parseInBaseLoop b.radix 0 read = some value ∧
          digitOf b.radix c = some digit ∧ Computes b.radix (read ++ c :: rest) value digit) ∧
      (∀ s n, (parseUint32 s).map UInt32.toNat = some n ↔ CoinSpelled s n ∧ n < 2 ^ 32) ∧
      (∀ s n, (parseUint31Dec s).map UInt32.toNat = some n ↔ Spelled .decimal s n ∧ n < 2 ^ 31) ∧
      ∀ v : UInt32, ∃ text,
        (∀ out, DerivationPath.appendUint32 out v = out ++ text) ∧
          (∀ out, Address.appendUint32 out v = out ++ text) ∧
          Canonical text v.toNat ∧ (∀ other, Canonical other v.toNat → other = text) ∧
          parseUint32 text = some v ∧ (v.toNat < 2 ^ 31 → parseUint31Dec text = some v) :=
  ⟨parseInBase_spelled, fun _ _ _ _ h => h.fits, fun _ _ _ _ _ h => parseInBaseLoop_computes h,
    parseUint32_spelled, parseUint31Dec_spelled, rendered_canonical⟩

end Mhda.NumberParsing
