import Mathlib.Data.Nat.Digits.Defs
import Mhda.ByteString

set_option autoImplicit false

namespace Mhda.Numeral
open Mhda.ByteString

section Value
variable {α : Type} (digit : α → Option ℕ) (b : ℕ)

/-- Reading on from a prefix whose value is known. -/
def valueFrom : ℕ → List α → Option ℕ
  | acc, [] => some acc
  | acc, c :: s =>
    match digit c with
    | none => none
    | some d => valueFrom (acc * b + d) s

def value (s : List α) : Option ℕ := valueFrom digit b 0 s

theorem valueFrom_append (acc : ℕ) (s t : List α) :
    valueFrom digit b acc (s ++ t) = (valueFrom digit b acc s).bind fun v => valueFrom digit b v t := by
  induction s generalizing acc with
  | nil => rfl
  | cons c s ih =>
    simp only [List.cons_append, valueFrom]
    cases digit c with
    | none => rfl
    | some d => exact ih _

theorem le_valueFrom (hb : 0 < b) {acc v : ℕ} {s : List α} (h : valueFrom digit b acc s = some v) :
    acc ≤ v := by
  induction s generalizing acc with
  | nil =>
    simp only [valueFrom, Option.some.injEq] at h
    omega
  | cons c s ih =>
    simp only [valueFrom] at h
    cases hd : digit c with
    | none => simp [hd] at h
    | some d =>
      rw [hd] at h
      have grows := ih h
      have keeps : acc ≤ acc * b := Nat.le_mul_of_pos_right _ hb
      omega

theorem value_digits {s : List α} {acc v : ℕ} (h : valueFrom digit b acc s = some v) :
    ∀ c ∈ s, (digit c).isSome := by
  induction s generalizing acc with
  | nil => simp
  | cons c s ih =>
    simp only [valueFrom] at h
    cases hd : digit c with
    | none => simp [hd] at h
    | some d =>
      rw [hd] at h
      intro x hx
      rcases List.mem_cons.mp hx with rfl | hx
      · simp [hd]
      · exact ih h x hx

/-- Reading from the left computes the positional value, the last digit counting once. -/
theorem valueFrom_eq_ofDigits {s : List α} (h : ∀ c ∈ s, (digit c).isSome) (acc : ℕ) :
    valueFrom digit b acc s =
      some (acc * b ^ s.length + Nat.ofDigits b (s.filterMap digit).reverse) := by
  induction s generalizing acc with
  | nil => simp [valueFrom]
  | cons c s ih =>
    obtain ⟨d, hd⟩ := Option.isSome_iff_exists.mp (h c (by simp))
    have rest : ∀ x ∈ s, (digit x).isSome := fun x hx => h x (by simp [hx])
    have width : (s.filterMap digit).length = s.length :=
      List.filterMap_length_eq_length.mpr rest
    rw [List.filterMap_cons_some hd, Nat.ofDigits_reverse_cons, width,
      List.length_cons, pow_succ]
    simp only [valueFrom, hd]
    rw [ih rest]
    congr 1
    ring

theorem value_eq_some {s : List α} {n : ℕ} : value digit b s = some n ↔
    (∀ c ∈ s, (digit c).isSome) ∧ Nat.ofDigits b (s.filterMap digit).reverse = n := by
  constructor
  · intro h
    have digits := value_digits digit b h
    rw [value, valueFrom_eq_ofDigits digit b digits] at h
    exact ⟨digits, by simpa using h⟩
  · rintro ⟨digits, rfl⟩
    rw [value, valueFrom_eq_ofDigits digit b digits]
    simp

end Value

def decDigit (c : Byte) : Option ℕ :=
  if ch '0' ≤ c ∧ c ≤ ch '9' then some (c.toNat - 48) else none

def hexDigit (c : Byte) : Option ℕ :=
  if ch '0' ≤ c ∧ c ≤ ch '9' then some (c.toNat - 48)
  else if ch 'a' ≤ c ∧ c ≤ ch 'f' then some (c.toNat - 97 + 10)
  else if ch 'A' ≤ c ∧ c ≤ ch 'F' then some (c.toNat - 65 + 10)
  else none

def IsDecimal (s : Bytes) (n : ℕ) : Prop := s ≠ [] ∧ value decDigit 10 s = some n

def IsHex (s : Bytes) (n : ℕ) : Prop := s ≠ [] ∧ value hexDigit 16 s = some n

def decimal (n : ℕ) : Bytes := (Nat.toDigits 10 n).map ch

theorem decDigit_digitChar {d : ℕ} (hd : d < 10) : decDigit (ch d.digitChar) = some d := by
  interval_cases d <;> decide

theorem decimal_eq_if (n : ℕ) :
    decimal n = if n < 10 then [ch n.digitChar] else decimal (n / 10) ++ [ch (n % 10).digitChar] := by
  unfold decimal
  rw [Nat.toDigits_eq_if (by decide)]
  split <;> simp

theorem decimal_ne_nil (n : ℕ) : decimal n ≠ [] := by
  simp [decimal]

theorem value_decimal (n : ℕ) : value decDigit 10 (decimal n) = some n := by
  induction n using Nat.strong_induction_on with
  | _ n ih =>
    rw [decimal_eq_if]
    split
    · rename_i small
      simp [value, valueFrom, decDigit_digitChar small]
    · rename_i large
      have front := ih (n / 10) (by omega)
      rw [value, valueFrom_append, ← value, front]
      simp only [Option.bind_some, valueFrom, decDigit_digitChar (Nat.mod_lt n (by decide : 10 > 0)),
        Option.some.injEq]
      omega

theorem isDecimal_decimal (n : ℕ) : IsDecimal (decimal n) n :=
  ⟨decimal_ne_nil n, value_decimal n⟩

theorem mem_decimal {n : ℕ} {c : Byte} (h : c ∈ decimal n) : (decDigit c).isSome :=
  value_digits _ _ (value_decimal n) c h

theorem decimal_head (n : ℕ) : (decimal n).length = 1 ∨ (decimal n).head? ≠ some (ch '0') := by
  induction n using Nat.strong_induction_on with
  | _ n ih =>
    rw [decimal_eq_if]
    split
    · exact .inl rfl
    · rename_i large
      right
      rw [List.head?_append_of_ne_nil _ (decimal_ne_nil _)]
      rcases ih (n / 10) (by omega) with one | head
      · rw [decimal_eq_if] at one ⊢
        split at one
        · rename_i small
          rw [if_pos small]
          generalize hq : n / 10 = q at small
          have hpos : 0 < q := by omega
          clear ih one hq large
          interval_cases q <;> decide
        · have front := List.length_pos_of_ne_nil (decimal_ne_nil (n / 10 / 10))
          simp only [List.length_append, List.length_singleton] at one
          omega
      · exact head

theorem digitChar_of_decDigit (c : Byte) : ∀ d ∈ decDigit c, d < 10 ∧ c = ch d.digitChar := by
  revert c
  apply forall_byte
  decide +kernel

/-- A digit string without leading zeros is the numeral of its value. -/
theorem decimal_unique {s : Bytes} {n : ℕ} (h : IsDecimal s n)
    (exact_ : s.length = 1 ∨ s.head? ≠ some (ch '0')) : s = decimal n := by
  induction s using List.reverseRecOn generalizing n with
  | nil => exact absurd rfl h.1
  | append_singleton ds c ih =>
    have read := h.2
    rw [value, valueFrom_append, Option.bind_eq_some_iff] at read
    obtain ⟨q, front, last⟩ := read
    cases hd : decDigit c with
    | none => simp [valueFrom, hd] at last
    | some d =>
      obtain ⟨small, rfl⟩ := digitChar_of_decDigit c d hd
      simp only [valueFrom, hd, Option.some.injEq] at last
      subst last
      rw [decimal_eq_if]
      cases ds with
      | nil =>
        obtain rfl : 0 = q := by simpa [valueFrom] using front
        rw [Nat.zero_mul, Nat.zero_add, if_pos small]
        rfl
      | cons e es =>
        have head : (e :: es).head? ≠ some (ch '0') := by simpa using exact_
        have numeral := ih ⟨by simp, front⟩ (.inr head)
        have positive : q ≠ 0 := by
          rintro rfl
          rw [numeral] at head
          exact head rfl
        have quotient : (q * 10 + d) / 10 = q := by omega
        have remainder : (q * 10 + d) % 10 = d := by omega
        rw [if_neg (by omega), quotient, remainder, ← numeral]

section Length

theorem value_lt {α : Type} (digit : α → Option ℕ) {b : ℕ} (hb : 1 < b) (digits : ∀ c, ∀ d ∈ digit c, d < b)
    {s : List α} {n : ℕ} (h : value digit b s = some n) : n < b ^ s.length := by
  obtain ⟨_, rfl⟩ := (value_eq_some digit b).mp h
  have small : ∀ d ∈ (s.filterMap digit).reverse, d < b := by
    intro d hd
    obtain ⟨c, _, hc⟩ := List.mem_filterMap.mp (List.mem_reverse.mp hd)
    exact digits c d hc
  calc Nat.ofDigits b (s.filterMap digit).reverse
      < b ^ (s.filterMap digit).reverse.length := Nat.ofDigits_lt_base_pow_length hb small
    _ ≤ b ^ s.length := by
        refine Nat.pow_le_pow_right (by omega) ?_
        rw [List.length_reverse]
        exact List.length_filterMap_le ..

theorem decimal_length_le {n k : ℕ} (hk : 0 < k) (h : n < 10 ^ k) : (decimal n).length ≤ k := by
  rw [decimal, List.length_map]
  exact Nat.toDigits_length 10 n k hk h

/-- No decimal text of a number is shorter than its numeral. -/
theorem isDecimal_length {s : Bytes} {n : ℕ} (h : IsDecimal s n) : (decimal n).length ≤ s.length :=
  decimal_length_le (List.length_pos_of_ne_nil h.1)
    (value_lt decDigit (by decide) (fun c d hd => (digitChar_of_decDigit c d hd).1) h.2)

theorem hexDigit_lt (c : Byte) : ∀ d ∈ hexDigit c, d < 16 := by
  revert c
  apply forall_byte
  decide +kernel

/-- Up to eight digits, two more are enough for what base ten needs over base sixteen. -/
theorem pow_hex_le (k : ℕ) (h : k ≤ 8) : 16 ^ k ≤ 10 ^ (k + 2) := by
  interval_cases k <;> decide

theorem isHex_length {s : Bytes} {n : ℕ} (h : IsHex s n) (word : n < 2 ^ 32) :
    (decimal n).length ≤ s.length + 2 := by
  have below := value_lt hexDigit (by decide) hexDigit_lt h.2
  by_cases short : s.length ≤ 8
  · exact decimal_length_le (by omega) (below.trans_le (pow_hex_le _ short))
  · have ten : (decimal n).length ≤ 10 := decimal_length_le (by decide) (word.trans (by decide))
    omega

end Length

end Mhda.Numeral
