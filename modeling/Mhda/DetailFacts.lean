import Mhda.Detail

set_option autoImplicit false

namespace Mhda.DetailFacts
open Mhda.ByteString Mhda.Errors Mhda.Detail Mhda.Numeral

theorem nssByte_plain (c : Byte) : nssByte c = true →
    isAsciiSpace c = false ∧ c ≠ ch ':' ∧ opensRqf c = false ∧ nssByte (asciiLower c) = true := by
  revert c
  apply forall_byte
  decide +kernel

theorem opensRqf_not_space (c : Byte) : opensRqf c = true → isAsciiSpace c = false := by
  revert c
  apply forall_byte
  decide +kernel

theorem decDigit_plain (c : Byte) : (decDigit c).isSome = true →
    nssByte c = true ∧ c ≠ ch '/' ∧ asciiLower c = c := by
  revert c
  apply forall_byte
  decide +kernel

def NssText (s : Bytes) : Prop := ∀ c ∈ s, nssByte c = true

def Token (s : Bytes) : Prop := s ≠ [] ∧ NssText s

instance (s : Bytes) : Decidable (NssText s) := inferInstanceAs (Decidable (∀ c ∈ s, nssByte c = true))
instance (s : Bytes) : Decidable (Token s) := inferInstanceAs (Decidable (s ≠ [] ∧ NssText s))

theorem nssText_iff_all (s : Bytes) : s.all nssByte = true ↔ NssText s := List.all_eq_true

theorem NssText.append {s t : Bytes} (hs : NssText s) (ht : NssText t) : NssText (s ++ t) := by
  intro c hc
  rcases List.mem_append.mp hc with hc | hc
  · exact hs c hc
  · exact ht c hc

theorem NssText.toLower {s : Bytes} (h : NssText s) : NssText (toLower s) := by
  intro c hc
  obtain ⟨d, hd, rfl⟩ := List.mem_map.mp hc
  exact (nssByte_plain d (h d hd)).2.2.2

theorem Token.toLower {s : Bytes} (h : Token s) : Token (toLower s) := by
  refine ⟨?_, h.2.toLower⟩
  intro hn
  exact h.1 (List.map_eq_nil_iff.mp hn)

theorem NssText.no_colon {s : Bytes} (h : NssText s) : ch ':' ∉ s := by
  intro hc
  exact (nssByte_plain _ (h _ hc)).2.1 rfl

def Trimmed (s : Bytes) : Prop :=
  (∀ c ∈ s.head?, isAsciiSpace c = false) ∧ ∀ c ∈ s.getLast?, isAsciiSpace c = false

instance (s : Bytes) : Decidable (Trimmed s) := inferInstanceAs (Decidable (_ ∧ _))

theorem length_trim (s : Bytes) : (trim s).length ≤ s.length := by
  have back := (List.rdropWhile_prefix isAsciiSpace (s.dropWhile isAsciiSpace)).length_le
  have front := (List.dropWhile_suffix isAsciiSpace (l := s)).length_le
  rw [trim]
  omega

theorem length_toLower (s : Bytes) : (toLower s).length = s.length := List.length_map ..

theorem trim_eq_self {s : Bytes} (h : Trimmed s) : trim s = s := by
  unfold trim
  rw [dropWhile_eq_self_of_head isAsciiSpace s (fun c hc => by simp [h.1 c hc]),
    rdropWhile_eq_self_of_last isAsciiSpace s (fun c hc => by simp [h.2 c hc])]

theorem NssText.trimmed {s : Bytes} (h : NssText s) : Trimmed s := by
  constructor
  · intro c hc
    exact (nssByte_plain c (h c (List.mem_of_mem_head? hc))).1
  · intro c hc
    exact (nssByte_plain c (h c (List.mem_of_mem_getLast? hc))).1

theorem NssText.trim {s : Bytes} (h : NssText s) : trim s = s := trim_eq_self h.trimmed

theorem NssText.normalize {s : Bytes} (h : NssText s) : normalize s = Detail.toLower s := by
  rw [Detail.normalize, h.trim]

theorem trimRight_idem (s : Bytes) : trimRight (trimRight s) = trimRight s :=
  List.rdropWhile_idempotent _ _

theorem toLower_isEmpty (s : Bytes) : (toLower s).isEmpty = s.isEmpty := by
  cases s <;> rfl

theorem dropWhile_head (s : Bytes) : ∀ c ∈ (s.dropWhile isAsciiSpace).head?, isAsciiSpace c = false := by
  intro c hc
  induction s with
  | nil => simp at hc
  | cons d s ih =>
    by_cases hd : isAsciiSpace d = true
    · rw [List.dropWhile_cons_of_pos hd] at hc
      exact ih hc
    · rw [List.dropWhile_cons_of_neg hd] at hc
      simp only [List.head?_cons, Option.mem_def, Option.some.injEq] at hc
      simpa [← hc] using hd

theorem validateFreeFormValue_ok (component v : Bytes) :
    validateFreeFormValue component v = .ok () ↔ NssText v := by
  unfold validateFreeFormValue
  rw [← nssText_iff_all]
  split <;> simp_all

section Numbers

/-- A digit function of the source agrees with a digit alphabet below its base. -/
def Reads (base : UInt64) (digit : Byte → Option ℕ) : Prop :=
  ∀ c, digit c = (digitOf base c).map UInt64.toNat ∧ (digitOf base c).all (· < base) = true

theorem reads_decimal : Reads 10 decDigit := by
  unfold Reads
  apply forall_byte
  decide +kernel

theorem reads_hex : Reads 16 hexDigit := by
  unfold Reads
  apply forall_byte
  decide +kernel

/-- The overflow guard refuses exactly what does not fit into 64 bits. -/
theorem guard_iff {base digit value : UInt64} (hd : digit < base) :
    value > (uint64Max - digit) / base ↔ 2 ^ 64 ≤ value.toNat * base.toNat + digit.toNat := by
  have max : uint64Max.toNat = 2 ^ 64 - 1 := by decide
  have small : digit.toNat < 2 ^ 64 := digit.toNat_lt
  have pos : 0 < base.toNat := by
    have := UInt64.lt_iff_toNat_lt.mp hd
    omega
  have le : digit ≤ uint64Max := by
    rw [UInt64.le_iff_toNat_le, max]
    omega
  rw [gt_iff_lt, UInt64.lt_iff_toNat_lt, UInt64.toNat_div, UInt64.toNat_sub_of_le _ _ le, max,
    Nat.div_lt_iff_lt_mul pos]
  omega

theorem parseInBaseLoop_eq_some {base : UInt64} {digit : Byte → Option ℕ} (h : Reads base digit)
    (s : Bytes) (acc v : UInt64) :
    parseInBaseLoop base acc s = some v ↔ valueFrom digit base.toNat acc.toNat s = some v.toNat := by
  induction s generalizing acc with
  | nil => simp [parseInBaseLoop, valueFrom, UInt64.toNat_inj]
  | cons c s ih =>
    obtain ⟨read, bound⟩ := h c
    simp only [parseInBaseLoop, valueFrom, read]
    cases hd : digitOf base c with
    | none => simp
    | some d =>
      have small : d < base := by
        simpa [hd] using bound
      have notGe : ¬ d ≥ base := by
        rw [ge_iff_le, UInt64.not_le]
        exact small
      simp only [Option.map_some, notGe, if_false]
      by_cases beyond : acc > (uint64Max - d) / base
      · -- the source stops; the value could only grow past 64 bits
        rw [if_pos beyond]
        have big := (guard_iff small).mp beyond
        refine iff_of_false (by simp) fun hv => ?_
        have pos : 0 < base.toNat := by
          have := UInt64.lt_iff_toNat_lt.mp small
          omega
        have grows := le_valueFrom digit base.toNat pos hv
        have fits := v.toNat_lt
        omega
      · rw [if_neg beyond, ih]
        have fits : acc.toNat * base.toNat + d.toNat < 2 ^ 64 := by
          have := mt (guard_iff small).mpr beyond
          omega
        have exact_add : (acc * base + d).toNat = acc.toNat * base.toNat + d.toNat := by
          rw [UInt64.toNat_add, UInt64.toNat_mul]
          simp only [Nat.mod_add_mod]
          exact Nat.mod_eq_of_lt fits
        rw [exact_add]

theorem parseInBase_eq_some {base : UInt64} {digit : Byte → Option ℕ} (h : Reads base digit)
    (s : Bytes) (v : UInt64) :
    parseInBase s base = some v ↔ s ≠ [] ∧ value digit base.toNat s = some v.toNat := by
  unfold parseInBase value
  cases s with
  | nil => simp
  | cons c s =>
    rw [if_neg (by simp), parseInBaseLoop_eq_some h]
    simp

theorem parseInBase_narrow {base : UInt64} {digit : Byte → Option ℕ} (h : Reads base digit)
    (s : Bytes) (bound : UInt64) (hb : bound.toNat ≤ 2 ^ 32) (v : UInt32) :
    (parseInBase s base).bind (fun w => if w ≥ bound then none else some w.toUInt32) = some v ↔
      s ≠ [] ∧ value digit base.toNat s = some v.toNat ∧ v.toNat < bound.toNat := by
  constructor
  · intro hs
    obtain ⟨w, hw, hv⟩ := Option.bind_eq_some_iff.mp hs
    obtain ⟨hne, hval⟩ := (parseInBase_eq_some h s w).mp hw
    by_cases hge : w ≥ bound
    · simp [hge] at hv
    · rw [if_neg hge, Option.some.injEq] at hv
      have below : w.toNat < bound.toNat := by
        rw [ge_iff_le, UInt64.not_le] at hge
        exact UInt64.lt_iff_toNat_lt.mp hge
      have same : v.toNat = w.toNat := by
        rw [← hv, UInt64.toNat_toUInt32]
        omega
      exact ⟨hne, by rw [hval, same], by omega⟩
  · rintro ⟨hne, hval, hlt⟩
    have wide : v.toUInt64.toNat = v.toNat := UInt32.toNat_toUInt64 v
    have hw := (parseInBase_eq_some h s v.toUInt64).mpr ⟨hne, by rw [hval, wide]⟩
    rw [hw, Option.bind_some, if_neg, UInt32.toUInt32_toUInt64]
    rw [ge_iff_le, UInt64.not_le, UInt64.lt_iff_toNat_lt, wide]
    exact hlt

theorem parseUint31Dec_eq_some (s : Bytes) (v : UInt32) :
    parseUint31Dec s = some v ↔ IsDecimal s v.toNat ∧ v.toNat < 2 ^ 31 := by
  have spec := parseInBase_narrow reads_decimal s 0x80000000 (by decide) v
  rw [parseUint31Dec, spec, IsDecimal, and_assoc]
  rfl

/-- The two spellings of a coin type and the number they spell. -/
def SpellsNumber (s : Bytes) (n : ℕ) : Prop :=
  IsDecimal s n ∨ ∃ x body, s = ch '0' :: x :: body ∧ (x = ch 'x' ∨ x = ch 'X') ∧ IsHex body n

theorem narrow32_bind {base : UInt64} {digit : Byte → Option ℕ} (h : Reads base digit)
    (s : Bytes) (v : UInt32) :
    (parseInBase s base).bind narrow32 = some v ↔ s ≠ [] ∧ value digit base.toNat s = some v.toNat := by
  have spec := parseInBase_narrow h s 0x100000000 (by decide) v
  have same : narrow32 = fun w => if w ≥ 0x100000000 then none else some w.toUInt32 := by
    funext w
    unfold narrow32
    have : w > 0xFFFFFFFF ↔ w ≥ 0x100000000 := by
      rw [gt_iff_lt, ge_iff_le, UInt64.lt_iff_toNat_lt, UInt64.le_iff_toNat_le]
      exact Nat.lt_iff_add_one_le
    simp only [this]
  rw [same, spec]
  have fits : v.toNat < (0x100000000 : UInt64).toNat := v.toNat_lt
  exact ⟨fun hv => ⟨hv.1, hv.2.1⟩, fun hv => ⟨hv.1, hv.2, fits⟩⟩

theorem isDecimal_no_x {c : Byte} {s : Bytes} {n : ℕ} (h : IsDecimal (ch '0' :: c :: s) n) :
    c ≠ ch 'x' ∧ c ≠ ch 'X' := by
  have hd := value_digits _ _ h.2 c (by simp)
  constructor <;> (rintro rfl; revert hd; decide)

theorem parseUint32_eq_some (s : Bytes) (v : UInt32) : parseUint32 s = some v ↔ SpellsNumber s v.toNat := by
  have dec := narrow32_bind reads_decimal s v
  unfold parseUint32 SpellsNumber
  match s with
  | [] => simp [IsDecimal]
  | [c] =>
    rw [dec]
    simp [IsDecimal, show (10 : UInt64).toNat = 10 from rfl]
  | c₀ :: c₁ :: body =>
    by_cases hx : c₀ = ch '0' ∧ (c₁ = ch 'x' ∨ c₁ = ch 'X')
    · obtain ⟨rfl, hx⟩ := hx
      have notDec : ¬ IsDecimal (ch '0' :: c₁ :: body) v.toNat := by
        intro h
        have := isDecimal_no_x h
        tauto
      have hexa := narrow32_bind reads_hex body v
      simp only [hx, and_self, if_true]
      cases body with
      | nil => simp [notDec, IsHex]
      | cons b body =>
        rw [if_neg (by simp), hexa]
        simp [notDec, IsHex, hx, show (16 : UInt64).toNat = 16 from rfl]
    · simp only [hx, if_false]
      rw [dec]
      constructor
      · intro h
        exact .inl h
      · rintro (h | ⟨x, rest, heq, hxx, _⟩)
        · exact h
        · simp only [List.cons.injEq] at heq
          obtain ⟨rfl, rfl, rfl⟩ := heq
          exact absurd ⟨rfl, hxx⟩ hx

theorem digit_eq {v : UInt32} : ch '0' + (v % 10).toUInt8 = ch (v.toNat % 10).digitChar := by
  have small : v.toNat % 10 < 10 := Nat.mod_lt _ (by decide)
  have narrow : (v % 10).toUInt8 = UInt8.ofNat (v.toNat % 10) := by
    apply UInt8.toNat_inj.mp
    simp
  rw [narrow]
  generalize v.toNat % 10 = d at small
  interval_cases d <;> decide

end Numbers

end Mhda.DetailFacts
