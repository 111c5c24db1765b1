import Mhda.PathHistory

set_option autoImplicit false

namespace Mhda.PathGrammar
open Mhda.ByteString Mhda.Errors Mhda.Detail Mhda.Numeral Mhda.Catalogue Mhda.Path Mhda.Template
open Mhda.PathText Mhda.PathParse Mhda.PathHistory

/-- Digits with any number of leading zeros, of a value below 2^31. -/
def Index (digits : Bytes) (v : UInt32) : Prop := IsDecimal digits v.toNat ∧ v.toNat < 2 ^ 31

def Marker (c : Byte) : Prop := c = apostrophe ∨ c = ch 'h' ∨ c = ch 'H'

abbrev Piece := Bytes → AddressIndex → Prop

/-- `Dh` -/
def Hard : Piece := fun seg l =>
  ∃ digits c, seg = digits ++ [c] ∧ Index digits l.index ∧ Marker c ∧ l.isHardened = true

/-- `D` -/
def Soft : Piece := fun seg l => Index seg l.index ∧ l.isHardened = false

/-- `D[h]` -/
def Free : Piece := fun seg l => Soft seg l ∨ Hard seg l

/-- `Nh`, the number spelled without leading zeros. -/
def Fixed (n : UInt32) : Piece := fun seg l => ∃ c, seg = decimal n.toNat ++ [c] ∧ Marker c ∧ l = ⟨n, true⟩

/-- `(0|1)` -/
def Bit : Piece := fun seg l => (seg = lit "0" ∧ l = ⟨0, false⟩) ∨ (seg = lit "1" ∧ l = ⟨1, false⟩)

inductive Matches : List Piece → List Bytes → List AddressIndex → Prop where
  | nil : Matches [] [] []
  | cons {piece : Piece} {pieces : List Piece} {seg : Bytes} {segs : List Bytes} {l : AddressIndex}
      {levels : List AddressIndex} (h : piece seg l) (hs : Matches pieces segs levels) :
      Matches (piece :: pieces) (seg :: segs) (l :: levels)

def Spelled (pieces : List Piece) (p : Bytes) (levels : List AddressIndex) : Prop :=
  ∃ segs, p = ch 'm' :: segs.flatMap (fun seg => ch '/' :: seg) ∧ Matches pieces segs levels

/-- The pattern of each type, and the levels a text of it has. -/
inductive Grammar : DerivationType → Bytes → List AddressIndex → Prop where
  | root : Grammar .root [] []
  | bip32 {p : Bytes} {levels : List AddressIndex} (h : Spelled [Hard, Bit, Free] p levels) :
      Grammar .bip32 p levels
  | bip44 {p : Bytes} {levels : List AddressIndex} (h : Spelled [Fixed 44, Hard, Hard, Bit, Free] p levels) :
      Grammar .bip44 p levels
  | bip49 {p : Bytes} {levels : List AddressIndex} (h : Spelled [Fixed 49, Hard, Hard, Bit, Free] p levels) :
      Grammar .bip49 p levels
  | bip54 {p : Bytes} {levels : List AddressIndex} (h : Spelled [Fixed 54, Hard, Hard, Bit, Free] p levels) :
      Grammar .bip54 p levels
  | bip74 {p : Bytes} {levels : List AddressIndex} (h : Spelled [Fixed 74, Hard, Hard, Bit, Free] p levels) :
      Grammar .bip74 p levels
  | bip84 {p : Bytes} {levels : List AddressIndex} (h : Spelled [Fixed 84, Hard, Hard, Bit, Free] p levels) :
      Grammar .bip84 p levels
  | bip86 {p : Bytes} {levels : List AddressIndex} (h : Spelled [Fixed 86, Hard, Hard, Bit, Free] p levels) :
      Grammar .bip86 p levels
  | slip10 {p : Bytes} {levels : List AddressIndex} {n : ℕ} (hn : 1 ≤ n ∧ n ≤ 255)
      (h : Spelled (List.replicate n Free) p levels) : Grammar .slip10 p levels
  | cip11 {p : Bytes} {levels : List AddressIndex} (h : Spelled [Fixed 44, Fixed 118, Hard, Soft, Free] p levels) :
      Grammar .cip11 p levels
  | cip1852 {p : Bytes} {levels : List AddressIndex}
      (h : Spelled [Fixed 1852, Fixed 1815, Hard, Soft, Free] p levels) : Grammar .cip1852 p levels
  | zip32 {p : Bytes} {levels : List AddressIndex} (h : Spelled [Fixed 32, Fixed 133, Hard] p levels) :
      Grammar .zip32 p levels
  | zip32Index {p : Bytes} {levels : List AddressIndex}
      (h : Spelled [Fixed 32, Fixed 133, Hard, Free] p levels) : Grammar .zip32 p levels

section Pieces

theorem marker_iff (c : Byte) : isHardeningMarker c = true ↔ Marker c := by
  simp [isHardeningMarker, Marker, or_assoc]

def Exact (digits : Bytes) : Bool := digits.length == 1 || digits.head? != some (ch '0')

theorem exact_iff (digits : Bytes) : Exact digits = true ↔ digits.length = 1 ∨ digits.head? ≠ some (ch '0') := by
  simp [Exact]

theorem spells_hardened (seg : Bytes) (l : AddressIndex) (e : Bool) :
    SegmentSpells seg ⟨l.index, true, e⟩ ↔
      ∃ digits c, seg = digits ++ [c] ∧ Index digits l.index ∧ Marker c ∧ e = Exact digits := by
  constructor
  · rintro ⟨digits, marker, rfl, decimal, range, mark, exact_⟩
    obtain ⟨c, rfl, hc⟩ := mark
    exact ⟨digits, c, rfl, ⟨decimal, range⟩, (marker_iff c).mp hc, exact_⟩
  · rintro ⟨digits, c, rfl, ⟨decimal, range⟩, mark, exact_⟩
    exact ⟨digits, [c], rfl, decimal, range, ⟨c, rfl, (marker_iff c).mpr mark⟩, exact_⟩

theorem spells_soft (seg : Bytes) (l : AddressIndex) (e : Bool) :
    SegmentSpells seg ⟨l.index, false, e⟩ ↔ Index seg l.index ∧ e = Exact seg := by
  constructor
  · rintro ⟨digits, marker, rfl, decimal, range, mark, exact_⟩
    simp only [Bool.false_eq_true, if_false] at mark
    subst mark
    rw [List.append_nil]
    exact ⟨⟨decimal, range⟩, exact_⟩
  · rintro ⟨⟨decimal, range⟩, exact_⟩
    exact ⟨seg, [], by simp, decimal, range, by simp, exact_⟩

def piece : Slot → Piece
  | .fixed n => Fixed n
  | .hardened => Hard
  | .binary => Bit
  | .soft => Soft
  | .any => Free

theorem hard_iff (seg : Bytes) (l : AddressIndex) :
    Hard seg l ↔ l.isHardened = true ∧ ∃ e, SegmentSpells seg ⟨l.index, true, e⟩ := by
  simp only [spells_hardened]
  constructor
  · rintro ⟨digits, c, hs, index, mark, hardened⟩
    exact ⟨hardened, _, digits, c, hs, index, mark, rfl⟩
  · rintro ⟨hardened, _, digits, c, hs, index, mark, _⟩
    exact ⟨digits, c, hs, index, mark, hardened⟩

theorem soft_iff (seg : Bytes) (l : AddressIndex) :
    Soft seg l ↔ l.isHardened = false ∧ ∃ e, SegmentSpells seg ⟨l.index, false, e⟩ := by
  simp only [spells_soft]
  constructor
  · rintro ⟨index, open_⟩
    exact ⟨open_, _, index, rfl⟩
  · rintro ⟨open_, _, index, _⟩
    exact ⟨index, open_⟩

/-- A literal is the one spelling of its number that has no leading zero. -/
theorem fixed_iff {n : UInt32} (small : n.toNat < 2 ^ 31) (seg : Bytes) (l : AddressIndex) :
    Fixed n seg l ↔ l = ⟨n, true⟩ ∧ SegmentSpells seg ⟨n, true, true⟩ := by
  have spelled := spells_hardened seg ⟨n, true⟩ true
  rw [spelled]
  constructor
  · rintro ⟨c, rfl, mark, rfl⟩
    refine ⟨rfl, _, c, rfl, ⟨isDecimal_decimal _, small⟩, mark, ?_⟩
    exact ((exact_iff _).mpr (decimal_head _)).symm
  · rintro ⟨rfl, digits, c, rfl, ⟨decimal, _⟩, mark, exact_⟩
    refine ⟨c, ?_, mark, rfl⟩
    rw [decimal_unique decimal ((exact_iff _).mp exact_.symm)]

theorem bit_iff (seg : Bytes) (l : AddressIndex) :
    Bit seg l ↔ l.isHardened = false ∧ l.index ≤ 1 ∧ SegmentSpells seg ⟨l.index, false, true⟩ := by
  obtain ⟨i, hardened⟩ := l
  have spelled := spells_soft seg ⟨i, hardened⟩ true
  rw [spelled]
  unfold Bit
  constructor
  · rintro (⟨rfl, h⟩ | ⟨rfl, h⟩)
    · obtain ⟨rfl, rfl⟩ := (AddressIndex.mk.injEq ..).mp h
      exact ⟨rfl, by decide, ⟨isDecimal_decimal 0, by decide⟩, rfl⟩
    · obtain ⟨rfl, rfl⟩ := (AddressIndex.mk.injEq ..).mp h
      exact ⟨rfl, by decide, ⟨isDecimal_decimal 1, by decide⟩, rfl⟩
  · rintro ⟨rfl, bound, ⟨decimal, _⟩, exact_⟩
    have numeral := decimal_unique decimal ((exact_iff _).mp exact_.symm)
    have range : i.toNat ≤ 1 := by simpa [UInt32.le_iff_toNat_le] using bound
    have two : i = 0 ∨ i = 1 := by
      rw [← UInt32.toNat_inj, ← UInt32.toNat_inj, UInt32.toNat_zero, UInt32.toNat_one]
      omega
    rcases two with rfl | rfl
    · exact .inl ⟨numeral, rfl⟩
    · exact .inr ⟨numeral, rfl⟩

def Small : Slot → Prop
  | .fixed n => n.toNat < 2 ^ 31
  | _ => True

instance : DecidablePred Small
  | .fixed n => inferInstanceAs (Decidable (n.toNat < 2 ^ 31))
  | .hardened | .binary | .soft | .any => isTrue trivial

theorem piece_iff {slot : Slot} (small : Small slot) (seg : Bytes) (l : AddressIndex) :
    piece slot seg l ↔ ∃ raw, SegmentSpells seg raw ∧ slot.admitsRaw raw = true ∧ raw.level = l := by
  have raw_iff : (∃ raw, SegmentSpells seg raw ∧ slot.admitsRaw raw = true ∧ raw.level = l) ↔
      ∃ e, SegmentSpells seg ⟨l.index, l.isHardened, e⟩ ∧ slot.admitsRaw ⟨l.index, l.isHardened, e⟩ = true := by
    constructor
    · rintro ⟨⟨i, h, e⟩, spelled, admitted, rfl⟩
      exact ⟨e, spelled, admitted⟩
    · rintro ⟨e, spelled, admitted⟩
      exact ⟨_, spelled, admitted, rfl⟩
  rw [raw_iff]
  obtain ⟨i, h⟩ := l
  cases slot with
  | fixed n =>
    rw [piece, fixed_iff small]
    simp only [admitsRaw_fixed, Bool.and_eq_true, beq_iff_eq, AddressIndex.mk.injEq]
    constructor
    · rintro ⟨⟨rfl, rfl⟩, spelled⟩
      exact ⟨true, spelled, ⟨rfl, rfl⟩, rfl⟩
    · rintro ⟨e, spelled, ⟨rfl, rfl⟩, rfl⟩
      exact ⟨⟨rfl, rfl⟩, spelled⟩
  | hardened =>
    rw [piece, hard_iff]
    cases h <;> simp [admitsRaw_hardened]
  | binary =>
    rw [piece, bit_iff]
    cases h <;> simp [admitsRaw_binary, and_comm]
  | soft =>
    rw [piece, soft_iff]
    cases h <;> simp [admitsRaw_soft]
  | any =>
    rw [piece, Free, hard_iff, soft_iff]
    cases h <;> simp [admitsRaw_any]

end Pieces

section Patterns

theorem matches_iff {layout : List Slot} (small : ∀ slot ∈ layout, Small slot) (segs : List Bytes)
    (levels : List AddressIndex) :
    Matches (layout.map piece) segs levels ↔
      ∃ raws, List.Forall₂ SegmentSpells segs raws ∧ fills Slot.admitsRaw layout raws = true ∧
        raws.map RawLevel.level = levels := by
  induction layout generalizing segs levels with
  | nil =>
    constructor
    · intro h
      cases h
      exact ⟨[], .nil, rfl, rfl⟩
    · rintro ⟨raws, spelled, filled, rfl⟩
      cases spelled with
      | nil => exact .nil
      | cons h hs => cases filled
  | cons slot layout ih =>
    have tail := ih fun slot hs => small slot (List.mem_cons_of_mem _ hs)
    constructor
    · intro h
      cases h with
      | cons first rest =>
        obtain ⟨raw, spelled, admitted, rfl⟩ := (piece_iff (small slot (by simp)) _ _).mp first
        obtain ⟨raws, spells, filled, rfl⟩ := (tail _ _).mp rest
        exact ⟨raw :: raws, .cons spelled spells, by simp [fills, admitted, filled], rfl⟩
    · rintro ⟨raws, spelled, filled, rfl⟩
      cases spelled with
      | nil => cases filled
      | cons h hs =>
        rw [fills, Bool.and_eq_true] at filled
        rw [List.map_cons, List.map_cons]
        exact .cons ((piece_iff (small slot (by simp)) _ _).mpr ⟨_, h, filled.1, rfl⟩)
          ((tail _ _).mpr ⟨_, hs, filled.2, rfl⟩)

theorem spelled_iff {layout : List Slot} (small : ∀ slot ∈ layout, Small slot) (p : Bytes)
    (levels : List AddressIndex) :
    Spelled (layout.map piece) p levels ↔
      ∃ raws, PathSpells p raws ∧ fills Slot.admitsRaw layout raws = true ∧ raws.map RawLevel.level = levels := by
  unfold Spelled PathSpells
  constructor
  · rintro ⟨segs, text, h⟩
    obtain ⟨raws, spelled, filled, same⟩ := (matches_iff small segs levels).mp h
    exact ⟨raws, ⟨segs, text, spelled⟩, filled, same⟩
  · rintro ⟨raws, ⟨segs, text, spelled⟩, filled, same⟩
    exact ⟨segs, text, (matches_iff small segs levels).mpr ⟨raws, spelled, filled, same⟩⟩

theorem layouts_small (s : Scheme) : ∀ layout ∈ s.layouts, ∀ slot ∈ layout, Small slot := by
  cases s with
  | slip10 =>
    intro layout hl slot hs
    obtain ⟨n, _, rfl⟩ := List.mem_map.mp hl
    rw [List.eq_of_mem_replicate hs]
    trivial
  | _ => decide +kernel

theorem slip10_layout {n : ℕ} (hn : 1 ≤ n ∧ n ≤ 255) : List.replicate n Slot.any ∈ Scheme.slip10.layouts := by
  refine List.mem_map.mpr ⟨n - 1, List.mem_range.mpr (by omega), ?_⟩
  rw [Nat.sub_add_cancel hn.1]

theorem grammar_scheme (s : Scheme) (p : Bytes) (levels : List AddressIndex) :
    Grammar s.type p levels ↔ ∃ layout ∈ s.layouts, Spelled (layout.map piece) p levels := by
  constructor
  · intro h
    generalize hdt : s.type = dt at h
    cases h with
    | root => exact absurd hdt s.type_ne_root
    | bip32 h => exact (Scheme.type_injective hdt : s = .bip32) ▸ ⟨_, List.mem_singleton_self _, h⟩
    | bip44 h => exact (Scheme.type_injective hdt : s = .bip44) ▸ ⟨_, List.mem_singleton_self _, h⟩
    | bip49 h => exact (Scheme.type_injective hdt : s = .bip49) ▸ ⟨_, List.mem_singleton_self _, h⟩
    | bip54 h => exact (Scheme.type_injective hdt : s = .bip54) ▸ ⟨_, List.mem_singleton_self _, h⟩
    | bip74 h => exact (Scheme.type_injective hdt : s = .bip74) ▸ ⟨_, List.mem_singleton_self _, h⟩
    | bip84 h => exact (Scheme.type_injective hdt : s = .bip84) ▸ ⟨_, List.mem_singleton_self _, h⟩
    | bip86 h => exact (Scheme.type_injective hdt : s = .bip86) ▸ ⟨_, List.mem_singleton_self _, h⟩
    | slip10 hn h =>
      obtain rfl : s = .slip10 := Scheme.type_injective hdt
      refine ⟨_, slip10_layout hn, ?_⟩
      rw [List.map_replicate]
      exact h
    | cip11 h => exact (Scheme.type_injective hdt : s = .cip11) ▸ ⟨_, List.mem_singleton_self _, h⟩
    | cip1852 h => exact (Scheme.type_injective hdt : s = .cip1852) ▸ ⟨_, List.mem_singleton_self _, h⟩
    | zip32 h => exact (Scheme.type_injective hdt : s = .zip32) ▸ ⟨_, List.mem_cons_self, h⟩
    | zip32Index h =>
      exact (Scheme.type_injective hdt : s = .zip32) ▸ ⟨_, List.mem_cons_of_mem _ (List.mem_singleton_self _), h⟩
  · rintro ⟨layout, hl, h⟩
    have only : ∀ {slots : List Slot}, layout ∈ [slots] → Spelled (slots.map piece) p levels :=
      fun hl => List.mem_singleton.mp hl ▸ h
    cases s with
    | slip10 =>
      obtain ⟨n, hn, rfl⟩ := List.mem_map.mp hl
      rw [List.map_replicate] at h
      exact .slip10 ⟨Nat.succ_le_succ (Nat.zero_le n), List.mem_range.mp hn⟩ h
    | zip32 =>
      rcases List.mem_cons.mp hl with rfl | hl
      · exact .zip32 h
      · obtain rfl := List.mem_singleton.mp hl
        exact .zip32Index h
    | bip32 => exact .bip32 (only hl)
    | bip44 => exact .bip44 (only hl)
    | bip49 => exact .bip49 (only hl)
    | bip54 => exact .bip54 (only hl)
    | bip74 => exact .bip74 (only hl)
    | bip84 => exact .bip84 (only hl)
    | bip86 => exact .bip86 (only hl)
    | cip11 => exact .cip11 (only hl)
    | cip1852 => exact .cip1852 (only hl)

theorem grammar_valid {dt : DerivationType} {p : Bytes} {levels : List AddressIndex} (h : Grammar dt p levels) :
    (dt = .root ∧ p = [] ∧ levels = []) ∨ ∃ s : Scheme, dt = s.type := by
  cases h with
  | root => exact .inl ⟨rfl, rfl, rfl⟩
  | bip32 => exact .inr ⟨.bip32, rfl⟩
  | bip44 => exact .inr ⟨.bip44, rfl⟩
  | bip49 => exact .inr ⟨.bip49, rfl⟩
  | bip54 => exact .inr ⟨.bip54, rfl⟩
  | bip74 => exact .inr ⟨.bip74, rfl⟩
  | bip84 => exact .inr ⟨.bip84, rfl⟩
  | bip86 => exact .inr ⟨.bip86, rfl⟩
  | slip10 => exact .inr ⟨.slip10, rfl⟩
  | cip11 => exact .inr ⟨.cip11, rfl⟩
  | cip1852 => exact .inr ⟨.cip1852, rfl⟩
  | zip32 => exact .inr ⟨.zip32, rfl⟩
  | zip32Index => exact .inr ⟨.zip32, rfl⟩

theorem grammar_iff (s : Scheme) (p : Bytes) (levels : List AddressIndex) :
    Grammar s.type p levels ↔
      ∃ raws, PathSpells p raws ∧ FitsRaw s raws ∧ raws.map RawLevel.level = levels := by
  rw [grammar_scheme]
  constructor
  · rintro ⟨layout, hl, h⟩
    obtain ⟨raws, spelled, filled, same⟩ := (spelled_iff (layouts_small s layout hl) p levels).mp h
    exact ⟨raws, spelled, ⟨layout, hl, filled⟩, same⟩
  · rintro ⟨raws, spelled, ⟨layout, hl, filled⟩, same⟩
    exact ⟨layout, hl, (spelled_iff (layouts_small s layout hl) p levels).mpr ⟨raws, spelled, filled, same⟩⟩

end Patterns

theorem parse_grammar (dt : DerivationType) (p : Bytes) (levels : List AddressIndex) :
    (∃ d, DerivationPath.parse dt p = .ok d ∧ d.levels = levels) ↔ Grammar dt p levels := by
  constructor
  · rintro ⟨d, h, rfl⟩
    rcases valid_cases (parse_valid h) with rfl | ⟨s, rfl⟩
    · obtain ⟨rfl, rfl⟩ := (parse_root p d).mp h
      exact .root
    · obtain ⟨raws, spelled, fits, rfl⟩ := (parse_eq_ok s p d).mp h
      rw [concrete_levels]
      exact (grammar_iff s p _).mpr ⟨raws, spelled, fits, rfl⟩
  · intro h
    rcases grammar_valid h with ⟨rfl, rfl, rfl⟩ | ⟨s, rfl⟩
    · exact ⟨_, (parse_root _ _).mpr ⟨rfl, rfl⟩, rfl⟩
    · obtain ⟨raws, spelled, fits, rfl⟩ := (grammar_iff s p levels).mp h
      exact ⟨_, (parse_eq_ok s p _).mpr ⟨raws, spelled, fits, rfl⟩, concrete_levels _ _⟩

theorem validate_grammar (dt : DerivationType) (p : Bytes) :
    validateDerivationPath dt p = true ↔ ∃ levels, Grammar dt p levels := by
  constructor
  · intro h
    by_cases hv : dt.isValid = true
    · rcases valid_cases hv with rfl | ⟨s, rfl⟩
      · obtain rfl : p = [] := List.isEmpty_iff.mp h
        exact ⟨_, .root⟩
      · obtain ⟨raws, spelled, fits⟩ := (validateDerivationPath_iff s p).mp h
        exact ⟨_, (grammar_iff s p _).mpr ⟨raws, spelled, fits, rfl⟩⟩
    · unfold validateDerivationPath at h
      rw [if_pos (by simp [hv])] at h
      cases h
  · rintro ⟨levels, h⟩
    rcases grammar_valid h with ⟨rfl, rfl, _⟩ | ⟨s, rfl⟩
    · rfl
    · obtain ⟨raws, spelled, fits, _⟩ := (grammar_iff s p levels).mp h
      exact (validateDerivationPath_iff s p).mpr ⟨raws, spelled, fits⟩

/-- Both entry points accept exactly the grammar of the type, and read its levels. -/
theorem path_grammar (dt : DerivationType) (p : Bytes) :
    (validateDerivationPath dt p = true ↔ ∃ levels, Grammar dt p levels) ∧
    ((∃ d, DerivationPath.parse dt p = .ok d) ↔ ∃ levels, Grammar dt p levels) ∧
    (∀ d, DerivationPath.parse dt p = .ok d → ∀ levels, Grammar dt p levels ↔ levels = d.levels) ∧
    (dt.isValid = false → validateDerivationPath dt p = false ∧
      ∃ e, DerivationPath.parse dt p = .error e ∧ e.code = .invalidDerivationType) := by
  refine ⟨validate_grammar dt p, ?_, ?_, ?_⟩
  · simp only [← parse_grammar]
    exact ⟨fun ⟨d, h⟩ => ⟨_, d, h, rfl⟩, fun ⟨_, d, h, _⟩ => ⟨d, h⟩⟩
  · intro d h levels
    rw [← parse_grammar, h]
    simp [eq_comm]
  · intro invalid
    unfold validateDerivationPath DerivationPath.parse
    rw [invalid]
    exact ⟨rfl, _, rfl, rfl⟩

/-- Leading zeros are read in a variable level and refused in a literal one. -/
example : validateDerivationPath .bip44 (lit "m/44'/060H/0h/0/007'") = true ∧
    validateDerivationPath .bip44 (lit "m/044'/60'/0'/0/0") = false := by
  decide +kernel

end Mhda.PathGrammar
