import Mhda.PathText

set_option autoImplicit false

namespace Mhda.PathParse
open Mhda.ByteString Mhda.Errors Mhda.Catalogue Mhda.Transition Mhda.Path Mhda.Template Mhda.PathText

theorem admitsRaw_fixed (n : UInt32) (l : RawLevel) :
    Slot.admitsRaw (.fixed n) l = (l.index == n && l.isHardened && l.exact) := rfl

theorem admitsRaw_binary (l : RawLevel) :
    Slot.admitsRaw .binary l = (!l.isHardened && decide (l.index ≤ 1) && l.exact) := rfl

theorem admitsRaw_hardened (l : RawLevel) : Slot.admitsRaw .hardened l = l.isHardened := Bool.and_true _

theorem admitsRaw_soft (l : RawLevel) : Slot.admitsRaw .soft l = !l.isHardened := Bool.and_true _

theorem admitsRaw_any (l : RawLevel) : Slot.admitsRaw .any l = true := rfl

theorem fills_eq_false {α : Type} {allow : Slot → α → Bool} {slots : List Slot} {ls : List α}
    (h : ls.length ≠ slots.length) : fills allow slots ls = false := by
  rw [Bool.eq_false_iff]
  intro hf
  exact h (fills_length hf)

def FitsRaw (s : Scheme) (raws : List RawLevel) : Prop :=
  ∃ layout ∈ s.layouts, fills Slot.admitsRaw layout raws = true

theorem validateBip44Family_eq (raws : List RawLevel) (purpose : UInt32) :
    validateBip44Family raws purpose 0 false =
      fills Slot.admitsRaw [.fixed purpose, .hardened, .hardened, .binary, .any] raws := by
  by_cases five : raws.length = 5
  · obtain ⟨a, b, c, d, e, rfl⟩ := length_five five
    rw [Bool.eq_iff_iff]
    simp [validateBip44Family, expectPurpose, lvl, fills, admitsRaw_fixed, admitsRaw_hardened,
      admitsRaw_binary, admitsRaw_any]
    tauto
  · rw [fills_eq_false five, validateBip44Family, if_pos five]

theorem validateBip32_eq (raws : List RawLevel) :
    validateBip32 raws = fills Slot.admitsRaw [.hardened, .binary, .any] raws := by
  by_cases three : raws.length = 3
  · obtain ⟨a, b, c, rfl⟩ := List.length_eq_three.mp three
    rw [Bool.eq_iff_iff]
    simp [validateBip32, lvl, fills, admitsRaw_hardened, admitsRaw_binary, admitsRaw_any, and_assoc]
  · rw [fills_eq_false three, validateBip32, if_pos three]

theorem validateCip11_eq (raws : List RawLevel) :
    validateCip11 raws = fills Slot.admitsRaw [.fixed 44, .fixed 118, .hardened, .soft, .any] raws := by
  by_cases five : raws.length = 5
  · obtain ⟨a, b, c, d, e, rfl⟩ := length_five five
    rw [Bool.eq_iff_iff]
    simp [validateCip11, expectPurpose, expectCoin, lvl, fills, admitsRaw_fixed, admitsRaw_hardened,
      admitsRaw_soft, admitsRaw_any, and_assoc]
  · rw [fills_eq_false five, validateCip11, if_pos five]

theorem validateCip1852_eq (raws : List RawLevel) :
    validateCip1852 raws = fills Slot.admitsRaw [.fixed 1852, .fixed 1815, .hardened, .soft, .any] raws := by
  by_cases five : raws.length = 5
  · obtain ⟨a, b, c, d, e, rfl⟩ := length_five five
    rw [Bool.eq_iff_iff]
    simp [validateCip1852, expectPurpose, expectCoin, lvl, fills, admitsRaw_fixed, admitsRaw_hardened,
      admitsRaw_soft, admitsRaw_any, and_assoc]
  · rw [fills_eq_false five, validateCip1852, if_pos five]

/-- The fourth level of `zip32` is optional, so it has two layouts. -/
theorem validateZip32_iff (raws : List RawLevel) :
    validateZip32 raws = true ↔
      fills Slot.admitsRaw [.fixed 32, .fixed 133, .hardened] raws = true ∨
        fills Slot.admitsRaw [.fixed 32, .fixed 133, .hardened, .any] raws = true := by
  match raws with
  | [] | [_] | [_, _] | _ :: _ :: _ :: _ :: _ :: _ => simp [validateZip32, fills]
  | [a, b, c] =>
    simp [validateZip32, expectPurpose, expectCoin, lvl, fills, admitsRaw_fixed,
      admitsRaw_hardened, and_assoc]
  | [a, b, c, d] =>
    simp [validateZip32, expectPurpose, expectCoin, lvl, fills, admitsRaw_fixed, admitsRaw_hardened,
      admitsRaw_any, and_assoc]

theorem validateSlip10_iff (raws : List RawLevel) :
    validateSlip10 raws = true ↔ FitsRaw .slip10 raws := by
  have depth : validateSlip10 raws = true ↔ 1 ≤ raws.length ∧ raws.length ≤ 255 := by
    cases raws <;> simp [validateSlip10, maxSlip10Depth]
  rw [depth, FitsRaw]
  simp only [Scheme.layouts, List.mem_map, exists_exists_and_eq_and, List.mem_range,
    fills_any admitsRaw_any]
  constructor
  · intro h
    exact ⟨raws.length - 1, by omega, by omega⟩
  · rintro ⟨n, hn, hl⟩
    omega

theorem validateLevelsFor_iff (s : Scheme) (raws : List RawLevel) :
    validateLevelsFor s.type raws = true ↔ FitsRaw s raws := by
  have one : ∀ layout, (∃ l ∈ [layout], fills Slot.admitsRaw l raws = true) ↔
      fills Slot.admitsRaw layout raws = true := by simp
  cases s with
  | bip32 => rw [FitsRaw, Scheme.layouts, one, ← validateBip32_eq]; rfl
  | bip44 | bip49 | bip54 | bip74 | bip84 | bip86 =>
    rw [FitsRaw, Scheme.layouts, one, ← validateBip44Family_eq]; rfl
  | slip10 => exact validateSlip10_iff raws
  | cip11 => rw [FitsRaw, Scheme.layouts, one, ← validateCip11_eq]; rfl
  | cip1852 => rw [FitsRaw, Scheme.layouts, one, ← validateCip1852_eq]; rfl
  | zip32 =>
    have two := validateZip32_iff raws
    have same : validateLevelsFor Scheme.zip32.type raws = validateZip32 raws := rfl
    rw [same, two]
    simp [FitsRaw, Scheme.layouts]

theorem fills_map {α β : Type} {allow : Slot → α → Bool} {allow' : Slot → β → Bool} {f : α → β}
    (h : ∀ slot a, allow slot a = true → allow' slot (f a) = true) {slots : List Slot} {ls : List α}
    (hf : fills allow slots ls = true) : fills allow' slots (ls.map f) = true := by
  induction slots generalizing ls with
  | nil =>
    cases ls with
    | nil => rfl
    | cons l ls => simp [fills] at hf
  | cons slot slots ih =>
    cases ls with
    | nil => simp [fills] at hf
    | cons l ls =>
      simp only [fills, Bool.and_eq_true] at hf
      simp only [List.map_cons, fills, Bool.and_eq_true]
      exact ⟨h slot l hf.1, ih hf.2⟩

theorem FitsRaw.fits {s : Scheme} {raws : List RawLevel} (h : FitsRaw s raws)
    (hr : ∀ l ∈ raws.map RawLevel.level, InRange l) : s.Fits (raws.map RawLevel.level) := by
  obtain ⟨layout, hl, hf⟩ := h
  refine ⟨⟨layout, hl, fills_map ?_ hf⟩, hr⟩
  intro slot l ha
  exact (Bool.and_eq_true_iff.mp ha).1

theorem fitsRaw_exact {s : Scheme} {levels : List AddressIndex} (h : s.Fits levels) :
    FitsRaw s (levels.map exactRaw) := by
  obtain ⟨⟨layout, hl, hf⟩, _⟩ := h
  refine ⟨layout, hl, fills_map ?_ hf⟩
  intro slot l ha
  simpa [Slot.admitsRaw, exactRaw, RawLevel.level] using ha

theorem level_exactRaw (levels : List AddressIndex) :
    (levels.map exactRaw).map RawLevel.level = levels := by
  simp [exactRaw, RawLevel.level, Function.comp_def]

/-- The purpose of the schemes that leave the coin type open. -/
def purpose : Scheme → Option UInt32
  | .bip44 => some 44
  | .bip49 => some 49
  | .bip54 => some 54
  | .bip74 => some 74
  | .bip84 => some 84
  | .bip86 => some 86
  | _ => none

inductive Shape : Scheme → List AddressIndex → Prop where
  | bip32 (account charge : UInt32) (index : AddressIndex) :
      Shape .bip32 [⟨account, true⟩, ⟨charge, false⟩, index]
  | family {s : Scheme} {p : UInt32} (h : purpose s = some p) (coin account charge : UInt32)
      (index : AddressIndex) :
      Shape s [⟨p, true⟩, ⟨coin, true⟩, ⟨account, true⟩, ⟨charge, false⟩, index]
  | slip10 {levels : List AddressIndex} (h : levels ≠ []) : Shape .slip10 levels
  | cip11 (account charge : UInt32) (index : AddressIndex) :
      Shape .cip11 [⟨44, true⟩, ⟨118, true⟩, ⟨account, true⟩, ⟨charge, false⟩, index]
  | cip1852 (account charge : UInt32) (index : AddressIndex) :
      Shape .cip1852 [⟨1852, true⟩, ⟨1815, true⟩, ⟨account, true⟩, ⟨charge, false⟩, index]
  | zip32 (account : UInt32) : Shape .zip32 [⟨32, true⟩, ⟨133, true⟩, ⟨account, true⟩]
  | zip32Index (account : UInt32) (index : AddressIndex) :
      Shape .zip32 [⟨32, true⟩, ⟨133, true⟩, ⟨account, true⟩, index]

theorem admits_fixed {n : UInt32} {l : AddressIndex} : Slot.admits (.fixed n) l = true ↔ l = ⟨n, true⟩ := by
  obtain ⟨i, h⟩ := l
  simp [Slot.admits]

theorem admits_hardened {l : AddressIndex} : Slot.admits .hardened l = true ↔ l = ⟨l.index, true⟩ := by
  obtain ⟨i, h⟩ := l
  simp [Slot.admits]

theorem admits_soft {l : AddressIndex} : Slot.admits .soft l = true ↔ l = ⟨l.index, false⟩ := by
  obtain ⟨i, h⟩ := l
  simp [Slot.admits]

theorem admits_binary {l : AddressIndex} :
    Slot.admits .binary l = true ↔ l = ⟨l.index, false⟩ ∧ l.index ≤ 1 := by
  obtain ⟨i, h⟩ := l
  simp [Slot.admits]

theorem fills_family {p : UInt32} {levels : List AddressIndex}
    (h : fills Slot.admits [.fixed p, .hardened, .hardened, .binary, .any] levels = true) :
    ∃ coin account charge index, levels = [⟨p, true⟩, ⟨coin, true⟩, ⟨account, true⟩, ⟨charge, false⟩, index] := by
  obtain ⟨a, b, c, d, e, rfl⟩ := length_five (fills_length h)
  simp only [fills, Bool.and_eq_true, admits_fixed, admits_hardened, admits_binary] at h
  obtain ⟨ha, hb, hc, ⟨hd, _⟩, _⟩ := h
  exact ⟨b.index, c.index, d.index, e, by rw [← ha, ← hb, ← hc, ← hd]⟩

theorem fills_literal {p q : UInt32} {levels : List AddressIndex}
    (h : fills Slot.admits [.fixed p, .fixed q, .hardened, .soft, .any] levels = true) :
    ∃ account charge index, levels = [⟨p, true⟩, ⟨q, true⟩, ⟨account, true⟩, ⟨charge, false⟩, index] := by
  obtain ⟨a, b, c, d, e, rfl⟩ := length_five (fills_length h)
  simp only [fills, Bool.and_eq_true, admits_fixed, admits_hardened, admits_soft] at h
  obtain ⟨ha, hb, hc, hd, _⟩ := h
  exact ⟨c.index, d.index, e, by rw [← ha, ← hb, ← hc, ← hd]⟩

theorem Fits.shape {s : Scheme} {levels : List AddressIndex} (h : s.Fits levels) : Shape s levels := by
  have nonempty := h.ne_nil
  obtain ⟨⟨layout, hl, hf⟩, _⟩ := h
  cases s with
  | bip32 =>
    rw [Scheme.layouts, List.mem_singleton] at hl
    subst hl
    obtain ⟨a, b, c, rfl⟩ := List.length_eq_three.mp (fills_length hf)
    simp only [fills, Bool.and_eq_true, admits_hardened, admits_binary] at hf
    obtain ⟨ha, ⟨hb, _⟩, _⟩ := hf
    rw [ha, hb]
    exact .bip32 _ _ _
  | bip44 | bip49 | bip54 | bip74 | bip84 | bip86 =>
    rw [Scheme.layouts, List.mem_singleton] at hl
    subst hl
    obtain ⟨coin, account, charge, index, rfl⟩ := fills_family hf
    exact .family rfl _ _ _ _
  | slip10 => exact .slip10 nonempty
  | cip11 =>
    rw [Scheme.layouts, List.mem_singleton] at hl
    subst hl
    obtain ⟨account, charge, index, rfl⟩ := fills_literal hf
    exact .cip11 _ _ _
  | cip1852 =>
    rw [Scheme.layouts, List.mem_singleton] at hl
    subst hl
    obtain ⟨account, charge, index, rfl⟩ := fills_literal hf
    exact .cip1852 _ _ _
  | zip32 =>
    rw [Scheme.layouts, List.mem_cons, List.mem_singleton] at hl
    rcases hl with rfl | rfl
    · obtain ⟨a, b, c, rfl⟩ := List.length_eq_three.mp (fills_length hf)
      simp only [fills, Bool.and_eq_true, admits_fixed, admits_hardened] at hf
      obtain ⟨ha, hb, hc, _⟩ := hf
      rw [ha, hb, hc]
      exact .zip32 _
    · obtain ⟨a, b, c, d, rfl⟩ := length_four (fills_length hf)
      simp only [fills, Bool.and_eq_true, admits_fixed, admits_hardened] at hf
      obtain ⟨ha, hb, hc, _⟩ := hf
      rw [ha, hb, hc]
      exact .zip32Index _ _

theorem lvl_level (raws : List RawLevel) (i : ℕ) :
    (lvl raws i).level = (raws.map RawLevel.level).getD i ⟨0, false⟩ := by
  rw [lvl, List.getD_eq_getElem?_getD, List.getD_eq_getElem?_getD, List.getElem?_map]
  cases raws[i]? <;> rfl

theorem lvl_index (raws : List RawLevel) (i : ℕ) :
    (lvl raws i).index = ((raws.map RawLevel.level).getD i ⟨0, false⟩).index := by
  rw [← lvl_level]
  rfl

theorem parseFresh_of_levels {s : Scheme} {path : Bytes} {raws : List RawLevel}
    (hp : parseLevels path = some raws) (hv : validateLevelsFor s.type raws = true)
    (hs : Shape s (raws.map RawLevel.level)) :
    (DerivationPath.fresh s.type).parseFresh path = .ok (concrete s (raws.map RawLevel.level)) := by
  have len : raws.length = (raws.map RawLevel.level).length := (List.length_map _).symm
  have type : (DerivationPath.fresh s.type).type = s.type := rfl
  unfold DerivationPath.parseFresh
  rw [type, hp, Option.filter_some, if_pos hv]
  simp only [DerivationPath.setFive, lvl_index, lvl_level, len]
  generalize raws.map RawLevel.level = levels at hs
  cases hs with
  | bip32 => rfl
  | family h => cases s <;> cases h <;> rfl
  | slip10 h =>
    cases levels with
    | nil => exact absurd rfl h
    | cons l ls => rfl
  | cip11 => rfl
  | cip1852 => rfl
  | zip32 => rfl
  | zip32Index => rfl

/-- Parsing under a scheme: the text spells levels that fill a layout. -/
theorem parseFresh_scheme (s : Scheme) (path : Bytes) :
    (DerivationPath.fresh s.type).parseFresh path =
      match (parseLevels path).filter (validateLevelsFor s.type) with
      | none => .error ⟨.invalidDerivationPath, Detail.quote path⟩
      | some raws => .ok (concrete s (raws.map RawLevel.level)) := by
  cases hp : (parseLevels path).filter (validateLevelsFor s.type) with
  | none =>
    have type : (DerivationPath.fresh s.type).type = s.type := rfl
    unfold DerivationPath.parseFresh
    rw [type, if_neg (by simp [s.type_valid]), if_neg s.type_ne_root, hp]
  | some raws =>
    obtain ⟨hl, hv⟩ := Option.filter_eq_some_iff.mp hp
    have spelled := (parseLevels_eq_some path raws).mp hl
    have fits := ((validateLevelsFor_iff s raws).mp hv).fits (spells_inRange spelled)
    exact parseFresh_of_levels hl hv (Fits.shape fits)

theorem parse_scheme (s : Scheme) (path : Bytes) :
    DerivationPath.parse s.type path = (DerivationPath.fresh s.type).parseFresh path := by
  unfold DerivationPath.parse DerivationPath.parsePath
  rw [if_neg (by simp [s.type_valid]), After.result_commit]
  rfl

theorem parse_eq_ok (s : Scheme) (path : Bytes) (d : DerivationPath) :
    DerivationPath.parse s.type path = .ok d ↔
      ∃ raws, PathSpells path raws ∧ FitsRaw s raws ∧ d = concrete s (raws.map RawLevel.level) := by
  rw [parse_scheme, parseFresh_scheme]
  constructor
  · intro h
    split at h
    · cases h
    · rename_i raws hr
      obtain ⟨hl, hv⟩ := Option.filter_eq_some_iff.mp hr
      refine ⟨raws, (parseLevels_eq_some _ _).mp hl, (validateLevelsFor_iff s raws).mp hv, ?_⟩
      exact (Except.ok.inj h).symm
  · rintro ⟨raws, hl, hv, rfl⟩
    have found : (parseLevels path).filter (validateLevelsFor s.type) = some raws := by
      rw [(parseLevels_eq_some _ _).mpr hl, Option.filter_some, if_pos ((validateLevelsFor_iff s raws).mpr hv)]
    rw [found]

theorem parse_error (s : Scheme) (path : Bytes) {e : ParseError}
    (h : DerivationPath.parse s.type path = .error e) : e.code = .invalidDerivationPath := by
  rw [parse_scheme, parseFresh_scheme] at h
  split at h
  · rw [← Except.error.inj h]
  · cases h

theorem parse_fits {s : Scheme} {path : Bytes} {d : DerivationPath}
    (h : DerivationPath.parse s.type path = .ok d) : s.Fits d.levels ∧ d = concrete s d.levels := by
  obtain ⟨raws, spelled, valid, rfl⟩ := (parse_eq_ok s path d).mp h
  rw [concrete_levels]
  exact ⟨valid.fits (spells_inRange spelled), rfl⟩

theorem parse_renderPath {s : Scheme} {levels : List AddressIndex} (h : s.Fits levels) :
    DerivationPath.parse s.type (renderPath levels) = .ok (concrete s levels) := by
  rw [parse_eq_ok]
  refine ⟨levels.map exactRaw, ?_, fitsRaw_exact h, ?_⟩
  · exact (parseLevels_eq_some _ _).mp (parseLevels_renderPath h.2)
  · rw [level_exactRaw]

theorem validateDerivationPath_iff (s : Scheme) (path : Bytes) :
    validateDerivationPath s.type path = true ↔ ∃ raws, PathSpells path raws ∧ FitsRaw s raws := by
  unfold validateDerivationPath
  rw [if_neg (by simp [s.type_valid]), if_neg s.type_ne_root]
  cases hl : parseLevels path with
  | none =>
    simp only [Bool.false_eq_true, false_iff]
    rintro ⟨raws, spelled, _⟩
    rw [(parseLevels_eq_some _ _).mpr spelled] at hl
    cases hl
  | some raws =>
    rw [validateLevelsFor_iff]
    constructor
    · intro h
      exact ⟨raws, (parseLevels_eq_some _ _).mp hl, h⟩
    · rintro ⟨raws', spelled, h⟩
      rw [(parseLevels_eq_some _ _).mpr spelled, Option.some.injEq] at hl
      exact hl ▸ h

section Render

theorem pathLiterals : lit "m/" = [ch 'm', ch '/'] ∧ lit "'/" = [apostrophe, ch '/'] ∧ lit "/" = [ch '/'] ∧
    lit "'" = [apostrophe] := ⟨rfl, rfl, rfl, rfl⟩

theorem str_three {dp : DerivationPath} (hl : dp.levels ≠ []) (ht : dp.type = .bip32) :
    dp.str = renderPath [⟨dp.account, true⟩, ⟨dp.charge, false⟩, dp.index] := by
  have empty : dp.levels.isEmpty = false := by simpa using hl
  have notSlip : DerivationType.bip32 ≠ .slip10 := by decide
  obtain ⟨front, mark, slash, last⟩ := pathLiterals
  unfold DerivationPath.str
  simp only [empty, ht, notSlip, appendUint32_eq, front, mark, slash, last]
  cases hi : dp.index.isHardened <;> simp [renderPath, renderLevel, hi]

theorem str_five {dp : DerivationPath} {p c : UInt32} (hl : dp.levels ≠ [])
    (ht : dp.type ≠ .slip10 ∧ dp.type ≠ .bip32 ∧ dp.type ≠ .zip32) (hp : dp.fixedPrefix = some (p, c)) :
    dp.str = renderPath [⟨p, true⟩, ⟨c, true⟩, ⟨dp.account, true⟩, ⟨dp.charge, false⟩, dp.index] := by
  have empty : dp.levels.isEmpty = false := by simpa using hl
  obtain ⟨notSlip, not32, notZip⟩ := ht
  obtain ⟨front, mark, slash, last⟩ := pathLiterals
  unfold DerivationPath.str
  simp only [empty, notSlip, not32, notZip, hp, appendUint32_eq, front, mark, slash, last]
  cases hi : dp.index.isHardened <;> simp [renderPath, renderLevel, hi]

theorem str_zip32 {dp : DerivationPath} (hl : dp.levels ≠ []) (ht : dp.type = .zip32) :
    dp.str = renderPath ([⟨32, true⟩, ⟨133, true⟩, ⟨dp.account, true⟩] ++
      if dp.hasIndex then [dp.index] else []) := by
  have empty : dp.levels.isEmpty = false := by simpa using hl
  have notSlip : DerivationType.zip32 ≠ .slip10 := by decide
  have not32 : DerivationType.zip32 ≠ .bip32 := by decide
  have hp : dp.fixedPrefix = some (32, 133) := by
    unfold DerivationPath.fixedPrefix
    rw [ht]
    rfl
  obtain ⟨front, mark, slash, last⟩ := pathLiterals
  unfold DerivationPath.str
  simp only [empty, ht, notSlip, not32, hp, appendUint32_eq, front, mark, slash, last]
  cases hh : dp.hasIndex
  · simp [renderPath, renderLevel]
  · cases hi : dp.index.isHardened <;> simp [renderPath, renderLevel, hi]

theorem str_of_shape {s : Scheme} {levels : List AddressIndex} (h : Shape s levels) :
    (concrete s levels).str = renderPath levels := by
  cases h with
  | bip32 => exact str_three (by simp) rfl
  | family h => cases s <;> cases h <;> exact str_five (by simp) (by rw [concrete_type]; decide) rfl
  | slip10 h =>
    have empty : levels.isEmpty = false := by simpa using h
    unfold DerivationPath.str
    rw [concrete_levels, empty, concrete_type, formatLevels_eq]
    rfl
  | cip11 => exact str_five (by simp) (by rw [concrete_type]; decide) rfl
  | cip1852 => exact str_five (by simp) (by rw [concrete_type]; decide) rfl
  | zip32 => exact str_zip32 (by simp) rfl
  | zip32Index => exact str_zip32 (by simp) rfl

theorem str_concrete {s : Scheme} {levels : List AddressIndex} (h : s.Fits levels) :
    (concrete s levels).str = renderPath levels := str_of_shape (Fits.shape h)

theorem parse_str {s : Scheme} {levels : List AddressIndex} (h : s.Fits levels) :
    DerivationPath.parse s.type (concrete s levels).str = .ok (concrete s levels) := by
  rw [str_concrete h, parse_renderPath h]

end Render

section FromLevels

theorem populate_of_shape {s : Scheme} {levels : List AddressIndex} (h : Shape s levels) :
    { DerivationPath.fresh s.type with levels := levels }.populateShortcutsFromLevels = concrete s levels := by
  cases h with
  | bip32 => rfl
  | family h => cases s <;> cases h <;> rfl
  | slip10 h =>
    cases levels with
    | nil => exact absurd rfl h
    | cons l ls => rfl
  | cip11 => rfl
  | cip1852 => rfl
  | zip32 => rfl
  | zip32Index => rfl

theorem populate_frame (dp : DerivationPath) :
    dp.populateShortcutsFromLevels.levels = dp.levels ∧ dp.populateShortcutsFromLevels.type = dp.type := by
  unfold DerivationPath.populateShortcutsFromLevels
  simp only
  split_ifs
  all_goals exact ⟨rfl, rfl⟩

theorem reparsed_eq_ok {dp out : DerivationPath} {levels : List AddressIndex} :
    dp.reparsed levels = .ok out ↔ DerivationPath.parse dp.type dp.str = .ok out ∧ out.levels = levels := by
  unfold DerivationPath.reparsed
  simp only [bind_eq_ok, guard_eq_ok, ne_eq, not_not, Except.ok.injEq]
  constructor
  · rintro ⟨_, hp, hl, rfl⟩
    exact ⟨hp, hl⟩
  · rintro ⟨hp, hl⟩
    exact ⟨out, hp, hl, rfl⟩

theorem fromLevels_scheme (s : Scheme) (levels : List AddressIndex) (d : DerivationPath) :
    DerivationPath.fromLevels s.type levels = .ok d ↔ s.Fits levels ∧ d = concrete s levels := by
  unfold DerivationPath.fromLevels
  rw [if_neg (by simp [s.type_valid])]
  simp only
  rw [reparsed_eq_ok, (populate_frame _).1, (populate_frame _).2]
  constructor
  · rintro ⟨hp, hl⟩
    obtain ⟨fits, same⟩ := parse_fits hp
    simp only at hl
    rw [hl] at fits same
    exact ⟨fits, same⟩
  · rintro ⟨fits, rfl⟩
    rw [populate_of_shape (Fits.shape fits), concrete_levels]
    exact ⟨parse_str fits, rfl⟩

end FromLevels

end Mhda.PathParse
