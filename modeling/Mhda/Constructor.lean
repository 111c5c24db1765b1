import Mhda.PathHistory

set_option autoImplicit false

namespace Mhda.Constructor
open Mhda.ByteString Mhda.Errors Mhda.Catalogue Mhda.Path Mhda.Template Mhda.PathParse Mhda.PathHistory
open DerivationPath (Exception)

def levelsOf (s : Scheme) (coin account charge : UInt32) (index : AddressIndex) : List AddressIndex :=
  match s with
  | .bip32 => [⟨account, true⟩, ⟨charge, false⟩, index]
  | .bip44 => [⟨44, true⟩, ⟨coin, true⟩, ⟨account, true⟩, ⟨charge, false⟩, index]
  | .bip49 => [⟨49, true⟩, ⟨coin, true⟩, ⟨account, true⟩, ⟨charge, false⟩, index]
  | .bip54 => [⟨54, true⟩, ⟨coin, true⟩, ⟨account, true⟩, ⟨charge, false⟩, index]
  | .bip74 => [⟨74, true⟩, ⟨coin, true⟩, ⟨account, true⟩, ⟨charge, false⟩, index]
  | .bip84 => [⟨84, true⟩, ⟨coin, true⟩, ⟨account, true⟩, ⟨charge, false⟩, index]
  | .bip86 => [⟨86, true⟩, ⟨coin, true⟩, ⟨account, true⟩, ⟨charge, false⟩, index]
  | .slip10 => []
  | .cip11 => [⟨44, true⟩, ⟨118, true⟩, ⟨account, true⟩, ⟨charge, false⟩, index]
  | .cip1852 => [⟨1852, true⟩, ⟨1815, true⟩, ⟨account, true⟩, ⟨charge, false⟩, index]
  | .zip32 => [⟨32, true⟩, ⟨133, true⟩, ⟨account, true⟩, index]

section Build
variable (coin account charge : UInt32) (index : AddressIndex)

/-- The fields before the path is parsed again. -/
def filled (dt : DerivationType) : DerivationPath :=
  (⟨dt, coin, account, charge, index, dt != .root, []⟩ : DerivationPath).rebuildLevels

theorem filled_scheme {s : Scheme} (hs : s ≠ .slip10) :
    (filled coin account charge index s.type).type = s.type ∧
      (filled coin account charge index s.type).levels = levelsOf s coin account charge index ∧
      (filled coin account charge index s.type).str = renderPath (levelsOf s coin account charge index) := by
  have five : s ≠ .slip10 ∧ s ≠ .bip32 ∧ s ≠ .zip32 →
      s.type ≠ .slip10 ∧ s.type ≠ .bip32 ∧ s.type ≠ .zip32 := fun h =>
    ⟨fun e => h.1 (Scheme.type_injective e), fun e => h.2.1 (Scheme.type_injective e),
      fun e => h.2.2 (Scheme.type_injective e)⟩
  cases s with
  | slip10 => exact absurd rfl hs
  | bip32 => exact ⟨rfl, rfl, str_three (List.cons_ne_nil _ _) rfl⟩
  | zip32 => exact ⟨rfl, rfl, str_zip32 (List.cons_ne_nil _ _) rfl⟩
  | _ => exact ⟨rfl, rfl, str_five (List.cons_ne_nil _ _) (five (by decide)) rfl⟩

theorem construct_eq {dt : DerivationType} (hv : dt.isValid = true) (hs : dt ≠ .slip10) :
    DerivationPath.construct dt coin account charge index =
      Exception.ofParse ((filled coin account charge index dt).reparsed (filled coin account charge index dt).levels) := by
  unfold DerivationPath.construct
  rw [if_neg (by simp [hv]), if_neg hs]
  rfl

theorem ofParse_eq_ok {α : Type} {x : Except ParseError α} {a : α} : Exception.ofParse x = .ok a ↔ x = .ok a := by
  cases x <;> simp [Exception.ofParse]

theorem construct_scheme {s : Scheme} (hs : s ≠ .slip10) (d : DerivationPath) :
    DerivationPath.construct s.type coin account charge index = .ok d ↔
      s.Fits (levelsOf s coin account charge index) ∧ d = concrete s (levelsOf s coin account charge index) := by
  obtain ⟨type, levels, text⟩ := filled_scheme coin account charge index hs
  have notSlip : s.type ≠ .slip10 := fun h => hs (Scheme.type_injective h)
  rw [construct_eq _ _ _ _ s.type_valid notSlip, ofParse_eq_ok, reparsed_eq_ok, type, levels, text]
  constructor
  · rintro ⟨hp, hl⟩
    obtain ⟨fits, same⟩ := parse_fits hp
    rw [hl] at fits same
    exact ⟨fits, same⟩
  · rintro ⟨fits, rfl⟩
    exact ⟨parse_renderPath fits, concrete_levels _ _⟩

theorem construct_root (d : DerivationPath) :
    DerivationPath.construct .root coin account charge index = .ok d ↔ d = DerivationPath.fresh .root := by
  have empty : (filled coin account charge index .root).str = [] := rfl
  rw [construct_eq _ _ _ _ (by decide) (by decide), ofParse_eq_ok, reparsed_eq_ok, empty,
    show (filled coin account charge index .root).type = .root from rfl, parse_root]
  constructor
  · rintro ⟨⟨_, rfl⟩, _⟩
    rfl
  · rintro rfl
    exact ⟨⟨rfl, rfl⟩, rfl⟩

theorem construct_error {dt : DerivationType} (hv : dt.isValid = true) (hs : dt ≠ .slip10) {x : Exception}
    (h : DerivationPath.construct dt coin account charge index = .error x) :
    ∃ e, x = .parseError e ∧ e.code = .invalidDerivationPath := by
  have type : (filled coin account charge index dt).type = dt := by
    rcases valid_cases hv with rfl | ⟨s, rfl⟩
    · rfl
    · exact (filled_scheme coin account charge index fun h => hs (congrArg Scheme.type h)).1
  rw [construct_eq _ _ _ _ hv hs] at h
  cases hr : (filled coin account charge index dt).reparsed (filled coin account charge index dt).levels with
  | ok d =>
    rw [hr] at h
    cases h
  | error e =>
    rw [hr] at h
    obtain rfl := Except.error.inj h
    exact ⟨e, rfl, reparsed_error (type.symm ▸ hv) _ hr⟩

end Build

section Contract

def literalCoin (dt : DerivationType) : Option UInt32 :=
  if dt = .cip11 then some 118 else if dt = .cip1852 then some 1815 else if dt = .zip32 then some 133 else none

def HasCoin (dt : DerivationType) : Prop := dt ≠ .root ∧ dt ≠ .bip32

def HasCharge (dt : DerivationType) : Prop := dt ≠ .root ∧ dt ≠ .zip32

def BinaryCharge (dt : DerivationType) : Prop := HasCharge dt ∧ dt ≠ .cip11 ∧ dt ≠ .cip1852

structure Arguments where
  coin : UInt32
  account : UInt32
  charge : UInt32
  index : AddressIndex

/-- Every argument with a level is in range, apart from the literal coin. -/
structure InTemplate (dt : DerivationType) (a : Arguments) : Prop where
  coin : HasCoin dt → literalCoin dt = none → a.coin.toNat < 2 ^ 31
  account : dt ≠ .root → a.account.toNat < 2 ^ 31
  charge : HasCharge dt → a.charge.toNat < 2 ^ 31
  binary : BinaryCharge dt → a.charge ≤ 1
  index : dt ≠ .root → a.index.index.toNat < 2 ^ 31

/-- The arguments are in range and fit the template, a literal coin included. -/
def FitsTemplate (dt : DerivationType) (a : Arguments) : Prop :=
  InTemplate dt a ∧ ∀ c ∈ literalCoin dt, a.coin = c

/-- The path keeps every argument that has a level, and is the path of its own levels. -/
structure Names (dt : DerivationType) (a : Arguments) (d : DerivationPath) : Prop where
  coin : HasCoin dt → d.coin = a.coin
  account : dt ≠ .root → d.account = a.account
  charge : HasCharge dt → d.charge = a.charge
  index : dt ≠ .root → d.index = a.index
  levels : DerivationPath.fromLevels dt d.levels = .ok d

/-- The contract of the constructor: the key it was given, or the code of a path. -/
structure Contract (dt : DerivationType) (a : Arguments) : Prop where
  throws : ∀ x, DerivationPath.construct dt a.coin a.account a.charge a.index = .error x →
    ∃ e, x = .parseError e ∧ e.code = .invalidDerivationPath
  returns : ∀ d, DerivationPath.construct dt a.coin a.account a.charge a.index = .ok d → Names dt a d
  accepts : FitsTemplate dt a → ∃ d, DerivationPath.construct dt a.coin a.account a.charge a.index = .ok d

def Arguments.levels (a : Arguments) (s : Scheme) : List AddressIndex := levelsOf s a.coin a.account a.charge a.index

theorem inTemplate_iff (dt : DerivationType) (a : Arguments) :
    InTemplate dt a ↔ (HasCoin dt → literalCoin dt = none → a.coin.toNat < 2 ^ 31) ∧
      (dt ≠ .root → a.account.toNat < 2 ^ 31) ∧ (HasCharge dt → a.charge.toNat < 2 ^ 31) ∧
      (BinaryCharge dt → a.charge ≤ 1) ∧ (dt ≠ .root → a.index.index.toNat < 2 ^ 31) :=
  ⟨fun h => ⟨h.coin, h.account, h.charge, h.binary, h.index⟩, fun h => ⟨h.1, h.2.1, h.2.2.1, h.2.2.2.1, h.2.2.2.2⟩⟩

instance (dt : DerivationType) : Decidable (HasCoin dt) := inferInstanceAs (Decidable (_ ∧ _))
instance (dt : DerivationType) : Decidable (HasCharge dt) := inferInstanceAs (Decidable (_ ∧ _))
instance (dt : DerivationType) : Decidable (BinaryCharge dt) := inferInstanceAs (Decidable (_ ∧ _))

section Fits
variable (a : Arguments)

theorem fits_bip32 : Scheme.bip32.Fits (a.levels .bip32) ↔
    a.charge ≤ 1 ∧ a.account.toNat < 2 ^ 31 ∧ a.charge.toNat < 2 ^ 31 ∧ a.index.index.toNat < 2 ^ 31 := by
  simp [Arguments.levels, levelsOf, Scheme.Fits, Scheme.layouts, fills, Slot.admits, InRange]

theorem fits_family {s : Scheme} (h : purpose s ≠ none) : s.Fits (a.levels s) ↔
    a.charge ≤ 1 ∧ a.coin.toNat < 2 ^ 31 ∧ a.account.toNat < 2 ^ 31 ∧ a.charge.toNat < 2 ^ 31 ∧
      a.index.index.toNat < 2 ^ 31 := by
  cases s with
  | bip32 | slip10 | cip11 | cip1852 | zip32 => exact absurd rfl h
  | _ => simp [Arguments.levels, levelsOf, Scheme.Fits, Scheme.layouts, fills, Slot.admits, InRange]

theorem fits_literal {s : Scheme} (h : s = .cip11 ∨ s = .cip1852) : s.Fits (a.levels s) ↔
    a.account.toNat < 2 ^ 31 ∧ a.charge.toNat < 2 ^ 31 ∧ a.index.index.toNat < 2 ^ 31 := by
  rcases h with rfl | rfl <;>
    simp [Arguments.levels, levelsOf, Scheme.Fits, Scheme.layouts, fills, Slot.admits, InRange]

theorem fits_zip32 : Scheme.zip32.Fits (a.levels .zip32) ↔
    a.account.toNat < 2 ^ 31 ∧ a.index.index.toNat < 2 ^ 31 := by
  simp [Arguments.levels, levelsOf, Scheme.Fits, Scheme.layouts, fills, Slot.admits, InRange]

end Fits

theorem fits_iff {s : Scheme} (hs : s ≠ .slip10) (a : Arguments) : s.Fits (a.levels s) ↔ InTemplate s.type a := by
  have root := s.type_ne_root
  have family : purpose s ≠ none → HasCoin s.type ∧ literalCoin s.type = none ∧ HasCharge s.type ∧ BinaryCharge s.type := by
    cases s <;> decide
  have literal : s = .cip11 ∨ s = .cip1852 → literalCoin s.type ≠ none ∧ HasCharge s.type ∧ ¬ BinaryCharge s.type := by
    cases s <;> decide
  have three : s = .bip32 → ¬ HasCoin s.type ∧ HasCharge s.type ∧ BinaryCharge s.type := by
    cases s <;> decide
  have zip : s = .zip32 → literalCoin s.type ≠ none ∧ ¬ HasCharge s.type ∧ ¬ BinaryCharge s.type := by
    cases s <;> decide
  rw [inTemplate_iff]
  cases s with
  | slip10 => exact absurd rfl hs
  | bip32 =>
    simp only [fits_bip32, three rfl, root, ne_eq, not_false_eq_true, forall_const, false_implies, true_and]
    constructor
    · rintro ⟨bit, account, charge, index⟩
      exact ⟨account, charge, bit, index⟩
    · rintro ⟨account, charge, bit, index⟩
      exact ⟨bit, account, charge, index⟩
  | cip11 | cip1852 =>
    rw [fits_literal a (by decide)]
    simp [literal (by decide), root]
  | zip32 =>
    rw [fits_zip32]
    simp [zip rfl, root]
  | _ =>
    rw [fits_family a (by decide)]
    simp only [family (by decide), root, ne_eq, not_false_eq_true, forall_const]
    constructor
    · rintro ⟨bit, coin, account, charge, index⟩
      exact ⟨coin, account, charge, bit, index⟩
    · rintro ⟨coin, account, charge, bit, index⟩
      exact ⟨bit, coin, account, charge, index⟩

/-- The path keeps the arguments, except that a literal coin stands where it stands. -/
theorem concrete_keeps {s : Scheme} (hs : s ≠ .slip10) (a : Arguments) :
    (concrete s (a.levels s)).account = a.account ∧ (concrete s (a.levels s)).index = a.index ∧
      (HasCharge s.type → (concrete s (a.levels s)).charge = a.charge) ∧
      (HasCoin s.type → (concrete s (a.levels s)).coin = (literalCoin s.type).getD a.coin) := by
  cases s with
  | slip10 => exact absurd rfl hs
  | bip32 => exact ⟨rfl, rfl, fun _ => rfl, fun h => absurd h (by decide)⟩
  | zip32 => exact ⟨rfl, rfl, fun h => absurd h (by decide), fun _ => rfl⟩
  | _ => exact ⟨rfl, rfl, fun _ => rfl, fun _ => rfl⟩

theorem literalCoin_hasCoin {dt : DerivationType} {c : UInt32} (h : c ∈ literalCoin dt) : HasCoin dt := by
  unfold literalCoin at h
  split_ifs at h with h₁ h₂ h₃
  · exact h₁ ▸ (by decide)
  · exact h₂ ▸ (by decide)
  · exact h₃ ▸ (by decide)
  · cases h

theorem names_iff {s : Scheme} (hs : s ≠ .slip10) {a : Arguments} (fits : s.Fits (a.levels s)) :
    Names s.type a (concrete s (a.levels s)) ↔ ∀ c ∈ literalCoin s.type, a.coin = c := by
  obtain ⟨account, index, charge, coin⟩ := concrete_keeps hs a
  constructor
  · intro names c hc
    have kept := names.coin (literalCoin_hasCoin hc)
    rw [coin (literalCoin_hasCoin hc), show literalCoin s.type = some c from hc] at kept
    exact kept.symm
  · intro same
    refine ⟨?_, fun _ => account, charge, fun _ => index, ?_⟩
    · intro h
      rw [coin h]
      cases hc : literalCoin s.type with
      | none => rfl
      | some c => exact (same c hc).symm
    · rw [concrete_levels]
      exact (fromLevels_scheme _ _ _).mpr ⟨fits, rfl⟩

theorem root_contract (a : Arguments) : Contract .root a := by
  refine ⟨fun x h => construct_error _ _ _ _ (by decide) (by decide) h, ?_, ?_⟩
  · intro d h
    obtain rfl := (construct_root _ _ _ _ _).mp h
    refine ⟨fun h => absurd rfl h.1, fun h => absurd rfl h, fun h => absurd rfl h.1, fun h => absurd rfl h, ?_⟩
    exact (fromLevels_root _ _).mpr ⟨rfl, rfl⟩
  · intro _
    exact ⟨_, (construct_root _ _ _ _ _).mpr rfl⟩

/-- The contract holds exactly when no literal coin takes the place of another coin. -/
theorem contract_iff (dt : DerivationType) (hv : dt.isValid = true) (hs : dt ≠ .slip10) (a : Arguments) :
    Contract dt a ↔ (∀ c ∈ literalCoin dt, a.coin = c) ∨ ¬ InTemplate dt a := by
  rcases valid_cases hv with rfl | ⟨s, rfl⟩
  · refine iff_of_true (root_contract a) (.inl ?_)
    intro c hc
    cases hc
  · have notSlip : s ≠ .slip10 := fun h => hs (congrArg Scheme.type h)
    have made := construct_scheme a.coin a.account a.charge a.index notSlip
    constructor
    · intro contract
      by_cases inside : InTemplate s.type a
      · have fits := (fits_iff notSlip a).mpr inside
        exact .inl ((names_iff notSlip fits).mp (contract.returns _ ((made _).mpr ⟨fits, rfl⟩)))
      · exact .inr inside
    · intro h
      refine ⟨fun x hx => construct_error _ _ _ _ hv hs hx, ?_, ?_⟩
      · intro d hd
        obtain ⟨fits, rfl⟩ := (made d).mp hd
        exact (names_iff notSlip fits).mpr (h.resolve_right (not_not.mpr ((fits_iff notSlip a).mp fits)))
      · intro fit
        exact ⟨_, (made _).mpr ⟨(fits_iff notSlip a).mpr fit.1, rfl⟩⟩

theorem cip11_coin_vanishes : ¬ Contract .cip11 ⟨60, 0, 0, ⟨0, false⟩⟩ := by
  intro contract
  have made : DerivationPath.construct .cip11 60 0 0 ⟨0, false⟩ =
      .ok (concrete .cip11 (levelsOf .cip11 60 0 0 ⟨0, false⟩)) := by
    refine (construct_scheme 60 0 0 ⟨0, false⟩ (show Scheme.cip11 ≠ .slip10 by decide) _).mpr ⟨?_, rfl⟩
    decide +kernel
  have kept := (contract.returns _ made).coin (by decide)
  revert kept
  decide

theorem contract_iff_cip11 : Contract .cip11 ⟨118, 0, 7, ⟨5, true⟩⟩ ↔
    (∀ c ∈ literalCoin .cip11, (118 : UInt32) = c) ∨ ¬ InTemplate .cip11 ⟨118, 0, 7, ⟨5, true⟩⟩ :=
  contract_iff .cip11 (by decide) (by decide) ⟨118, 0, 7, ⟨5, true⟩⟩

end Contract

end Mhda.Constructor
