import Mhda.DerivationPath
import Mhda.DetailFacts

set_option autoImplicit false

namespace Mhda.Template
open Mhda.ByteString Mhda.Catalogue Mhda.Path Mhda.Numeral

inductive Scheme where
  | bip32 | bip44 | bip49 | bip54 | bip74 | bip84 | bip86 | slip10 | cip11 | cip1852 | zip32
  deriving DecidableEq

def Scheme.type : Scheme → DerivationType
  | .bip32 => .bip32
  | .bip44 => .bip44
  | .bip49 => .bip49
  | .bip54 => .bip54
  | .bip74 => .bip74
  | .bip84 => .bip84
  | .bip86 => .bip86
  | .slip10 => .slip10
  | .cip11 => .cip11
  | .cip1852 => .cip1852
  | .zip32 => .zip32

def schemes : List Scheme :=
  [.bip32, .bip44, .bip49, .bip54, .bip74, .bip84, .bip86, .slip10, .cip11, .cip1852, .zip32]

theorem mem_schemes (s : Scheme) : s ∈ schemes := by
  cases s <;> decide

/-- What may stand at one level: a literal `n'`, any hardened index, a soft 0
    or 1, any soft index, or any index with the hardening left open. -/
inductive Slot where
  | fixed (n : UInt32)
  | hardened
  | binary
  | soft
  | any
  deriving DecidableEq

def Slot.admits : Slot → AddressIndex → Bool
  | .fixed n, l => l.index == n && l.isHardened
  | .hardened, l => l.isHardened
  | .binary, l => !l.isHardened && decide (l.index ≤ 1)
  | .soft, l => !l.isHardened
  | .any, _ => true

/-- The slots whose digits are literals and must be spelled as in the template. -/
def Slot.literal : Slot → Bool
  | .fixed _ | .binary => true
  | _ => false

def Slot.admitsRaw (slot : Slot) (l : RawLevel) : Bool := slot.admits l.level && (!slot.literal || l.exact)

def fills {α : Type} (allow : Slot → α → Bool) : List Slot → List α → Bool
  | [], [] => true
  | slot :: slots, l :: ls => allow slot l && fills allow slots ls
  | _, _ => false

def Scheme.layouts : Scheme → List (List Slot)
  | .bip32 => [[.hardened, .binary, .any]]
  | .bip44 => [[.fixed 44, .hardened, .hardened, .binary, .any]]
  | .bip49 => [[.fixed 49, .hardened, .hardened, .binary, .any]]
  | .bip54 => [[.fixed 54, .hardened, .hardened, .binary, .any]]
  | .bip74 => [[.fixed 74, .hardened, .hardened, .binary, .any]]
  | .bip84 => [[.fixed 84, .hardened, .hardened, .binary, .any]]
  | .bip86 => [[.fixed 86, .hardened, .hardened, .binary, .any]]
  | .slip10 => (List.range 255).map fun n => List.replicate (n + 1) .any
  | .cip11 => [[.fixed 44, .fixed 118, .hardened, .soft, .any]]
  | .cip1852 => [[.fixed 1852, .fixed 1815, .hardened, .soft, .any]]
  | .zip32 => [[.fixed 32, .fixed 133, .hardened], [.fixed 32, .fixed 133, .hardened, .any]]

def InRange (l : AddressIndex) : Prop := l.index.toNat < 2 ^ 31

def Scheme.Fits (s : Scheme) (levels : List AddressIndex) : Prop :=
  (∃ layout ∈ s.layouts, fills Slot.admits layout levels = true) ∧ ∀ l ∈ levels, InRange l

instance (l : AddressIndex) : Decidable (InRange l) :=
  inferInstanceAs (Decidable (l.index.toNat < 2 ^ 31))

instance (s : Scheme) (levels : List AddressIndex) : Decidable (s.Fits levels) :=
  inferInstanceAs (Decidable (_ ∧ _))

/-- A path of a scheme; it cannot be built from levels that do not fit. -/
structure HdPath where
  scheme : Scheme
  levels : List AddressIndex
  fits : scheme.Fits levels

def renderLevel (l : AddressIndex) : Bytes :=
  decimal l.index.toNat ++ if l.isHardened then [apostrophe] else []

/-- The generic rendering: `m`, then `/index` and an apostrophe for each hardened level. -/
def renderPath (levels : List AddressIndex) : Bytes :=
  ch 'm' :: levels.flatMap fun l => ch '/' :: renderLevel l

def HdPath.text (p : HdPath) : Bytes := renderPath p.levels

/-- The fields the class derives from the levels of a path of the scheme. -/
def concrete (s : Scheme) (levels : List AddressIndex) : DerivationPath :=
  let l := fun i => levels.getD i ⟨0, false⟩
  match s with
  | .bip32 => ⟨s.type, 0, (l 0).index, (l 1).index, l 2, true, levels⟩
  | .slip10 => ⟨s.type, 0, 0, 0, ⟨0, false⟩, true, levels⟩
  | .zip32 => ⟨s.type, (l 1).index, (l 2).index, 0, l 3, levels.length == 4, levels⟩
  | _ => ⟨s.type, (l 1).index, (l 2).index, (l 3).index, l 4, true, levels⟩

def HdPath.toDerivationPath (p : HdPath) : DerivationPath := concrete p.scheme p.levels

@[simp] theorem concrete_type (s : Scheme) (levels : List AddressIndex) :
    (concrete s levels).type = s.type := by
  cases s <;> rfl

@[simp] theorem concrete_levels (s : Scheme) (levels : List AddressIndex) :
    (concrete s levels).levels = levels := by
  cases s <;> rfl

theorem Scheme.type_valid (s : Scheme) : s.type.isValid = true := by
  cases s <;> decide

theorem Scheme.type_ne_root (s : Scheme) : s.type ≠ .root := by
  cases s <;> decide

theorem Scheme.type_ne_empty (s : Scheme) : s.type.isEmpty = false := by
  cases s <;> decide

theorem Scheme.type_injective : Function.Injective Scheme.type := by
  intro s t h
  cases s <;> cases t <;> first | rfl | exact absurd h (by decide)

theorem valid_cases {dt : DerivationType} (h : dt.isValid = true) :
    dt = .root ∨ ∃ s : Scheme, dt = s.type := by
  obtain ⟨value⟩ := dt
  have hm : value ∈ DerivationType.dtIndex := by
    simpa [DerivationType.isValid] using h
  simp only [DerivationType.dtIndex, List.mem_cons, List.not_mem_nil, or_false] at hm
  rcases hm with rfl | rfl | rfl | rfl | rfl | rfl | rfl | rfl | rfl | rfl | rfl | rfl
  · exact .inl rfl
  · exact .inr ⟨.bip32, rfl⟩
  · exact .inr ⟨.bip44, rfl⟩
  · exact .inr ⟨.bip49, rfl⟩
  · exact .inr ⟨.bip54, rfl⟩
  · exact .inr ⟨.bip74, rfl⟩
  · exact .inr ⟨.bip84, rfl⟩
  · exact .inr ⟨.bip86, rfl⟩
  · exact .inr ⟨.slip10, rfl⟩
  · exact .inr ⟨.cip1852, rfl⟩
  · exact .inr ⟨.cip11, rfl⟩
  · exact .inr ⟨.zip32, rfl⟩

theorem fills_length {α : Type} {allow : Slot → α → Bool} {slots : List Slot} {ls : List α}
    (h : fills allow slots ls = true) : ls.length = slots.length := by
  induction slots generalizing ls with
  | nil =>
    cases ls with
    | nil => rfl
    | cons l ls => simp [fills] at h
  | cons slot slots ih =>
    cases ls with
    | nil => simp [fills] at h
    | cons l ls =>
      simp only [fills, Bool.and_eq_true] at h
      simp [ih h.2]

theorem fills_any {α : Type} {allow : Slot → α → Bool} (ha : ∀ l, allow .any l = true)
    (n : ℕ) (ls : List α) : fills allow (List.replicate n .any) ls = true ↔ ls.length = n := by
  induction n generalizing ls with
  | zero => cases ls <;> simp [fills]
  | succ n ih => cases ls <;> simp [fills, List.replicate_succ, ha, ih]

theorem Scheme.Fits.ne_nil {s : Scheme} {levels : List AddressIndex} (h : s.Fits levels) : levels ≠ [] := by
  obtain ⟨⟨layout, hl, hf⟩, _⟩ := h
  rintro rfl
  have len := fills_length hf
  have none_empty : ([] : List Slot) ∉ s.layouts := by
    cases s <;> simp [Scheme.layouts]
  rw [List.length_nil] at len
  exact none_empty (List.eq_nil_of_length_eq_zero len.symm ▸ hl)

theorem length_four {α : Type} {ls : List α} (h : ls.length = 4) : ∃ a b c d, ls = [a, b, c, d] := by
  match ls, h with
  | [a, b, c, d], _ => exact ⟨a, b, c, d, rfl⟩

theorem length_five {α : Type} {ls : List α} (h : ls.length = 5) : ∃ a b c d e, ls = [a, b, c, d, e] := by
  match ls, h with
  | [a, b, c, d, e], _ => exact ⟨a, b, c, d, e, rfl⟩

end Mhda.Template
