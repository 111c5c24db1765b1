import Mhda.KeyValue
import Mhda.Setters

set_option autoImplicit false

namespace Mhda.Validation
open Mhda.Errors Mhda.Catalogue Mhda.KeyValue Mhda.Transition Mhda.Chains Mhda.Path Mhda.Compatibility Mhda.Addresses
open Mhda.Setters

theorem row_mem {nt : NetworkType} {c : NetworkCompat} (h : matrix.lookup nt = some c) : (nt, c) ∈ matrix := by
  have distinct : (matrix.map Prod.fst).Nodup := by decide +kernel
  exact (lookup_eq_some_iff_mem distinct).mp h

section Entry
variable {nt : NetworkType} {c : NetworkCompat} (row : matrix.lookup nt = some c)
include row

theorem allowsAlgorithm_iff (algo : Algorithm) : networkAllowsAlgorithm nt algo = true ↔ algo ∈ c.algorithms := by
  unfold networkAllowsAlgorithm
  rw [row]
  exact List.contains_iff_mem

theorem allowsFormat_iff (fmt : Format) : networkAllowsFormat nt fmt = true ↔ fmt ∈ c.formats := by
  unfold networkAllowsFormat
  rw [row]
  exact List.contains_iff_mem

theorem allowsDerivation_iff {dt : DerivationType} (notRoot : dt ≠ .root) :
    networkAllowsDerivation nt dt = true ↔ dt ∈ c.derivations := by
  have other : (dt == .root) = false := beq_eq_false_iff_ne.mpr notRoot
  unfold networkAllowsDerivation
  rw [row]
  simp [other]

theorem derivationAlgorithm_eq (dt : DerivationType) :
    derivationAlgorithm nt dt = (c.derivationAlgorithm.lookup dt).getD .unset := by
  unfold derivationAlgorithm
  rw [row]

end Entry

theorem defaults_ok (nt : NetworkType) : AlgorithmOk (defaultAlgorithm nt) ∧ FormatOk (defaultFormat nt) := by
  have rows : ∀ p ∈ matrix, AlgorithmOk p.2.defaultAlgorithm ∧ FormatOk p.2.defaultFormat := by decide +kernel
  unfold defaultAlgorithm defaultFormat
  cases row : matrix.lookup nt with
  | none => exact ⟨.inl rfl, .inl rfl⟩
  | some c => exact rows _ (row_mem row)

/-- The setters take what an address resolves to. -/
theorem resolved_ok {a : Address} (algorithm : AlgorithmOk a.algorithm) (format : FormatOk a.format) :
    AlgorithmOk a.resolvedAlgorithm ∧ FormatOk a.resolvedFormat := by
  unfold Address.resolvedAlgorithm Address.resolvedFormat
  constructor
  · split
    · exact algorithm
    · exact (defaults_ok _).1
  · split
    · exact format
    · exact (defaults_ok _).2

/-- No derivation type is set without a path. -/
def PathSet (a : Address) : Prop :=
  ∀ p ∈ a.path, p.type.isEmpty = true ∨ p.type = .root ∨ p.levels ≠ []

instance (a : Address) : Decidable (PathSet a) :=
  inferInstanceAs (Decidable (∀ p ∈ a.path, p.type.isEmpty = true ∨ p.type = .root ∨ p.levels ≠ []))

theorem checkPathSet_iff (a : Address) : a.checkPathSet = .ok () ↔ PathSet a := by
  unfold Address.checkPathSet PathSet
  cases a.path with
  | none => simp
  | some q =>
    simp only [Option.mem_def, Option.some.injEq, forall_eq']
    by_cases he : q.type.isEmpty = true
    · simp [he]
    · by_cases hr : q.type = .root
      · simp [hr]
      · by_cases hl : q.levels = []
        · simp [he, hr, hl]
        · simp [he, hr, hl]

/-- What is asked of a path whose type is set and is not root. -/
structure PathAllowed (nt : NetworkType) (algo : Algorithm) (fmt : Format) (path : DerivationPath) : Prop where
  derivation : networkAllowsDerivation nt path.type = true
  curve : (derivationAlgorithm nt path.type).isEmpty = true ∨ derivationAlgorithm nt path.type = algo
  purpose : fmt.isEmpty = true ∨ derivationAllowsFormat nt path.type fmt = true
  hardened : algo = .ed25519 → path.type ≠ .cip1852 → ∀ l ∈ path.levels, l.isHardened = true
  cosmosHub : ¬(nt = .cosmos ∧ path.type = .bip44 ∧ path.coin = coinsAtom)

theorem unset_or_holds {unset cond : Bool} : (!unset && !cond) = false ↔ unset = true ∨ cond = true := by
  cases unset <;> cases cond <;> decide

theorem validatePath_iff (nt : NetworkType) (algo : Algorithm) (fmt : Format) (path : DerivationPath) :
    Address.validatePath nt algo fmt path = .ok () ↔ PathAllowed nt algo fmt path := by
  have softLevel : (if algo = .ed25519 ∧ path.type ≠ .cip1852 then
      path.levels.findIdx? (!·.isHardened) else none) = none ↔
        (algo = .ed25519 → path.type ≠ .cip1852 → ∀ l ∈ path.levels, l.isHardened = true) := by
    split
    · rename_i ed
      simp [ed]
    · rename_i other
      rw [not_and] at other
      exact ⟨fun _ he hc => absurd hc (other he), fun _ => rfl⟩
  have curve : (!(derivationAlgorithm nt path.type).isEmpty && derivationAlgorithm nt path.type != algo) = false ↔
      (derivationAlgorithm nt path.type).isEmpty = true ∨ derivationAlgorithm nt path.type = algo :=
    unset_or_holds.trans (or_congr_right beq_iff_eq)
  unfold Address.validatePath
  simp only [guard_eq_ok, Bool.not_eq_true', Bool.not_eq_false, Bool.not_eq_true, curve, unset_or_holds]
  constructor
  · rintro ⟨derivation, hcurve, hpurpose, rest⟩
    split at rest
    · cases rest
    · rename_i hardened
      exact ⟨derivation, hcurve, hpurpose, softLevel.mp hardened, (guard_eq_ok.mp rest).1⟩
  · intro h
    refine ⟨h.derivation, h.curve, h.purpose, ?_⟩
    rw [softLevel.mpr h.hardened]
    exact if_neg h.cosmosHub

structure Allowed (a : Address) : Prop where
  network : a.chain.network.value ≠ []
  path : PathSet a
  registered : networkIsRegistered a.chain.network = true
  resolved : a.resolvedAlgorithm.isEmpty = false
  algorithm : networkAllowsAlgorithm a.chain.network a.resolvedAlgorithm = true
  format : a.resolvedFormat.isEmpty = true ∨ networkAllowsFormat a.chain.network a.resolvedFormat = true
  derivation : ∀ p ∈ a.path, p.type.isEmpty = true ∨ p.type = .root ∨
    PathAllowed a.chain.network a.resolvedAlgorithm a.resolvedFormat p

theorem validate_iff (a : Address) : a.validate = .ok () ↔ Allowed a := by
  have network : ¬ a.chain.network.isEmpty = true ↔ a.chain.network.value ≠ [] := by
    simp [NetworkType.isEmpty]
  unfold Address.validate
  simp only [guard_eq_ok, bind_eq_ok, network, unset_or_holds, Bool.not_eq_true', Bool.not_eq_false, Bool.not_eq_true]
  constructor
  · rintro ⟨hn, _, set, registered, resolved, algorithm, hf, rest⟩
    refine ⟨hn, (checkPathSet_iff a).mp set, registered, resolved, algorithm, hf, ?_⟩
    intro p hmem
    rw [show a.path = some p from hmem] at rest
    simp only at rest
    split at rest
    · rename_i blank
      rcases blank with he | hr
      · exact .inl he
      · exact .inr (.inl hr)
    · exact .inr (.inr ((validatePath_iff _ _ _ _).mp rest))
  · intro h
    refine ⟨h.network, (), (checkPathSet_iff a).mpr h.path, h.registered, h.resolved, h.algorithm, h.format, ?_⟩
    cases hp : a.path with
    | none => rfl
    | some p =>
      simp only
      split
      · rfl
      · rename_i shown
        rcases h.derivation p hp with he | hr | allowed
        · exact absurd (.inl he) shown
        · exact absurd (.inr hr) shown
        · exact (validatePath_iff _ _ _ _).mpr allowed

end Mhda.Validation
