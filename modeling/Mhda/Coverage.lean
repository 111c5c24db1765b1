import Mhda.Classification

set_option autoImplicit false

/-!
# What strict validation leaves

The tables are checked one by one, so an entry may be allowed and still name no
address. The combinations that name one are those of the tables whose curve has
hardened levels where it needs them.
-/
namespace Mhda.Coverage
open Mhda.ByteString Mhda.DetailFacts Mhda.Catalogue Mhda.KeyValue Mhda.Path Mhda.Compatibility Mhda.Addresses
open Mhda.Parser Mhda.Template Mhda.PathParse Mhda.Setters Mhda.Validation Mhda.Descriptors Mhda.Decoding
open Mhda.Classification

/-- The schemes that have a path with hardened levels only. -/
def Hardenable (s : Scheme) : Prop := s = .slip10 ∨ s = .zip32

instance (s : Scheme) : Decidable (Hardenable s) := inferInstanceAs (Decidable (_ ∨ _))

/-- The resolved algorithm and format are in the tables of the network. -/
structure Listed (nt : NetworkType) (algo : Algorithm) (fmt : Format) : Prop where
  algorithm : networkAllowsAlgorithm nt algo = true
  format : if fmt.isEmpty = true then (defaultFormat nt).isEmpty = true else networkAllowsFormat nt fmt = true

/-- The tables have the type together with both, and ed25519 finds hardened levels under it. -/
structure Usable (nt : NetworkType) (algo : Algorithm) (fmt : Format) (s : Scheme) : Prop where
  derivation : networkAllowsDerivation nt s.type = true
  curve : (derivationAlgorithm nt s.type).isEmpty = true ∨ derivationAlgorithm nt s.type = algo
  purpose : fmt.isEmpty = true ∨ derivationAllowsFormat nt s.type fmt = true
  hardened : algo = .ed25519 → s = .cip1852 ∨ Hardenable s

instance (nt : NetworkType) (algo : Algorithm) (fmt : Format) : Decidable (Listed nt algo fmt) :=
  decidable_of_iff (_ ∧ _) ⟨fun h => ⟨h.1, h.2⟩, fun h => ⟨h.1, h.2⟩⟩

instance (nt : NetworkType) (algo : Algorithm) (fmt : Format) (s : Scheme) : Decidable (Usable nt algo fmt s) :=
  decidable_of_iff (_ ∧ _ ∧ _ ∧ _) ⟨fun h => ⟨h.1, h.2.1, h.2.2.1, h.2.2.2⟩, fun h => ⟨h.1, h.2, h.3, h.4⟩⟩

section Levels

/-- A path of each scheme, hardened wherever the scheme allows it. -/
def sample : Scheme → List AddressIndex
  | .bip32 => [⟨0, true⟩, ⟨0, false⟩, ⟨0, true⟩]
  | .bip44 => [⟨44, true⟩, ⟨0, true⟩, ⟨0, true⟩, ⟨0, false⟩, ⟨0, true⟩]
  | .bip49 => [⟨49, true⟩, ⟨0, true⟩, ⟨0, true⟩, ⟨0, false⟩, ⟨0, true⟩]
  | .bip54 => [⟨54, true⟩, ⟨0, true⟩, ⟨0, true⟩, ⟨0, false⟩, ⟨0, true⟩]
  | .bip74 => [⟨74, true⟩, ⟨0, true⟩, ⟨0, true⟩, ⟨0, false⟩, ⟨0, true⟩]
  | .bip84 => [⟨84, true⟩, ⟨0, true⟩, ⟨0, true⟩, ⟨0, false⟩, ⟨0, true⟩]
  | .bip86 => [⟨86, true⟩, ⟨0, true⟩, ⟨0, true⟩, ⟨0, false⟩, ⟨0, true⟩]
  | .slip10 => [⟨0, true⟩]
  | .cip11 => [⟨44, true⟩, ⟨118, true⟩, ⟨0, true⟩, ⟨0, false⟩, ⟨0, true⟩]
  | .cip1852 => [⟨1852, true⟩, ⟨1815, true⟩, ⟨0, true⟩, ⟨0, false⟩, ⟨0, true⟩]
  | .zip32 => [⟨32, true⟩, ⟨133, true⟩, ⟨0, true⟩]

theorem sample_fits (s : Scheme) : s.Fits (sample s) := by
  cases s <;> decide +kernel

theorem sample_hardened {s : Scheme} (h : Hardenable s) : ∀ l ∈ sample s, l.isHardened = true := by
  rcases h with rfl | rfl <;> decide

theorem sample_coin : (concrete .bip44 (sample .bip44)).coin ≠ coinsAtom := by
  decide

/-- Every other scheme has a level that is never hardened. -/
theorem hardenable_of_levels {s : Scheme} {levels : List AddressIndex} (fits : s.Fits levels)
    (hardened : ∀ l ∈ levels, l.isHardened = true) : Hardenable s := by
  have soft : ∀ i : UInt32, (⟨i, false⟩ : AddressIndex) ∉ levels := by
    intro i hi
    cases hardened _ hi
  cases Fits.shape fits with
  | bip32 account charge index => exact absurd (by simp) (soft charge)
  | family h coin account charge index => exact absurd (by simp) (soft charge)
  | slip10 h => exact .inl rfl
  | cip11 account charge index => exact absurd (by simp) (soft charge)
  | cip1852 account charge index => exact absurd (by simp) (soft charge)
  | zip32 account => exact .inr rfl
  | zip32Index account index => exact .inr rfl

end Levels

section Strict
variable (nt : NetworkType) (algo : Algorithm) (fmt : Format)

/-- Some URN of the network is accepted strictly with these resolved values and this type. -/
def Named (dt : DerivationType) : Prop :=
  ∃ u a, parseUrnStrict u = .ok a ∧ a.chain.network = nt ∧ a.resolvedAlgorithm = algo ∧ a.resolvedFormat = fmt ∧
    a.getDerivationType = dt

theorem parseUrnStrict_allowed (u : Bytes) (a : Address) :
    parseUrnStrict u = .ok a ↔ parseUrn u = .ok a ∧ Allowed a := by
  rw [parseUrnStrict_iff, validate_iff]

variable {nt algo fmt}

theorem listed_of_allowed {a : Address} (h : Allowed a) : Listed a.chain.network a.resolvedAlgorithm a.resolvedFormat := by
  refine ⟨h.algorithm, ?_⟩
  by_cases unset : a.resolvedFormat.isEmpty = true
  · have default : a.resolvedFormat = defaultFormat a.chain.network := by
      unfold Address.resolvedFormat at unset ⊢
      split at unset
      · rename_i set
        simp [unset] at set
      · rename_i set
        rw [if_neg set]
    rw [if_pos unset, ← default]
    exact unset
  · rw [if_neg unset]
    exact h.format.resolve_left unset

theorem usable_of_allowed {s : Scheme} {levels : List AddressIndex} (fits : s.Fits levels)
    (h : PathAllowed nt algo fmt (concrete s levels)) : Usable nt algo fmt s := by
  obtain ⟨derivation, curve, purpose, hardened, _⟩ := h
  rw [concrete_type] at derivation curve purpose hardened
  rw [concrete_levels] at hardened
  refine ⟨derivation, curve, purpose, fun ed => ?_⟩
  by_cases cip : s.type = .cip1852
  · exact .inl (Scheme.type_injective cip)
  · exact .inr (hardenable_of_levels fits (hardened ed cip))

theorem sample_allowed {s : Scheme} (h : Usable nt algo fmt s) : PathAllowed nt algo fmt (concrete s (sample s)) := by
  constructor <;> rw [concrete_type]
  · exact h.derivation
  · exact h.curve
  · exact h.purpose
  · rw [concrete_levels]
    intro ed other
    rcases h.hardened ed with rfl | hardenable
    · exact absurd rfl other
    · exact sample_hardened hardenable
  · rintro ⟨_, bip44, coin⟩
    obtain rfl : s = .bip44 := Scheme.type_injective bip44
    exact sample_coin coin

theorem one_token : Token (lit "1") := by decide +kernel

theorem empty_text : NssText [] := List.forall_mem_nil _

def explicit (valid : nt.isValid = true) (algorithm : AlgorithmOk algo) (format : FormatOk fmt) (p : Option HdPath) :
    Descriptor where
  network := nt
  chainId := lit "1"
  coin := none
  path := p
  algorithm := algo
  format := fmt
  addressPrefix := []
  addressSuffix := []
  walletType := []
  walletId := []
  network_registered := valid
  chainId_token := one_token
  algorithm_ok := algorithm
  format_ok := format
  addressPrefix_text := empty_text
  addressSuffix_text := empty_text
  walletType_text := empty_text
  walletId_text := empty_text

theorem explicit_resolved {valid : nt.isValid = true} {algorithm : AlgorithmOk algo} {format : FormatOk fmt}
    {p : Option HdPath} (named : algo.isEmpty = false) (listed : Listed nt algo fmt) :
    (explicit valid algorithm format p).toAddress.resolvedAlgorithm = algo ∧
      (explicit valid algorithm format p).toAddress.resolvedFormat = fmt := by
  refine ⟨if_pos (by simp [explicit, Descriptor.toAddress, named]), ?_⟩
  by_cases unset : fmt.isEmpty = true
  · have default := listed.format
    rw [if_pos unset] at default
    obtain ⟨value⟩ := fmt
    obtain rfl : value = [] := List.isEmpty_iff.mp unset
    refine (if_neg (by simp [explicit, Descriptor.toAddress, unset])).trans ?_
    exact congrArg Format.mk (List.isEmpty_iff.mp default)
  · exact if_pos (by simp [explicit, Descriptor.toAddress, unset])

theorem matrix_registered : ∀ p ∈ matrix, p.1.isValid = true ∧ (∀ x ∈ p.2.algorithms, x.isValid = true) ∧
    ∀ x ∈ p.2.formats, x.isValid = true := by
  decide +kernel

theorem valid_nonempty {x : Algorithm} (h : x.isValid = true) : x.isEmpty = false :=
  List.isEmpty_eq_false_iff.mpr (algorithm_name h).1.1

theorem listed_registered (h : Listed nt algo fmt) : nt.isValid = true ∧ algo.isValid = true ∧ FormatOk fmt := by
  obtain ⟨c, row⟩ : ∃ c, matrix.lookup nt = some c := by
    cases hr : matrix.lookup nt with
    | none =>
      have refused := h.algorithm
      simp [networkAllowsAlgorithm, hr] at refused
    | some c => exact ⟨c, rfl⟩
  obtain ⟨network, algorithms, formats⟩ := matrix_registered _ (row_mem row)
  refine ⟨network, algorithms _ ((allowsAlgorithm_iff row algo).mp h.algorithm), ?_⟩
  by_cases unset : fmt.isEmpty = true
  · exact .inl unset
  · have listed := h.format
    rw [if_neg unset] at listed
    exact .inr (formats _ ((allowsFormat_iff row fmt).mp listed))

theorem named_of_listed (h : Listed nt algo fmt) (p : Option HdPath)
    (allowed : ∀ q ∈ p, PathAllowed nt algo fmt q.toDerivationPath) :
    Named nt algo fmt (p.elim .root fun q => q.scheme.type) := by
  obtain ⟨network, algorithm, format⟩ := listed_registered h
  have named := valid_nonempty algorithm
  let d := explicit network (.inr algorithm) format p
  have read : d.toAddress.resolvedAlgorithm = algo ∧ d.toAddress.resolvedFormat = fmt := explicit_resolved named h
  obtain ⟨resolved, formatted⟩ := read
  have accepted : Allowed d.toAddress := by
    refine ⟨(network_name network).1.1, Marshalling.pathSet_of_describes (toAddress_describes d),
      (network_in_matrix network).1, ?_, ?_, ?_, ?_⟩
    · rw [resolved]
      exact named
    · rw [resolved]
      exact h.algorithm
    · rw [formatted]
      by_cases unset : fmt.isEmpty = true
      · exact .inl unset
      · have listed := h.format
        rw [if_neg unset] at listed
        exact .inr listed
    · rw [resolved, formatted]
      intro q hq
      obtain rfl := Option.some.inj hq
      cases p with
      | none => exact .inr (.inl rfl)
      | some q => exact .inr (.inr (allowed q rfl))
  refine ⟨d.render, d.toAddress, (parseUrnStrict_allowed _ _).mpr ⟨parseUrn_render d, accepted⟩, rfl, resolved, formatted, ?_⟩
  cases p with
  | none => rfl
  | some q =>
    change Address.getDerivationType d.toAddress = q.scheme.type
    simp [Address.getDerivationType, d, explicit, Descriptor.toAddress, pathOf, HdPath.toDerivationPath,
      q.scheme.type_ne_empty]

theorem listed_of_named {dt : DerivationType} (h : Named nt algo fmt dt) : Listed nt algo fmt := by
  obtain ⟨u, a, accepted, rfl, rfl, rfl, _⟩ := h
  exact listed_of_allowed ((parseUrnStrict_allowed u a).mp accepted).2

theorem usable_of_named {s : Scheme} (h : Named nt algo fmt s.type) : Usable nt algo fmt s := by
  obtain ⟨u, a, accepted, rfl, rfl, rfl, type⟩ := h
  obtain ⟨parsed, allowed⟩ := (parseUrnStrict_allowed u a).mp accepted
  obtain ⟨d, rfl⟩ := parseUrn_descriptor parsed
  have asked := allowed.derivation (pathOf d.path) rfl
  cases path : d.path with
  | none =>
    have root : d.toAddress.getDerivationType = .root := by
      simp [Address.getDerivationType, Descriptor.toAddress, path, pathOf, DerivationPath.fresh]
    exact absurd (type.symm.trans root) s.type_ne_root
  | some p =>
    have own : d.toAddress.getDerivationType = p.scheme.type := by
      simp [Address.getDerivationType, Descriptor.toAddress, path, pathOf, HdPath.toDerivationPath,
        p.scheme.type_ne_empty]
    obtain rfl : s = p.scheme := Scheme.type_injective (type.symm.trans own)
    rw [path, pathOf, HdPath.toDerivationPath, concrete_type] at asked
    rcases asked with empty | root | pathAllowed
    · rw [p.scheme.type_ne_empty] at empty
      cases empty
    · exact absurd root p.scheme.type_ne_root
    · exact usable_of_allowed p.fits pathAllowed

theorem named_scheme (s : Scheme) : Named nt algo fmt s.type ↔ Listed nt algo fmt ∧ Usable nt algo fmt s := by
  constructor
  · exact fun h => ⟨listed_of_named h, usable_of_named h⟩
  · rintro ⟨listed, usable⟩
    refine named_of_listed listed (some ⟨s, sample s, sample_fits s⟩) ?_
    intro q hq
    obtain rfl := Option.some.inj hq
    exact sample_allowed usable

theorem named_root : Named nt algo fmt .root ↔ Listed nt algo fmt :=
  ⟨listed_of_named, fun listed => named_of_listed listed none (by simp)⟩

end Strict

section Entries

def Entry (nt : NetworkType) (algo : Algorithm) (fmt : Format) (dt : DerivationType) : Prop :=
  Listed nt algo fmt ∧ ∃ s ∈ schemes, s.type = dt ∧ Usable nt algo fmt s

instance (nt : NetworkType) (algo : Algorithm) (fmt : Format) (dt : DerivationType) : Decidable (Entry nt algo fmt dt) :=
  inferInstanceAs (Decidable (_ ∧ _))

theorem named_of_entry {nt : NetworkType} {algo : Algorithm} {fmt : Format} {dt : DerivationType}
    (h : Entry nt algo fmt dt) : Named nt algo fmt dt := by
  obtain ⟨listed, s, _, rfl, usable⟩ := h
  exact (named_scheme s).mpr ⟨listed, usable⟩

theorem derivation_entries : ∀ p ∈ matrix, ∀ dt ∈ p.2.derivations,
    ∃ algo ∈ p.2.algorithms, ∃ fmt ∈ p.2.formats, Entry p.1 algo fmt dt := by
  decide +kernel

theorem format_entries : ∀ p ∈ matrix, ∀ fmt ∈ p.2.formats,
    ∃ algo ∈ p.2.algorithms, ∃ dt ∈ p.2.derivations, Entry p.1 algo fmt dt := by
  decide +kernel

/-- The networks whose ed25519 names the root key only. -/
def RootOnly (nt : NetworkType) (algo : Algorithm) : Prop :=
  algo = .ed25519 ∧ (nt = .cosmos ∨ nt = .xrpLedger)

instance (nt : NetworkType) (algo : Algorithm) : Decidable (RootOnly nt algo) := inferInstanceAs (Decidable (_ ∧ _))

theorem algorithm_entries : ∀ p ∈ matrix, ∀ algo ∈ p.2.algorithms,
    RootOnly p.1 algo ∨ ∃ fmt ∈ p.2.formats, ∃ dt ∈ p.2.derivations, Entry p.1 algo fmt dt := by
  decide +kernel

theorem rootOnly_entries : ∀ p ∈ matrix, ∀ algo, RootOnly p.1 algo → ∀ s ∈ schemes, s.type ∈ p.2.derivations →
    s ≠ .cip1852 ∧ ¬ Hardenable s := by
  have rows : ∀ p ∈ matrix, p.1 = .cosmos ∨ p.1 = .xrpLedger → ∀ s ∈ schemes, s.type ∈ p.2.derivations →
      s ≠ .cip1852 ∧ ¬ Hardenable s := by decide +kernel
  exact fun p hp algo rootOnly => rows p hp rootOnly.2

theorem rootOnly_named {p : NetworkType × NetworkCompat} (hp : p ∈ matrix) {algo : Algorithm} (h : RootOnly p.1 algo)
    (fmt : Format) (s : Scheme) : ¬ Named p.1 algo fmt s.type := by
  intro named
  obtain ⟨_, usable⟩ := (named_scheme s).mp named
  have distinct : (matrix.map Prod.fst).Nodup := by decide +kernel
  have row : matrix.lookup p.1 = some p.2 := (lookup_eq_some_iff_mem distinct).mpr hp
  have listed := (allowsDerivation_iff row s.type_ne_root).mp usable.derivation
  obtain ⟨notCip, soft⟩ := rootOnly_entries p hp algo h s (mem_schemes s) listed
  exact (usable.hardened h.1).elim notCip soft

end Entries

/-- Which combinations of network, resolved algorithm, resolved format and type some strictly
    accepted URN has; every derivation and every format of the matrix is among them, and every
    algorithm except ed25519 on the two networks that have no path for it. -/
theorem strict_coverage :
    (∀ nt algo fmt (s : Scheme), Named nt algo fmt s.type ↔ Listed nt algo fmt ∧ Usable nt algo fmt s) ∧
    (∀ nt algo fmt, Named nt algo fmt .root ↔ Listed nt algo fmt) ∧
    (∀ p ∈ matrix,
      (∀ dt ∈ p.2.derivations, ∃ algo fmt, Named p.1 algo fmt dt) ∧
      (∀ fmt ∈ p.2.formats, ∃ algo, ∃ dt ∈ p.2.derivations, Named p.1 algo fmt dt) ∧
      ∀ algo ∈ p.2.algorithms, (∃ fmt, ∃ s : Scheme, Named p.1 algo fmt s.type) ↔ ¬ RootOnly p.1 algo) := by
  refine ⟨fun _ _ _ s => named_scheme s, fun _ _ _ => named_root, fun p hp => ⟨?_, ?_, ?_⟩⟩
  · intro dt hdt
    obtain ⟨algo, _, fmt, _, entry⟩ := derivation_entries p hp dt hdt
    exact ⟨algo, fmt, named_of_entry entry⟩
  · intro fmt hf
    obtain ⟨algo, _, dt, hdt, entry⟩ := format_entries p hp fmt hf
    exact ⟨algo, dt, hdt, named_of_entry entry⟩
  · intro algo ha
    constructor
    · rintro ⟨fmt, s, named⟩ rootOnly
      exact rootOnly_named hp rootOnly fmt s named
    · intro other
      obtain ⟨fmt, _, dt, _, entry⟩ := (algorithm_entries p hp algo ha).resolve_left other
      have named := named_of_entry entry
      obtain ⟨_, s, _, rfl, _⟩ := entry
      exact ⟨fmt, s, named⟩

end Mhda.Coverage
