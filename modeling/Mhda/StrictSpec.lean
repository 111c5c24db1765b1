import Mhda.Classification

set_option autoImplicit false

namespace Mhda.StrictSpec
open Mhda.ByteString Mhda.Errors Mhda.Catalogue Mhda.Nss Mhda.KeyValue Mhda.Transition Mhda.Path
open Mhda.Compatibility Mhda.Addresses Mhda.Parser Mhda.Template Mhda.Setters Mhda.Validation
open Mhda.Descriptors Mhda.Decoding Mhda.Classification

section Tables

/-- A row of the network catalogue, without the informative coin column. -/
structure Row where
  network : Bytes
  algorithms : List Bytes
  formats : List Bytes
  derivations : List Bytes
  defaultAlgorithm : Bytes
  defaultFormat : Option Bytes
  deriving DecidableEq

def catalogue : List Row :=
  [⟨lit "bitcoin", [lit "secp256k1"],
      [lit "p2pkh", lit "p2sh", lit "p2wpkh", lit "p2wsh", lit "p2tr", lit "bech32", lit "bech32m"],
      [lit "bip32", lit "bip44", lit "bip49", lit "bip84", lit "bip86"], lit "secp256k1", none⟩,
    ⟨lit "evm", [lit "secp256k1"], [lit "hex"], [lit "bip32", lit "bip44"], lit "secp256k1", some (lit "hex")⟩,
    ⟨lit "avalanche", [lit "secp256k1"], [lit "hex", lit "bech32"], [lit "bip44"], lit "secp256k1", none⟩,
    ⟨lit "tron", [lit "secp256k1"], [lit "base58"], [lit "bip44"], lit "secp256k1", some (lit "base58")⟩,
    ⟨lit "cosmos", [lit "secp256k1", lit "ed25519"], [lit "bech32"], [lit "bip44", lit "cip11"],
      lit "secp256k1", some (lit "bech32")⟩,
    ⟨lit "solana", [lit "ed25519"], [lit "base58"], [lit "slip10"], lit "ed25519", some (lit "base58")⟩,
    ⟨lit "xrpl", [lit "secp256k1", lit "ed25519"], [lit "base58"], [lit "bip44"], lit "secp256k1",
      some (lit "base58")⟩,
    ⟨lit "stellar", [lit "ed25519"], [lit "strkey"], [lit "slip10"], lit "ed25519", some (lit "strkey")⟩,
    ⟨lit "near", [lit "ed25519", lit "secp256k1"], [lit "hex"], [lit "slip10", lit "bip44"], lit "ed25519",
      some (lit "hex")⟩,
    ⟨lit "aptos", [lit "ed25519", lit "secp256k1"], [lit "hex"], [lit "slip10", lit "bip44"], lit "ed25519",
      some (lit "hex")⟩,
    ⟨lit "sui", [lit "ed25519", lit "secp256k1", lit "secp256r1"], [lit "hex"],
      [lit "slip10", lit "bip54", lit "bip74"], lit "ed25519", some (lit "hex")⟩,
    ⟨lit "cardano", [lit "ed25519"], [lit "bech32", lit "base58"], [lit "cip1852"], lit "ed25519",
      some (lit "bech32")⟩,
    ⟨lit "algorand", [lit "ed25519"], [lit "base32"], [lit "slip10"], lit "ed25519", some (lit "base32")⟩,
    ⟨lit "ton", [lit "ed25519"], [lit "base64url", lit "hex"], [lit "slip10"], lit "ed25519",
      some (lit "base64url")⟩]

def rowOf (nt : Bytes) : Option Row := catalogue.find? fun row => row.network == nt

/-- The networks that hold each derivation type to its curve. -/
def BindsCurves (nt : Bytes) : Prop := nt = lit "sui" ∨ nt = lit "aptos" ∨ nt = lit "near"

instance (nt : Bytes) : Decidable (BindsCurves nt) := inferInstanceAs (Decidable (_ ∨ _))

def curves (nt : Bytes) : List (Bytes × Bytes) :=
  if nt = lit "sui" then
    [(lit "slip10", lit "ed25519"), (lit "bip54", lit "secp256k1"), (lit "bip74", lit "secp256r1")]
  else [(lit "slip10", lit "ed25519"), (lit "bip44", lit "secp256k1")]

def scripts : List (Bytes × List Bytes) :=
  [(lit "bip44", [lit "p2pkh"]), (lit "bip49", [lit "p2sh"]), (lit "bip84", [lit "p2wpkh", lit "bech32"]),
    (lit "bip86", [lit "p2tr", lit "bech32m"])]

end Tables

section Predicate
variable (row : Row)

def algorithmOf (a : Address) : Bytes :=
  if a.algorithm.value = [] then row.defaultAlgorithm else a.algorithm.value

def formatOf (a : Address) : Option Bytes :=
  if a.format.value = [] then row.defaultFormat else some a.format.value

def coinLevel (p : DerivationPath) : Option UInt32 := p.levels[1]?.map AddressIndex.index

structure PathConforms (algo : Bytes) (fmt : Option Bytes) (p : DerivationPath) : Prop where
  derivation : p.type.value ∈ row.derivations
  curve : BindsCurves row.network → (curves row.network).lookup p.type.value = some algo
  purpose : row.network = lit "bitcoin" → ∀ allowed ∈ scripts.lookup p.type.value, ∀ f ∈ fmt, f ∈ allowed
  hardened : algo = lit "ed25519" → p.type.value ≠ lit "cip1852" → ∀ l ∈ p.levels, l.isHardened = true
  cosmosHub : ¬(row.network = lit "cosmos" ∧ p.type.value = lit "bip44" ∧ coinLevel p = some 118)

structure RowConforms (a : Address) : Prop where
  algorithm : algorithmOf row a ∈ row.algorithms
  format : ∀ f ∈ formatOf row a, f ∈ row.formats
  path : a.getDerivationType = .root ∨ ∃ p ∈ a.path, PathConforms row (algorithmOf row a) (formatOf row a) p

/-- The address conforms to the row of its network. -/
def Conforms (a : Address) : Prop := ∃ row ∈ rowOf a.chain.network.value, RowConforms row a

end Predicate

section Agreement

def rowFor (nt : NetworkType) (c : NetworkCompat) : Row where
  network := nt.value
  algorithms := c.algorithms.map Algorithm.value
  formats := c.formats.map Format.value
  derivations := c.derivations.map DerivationType.value
  defaultAlgorithm := c.defaultAlgorithm.value
  defaultFormat := optText c.defaultFormat.value

theorem matrix_rows : ∀ p ∈ matrix, rowOf p.1.value = some (rowFor p.1 p.2) := by
  decide +kernel

theorem matrix_curves : ∀ p ∈ matrix, ∀ dt ∈ p.2.derivations,
    if BindsCurves p.1.value then
      (derivationAlgorithm p.1 dt).isEmpty = false ∧
        (curves p.1.value).lookup dt.value = some (derivationAlgorithm p.1 dt).value
    else (derivationAlgorithm p.1 dt).isEmpty = true := by
  decide +kernel

theorem matrix_scripts : ∀ p ∈ matrix, ∀ dt ∈ p.2.derivations,
    (p.2.derivationFormats.lookup dt).map (List.map Format.value) =
      if p.1.value = lit "bitcoin" then scripts.lookup dt.value else none := by
  decide +kernel

end Agreement

section Decision
variable {nt : NetworkType} {c : NetworkCompat} (row : matrix.lookup nt = some c)

theorem algorithm_value {x y : Algorithm} : x = y ↔ x.value = y.value :=
  ⟨congrArg Algorithm.value, fun h => congrArg Algorithm.mk h⟩

theorem format_value {x y : Format} : x = y ↔ x.value = y.value :=
  ⟨congrArg Format.value, fun h => congrArg Format.mk h⟩

theorem type_value {x y : DerivationType} : x = y ↔ x.value = y.value :=
  ⟨congrArg DerivationType.value, fun h => congrArg DerivationType.mk h⟩

theorem network_value {x y : NetworkType} : x = y ↔ x.value = y.value :=
  ⟨congrArg NetworkType.value, fun h => congrArg NetworkType.mk h⟩

theorem mem_formats {formats : List Format} {fmt : Format} :
    fmt ∈ formats ↔ fmt.value ∈ formats.map Format.value :=
  (List.mem_map_of_injective fun _ _ => format_value.mpr).symm

theorem unset_or_iff {v : Bytes} {Q : Prop} {R : Bytes → Prop} (h : Q ↔ R v) :
    v.isEmpty = true ∨ Q ↔ ∀ f ∈ optText v, R f := by
  unfold optText
  cases v with
  | nil => simp
  | cons b v => simp [h]

include row

theorem algorithm_iff (algo : Algorithm) :
    networkAllowsAlgorithm nt algo = true ↔ algo.value ∈ (rowFor nt c).algorithms := by
  rw [allowsAlgorithm_iff row, rowFor, List.mem_map_of_injective fun _ _ => algorithm_value.mpr]

theorem format_iff (fmt : Format) :
    fmt.isEmpty = true ∨ networkAllowsFormat nt fmt = true ↔
      ∀ f ∈ optText fmt.value, f ∈ (rowFor nt c).formats := by
  have allowed : networkAllowsFormat nt fmt = true ↔ fmt.value ∈ (rowFor nt c).formats := by
    rw [allowsFormat_iff row, rowFor, ← mem_formats]
  exact unset_or_iff allowed

theorem curve_iff {dt : DerivationType} (listed : dt ∈ c.derivations) (algo : Algorithm) :
    (derivationAlgorithm nt dt).isEmpty = true ∨ derivationAlgorithm nt dt = algo ↔
      (BindsCurves nt.value → (curves nt.value).lookup dt.value = some algo.value) := by
  have bound := matrix_curves _ (row_mem row) dt listed
  simp only at bound
  split_ifs at bound with binds
  · rw [bound.1, bound.2, Option.some.injEq, ← algorithm_value]
    simp [binds]
  · simp [bound, binds]

theorem purpose_iff {dt : DerivationType} (listed : dt ∈ c.derivations) (fmt : Format) :
    fmt.isEmpty = true ∨ derivationAllowsFormat nt dt fmt = true ↔
      (nt.value = lit "bitcoin" → ∀ allowed ∈ scripts.lookup dt.value, ∀ f ∈ optText fmt.value, f ∈ allowed) := by
  have bound := matrix_scripts _ (row_mem row) dt listed
  simp only at bound
  have asked : derivationAllowsFormat nt dt fmt = true ↔
      ∀ formats ∈ c.derivationFormats.lookup dt, fmt ∈ formats := by
    unfold derivationAllowsFormat
    rw [row]
    cases hl : c.derivationFormats.lookup dt <;> simp [hl]
  have values : (∀ formats ∈ c.derivationFormats.lookup dt, fmt ∈ formats) ↔
      (nt.value = lit "bitcoin" → ∀ allowed ∈ scripts.lookup dt.value, fmt.value ∈ allowed) := by
    split_ifs at bound with bitcoin
    · rw [← bound]
      cases c.derivationFormats.lookup dt with
      | none => simp
      | some formats => simpa [bitcoin] using mem_formats
    · rw [Option.map_eq_none_iff.mp bound]
      simp [bitcoin]
  have texts := unset_or_iff
    (R := fun f => nt.value = lit "bitcoin" → ∀ allowed ∈ scripts.lookup dt.value, f ∈ allowed) (asked.trans values)
  refine texts.trans ?_
  exact ⟨fun h bitcoin allowed ha f hf => h f hf bitcoin allowed ha,
    fun h f hf bitcoin allowed ha => h bitcoin allowed ha f hf⟩

omit row in
theorem coinLevel_bip44 {levels : List AddressIndex} (fits : Scheme.Fits .bip44 levels) :
    coinLevel (concrete .bip44 levels) = some (concrete .bip44 levels).coin := by
  cases PathParse.Fits.shape fits with
  | family h coin account charge index => rfl

/-- What the code asks of a path is what the tables ask of it. -/
theorem path_iff {s : Scheme} {levels : List AddressIndex} (fits : s.Fits levels) (algo : Algorithm) (fmt : Format) :
    PathAllowed nt algo fmt (concrete s levels) ↔
      PathConforms (rowFor nt c) algo.value (optText fmt.value) (concrete s levels) := by
  have listed : s.type ∈ c.derivations ↔ s.type.value ∈ (rowFor nt c).derivations :=
    (List.mem_map_of_injective fun _ _ => type_value.mpr).symm
  have derivation := allowsDerivation_iff row s.type_ne_root
  have coin : s.type = .bip44 → ((concrete s levels).coin = coinsAtom ↔ coinLevel (concrete s levels) = some 118) := by
    intro bip44
    obtain rfl : s = .bip44 := Scheme.type_injective bip44
    rw [coinLevel_bip44 fits, Option.some.injEq]
    rfl
  have hub : (nt = .cosmos ∧ s.type = .bip44 ∧ (concrete s levels).coin = coinsAtom) ↔
      (nt.value = lit "cosmos" ∧ s.type.value = lit "bip44" ∧ coinLevel (concrete s levels) = some 118) := by
    rw [and_congr_right coin, network_value, type_value]
    exact Iff.rfl
  have hard : (algo = .ed25519 → s.type ≠ .cip1852 → ∀ l ∈ levels, l.isHardened = true) ↔
      (algo.value = lit "ed25519" → s.type.value ≠ lit "cip1852" → ∀ l ∈ levels, l.isHardened = true) := by
    rw [algorithm_value, Ne, type_value]
    exact Iff.rfl
  constructor
  · rintro ⟨allowed, curve, purpose, hardened, cosmosHub⟩
    rw [concrete_type] at allowed curve purpose hardened cosmosHub
    rw [concrete_levels] at hardened
    have mem := derivation.mp allowed
    constructor <;> rw [concrete_type]
    · exact listed.mp mem
    · exact (curve_iff row mem algo).mp curve
    · exact (purpose_iff row mem fmt).mp purpose
    · rw [concrete_levels]
      exact hard.mp hardened
    · exact mt hub.mpr cosmosHub
  · rintro ⟨allowed, curve, purpose, hardened, cosmosHub⟩
    rw [concrete_type] at allowed curve purpose hardened cosmosHub
    rw [concrete_levels] at hardened
    have mem := listed.mpr allowed
    constructor <;> rw [concrete_type]
    · exact derivation.mpr mem
    · exact (curve_iff row mem algo).mpr curve
    · exact (purpose_iff row mem fmt).mpr purpose
    · rw [concrete_levels]
      exact hard.mpr hardened
    · exact mt hub.mp cosmosHub

theorem resolvedAlgorithm_value {a : Address} (network : a.chain.network = nt) :
    a.resolvedAlgorithm.value = algorithmOf (rowFor nt c) a := by
  have default : (defaultAlgorithm nt).value = c.defaultAlgorithm.value := by
    unfold defaultAlgorithm
    rw [row]
  unfold Address.resolvedAlgorithm algorithmOf
  by_cases unset : a.algorithm.value = []
  · simp [Algorithm.isEmpty, unset, network, default, rowFor]
  · simp [Algorithm.isEmpty, unset]

theorem resolvedFormat_value {a : Address} (network : a.chain.network = nt) :
    optText a.resolvedFormat.value = formatOf (rowFor nt c) a := by
  have default : (defaultFormat nt).value = c.defaultFormat.value := by
    unfold defaultFormat
    rw [row]
  unfold Address.resolvedFormat formatOf
  by_cases unset : a.format.value = []
  · simp [Format.isEmpty, unset, network, default, rowFor]
  · simp [Format.isEmpty, unset, optText]

/-- A root address has no path to ask about; any other has a path of its scheme. -/
theorem derivation_allowed_iff (d : Descriptor) (algo : Algorithm) (fmt : Format) :
    (∀ p ∈ d.toAddress.path, p.type.isEmpty = true ∨ p.type = .root ∨ PathAllowed nt algo fmt p) ↔
      d.toAddress.getDerivationType = .root ∨
        ∃ p ∈ d.toAddress.path, PathConforms (rowFor nt c) algo.value (optText fmt.value) p := by
  have path : d.toAddress.path = some (pathOf d.path) := rfl
  unfold Address.getDerivationType
  rw [path]
  simp only [Option.mem_def, Option.some.injEq, forall_eq', exists_eq_left']
  cases d.path with
  | none =>
    have root : (pathOf none).type = .root := rfl
    simp [root]
  | some p =>
    have type : (concrete p.scheme p.levels).type = p.scheme.type := concrete_type _ _
    have decided := path_iff row p.fits algo fmt
    simp only [pathOf, HdPath.toDerivationPath, type, p.scheme.type_ne_root, p.scheme.type_ne_empty, decided,
      Bool.false_eq_true, if_false, false_or]

theorem allowed_iff (d : Descriptor) (network : d.network = nt) :
    Allowed d.toAddress ↔ RowConforms (rowFor nt c) d.toAddress := by
  have chain : d.toAddress.chain.network = nt := network
  have known := network_in_matrix d.network_registered
  have full : d.network.value ≠ [] := List.isEmpty_eq_false_iff.mp (network_nonempty d.network_registered)
  have set : PathSet d.toAddress := Marshalling.pathSet_of_describes (toAddress_describes d)
  have algo := resolvedAlgorithm_value row chain
  have fmt := resolvedFormat_value row chain
  have derivation := derivation_allowed_iff row d d.toAddress.resolvedAlgorithm d.toAddress.resolvedFormat
  constructor
  · intro h
    have algorithm := (algorithm_iff row _).mp (chain ▸ h.algorithm)
    have format := (format_iff row _).mp (chain ▸ h.format)
    have path := derivation.mp (chain ▸ h.derivation)
    rw [algo] at algorithm path
    rw [fmt] at format path
    exact ⟨algorithm, format, path⟩
  · rintro ⟨algorithm, format, path⟩
    rw [← algo] at algorithm path
    rw [← fmt] at format path
    refine ⟨full, set, known.1, resolved_nonempty d.network_registered, ?_, ?_, ?_⟩
    · rw [chain]
      exact (algorithm_iff row _).mpr algorithm
    · rw [chain]
      exact (format_iff row _).mpr format
    · rw [chain]
      exact derivation.mpr path

end Decision

/-- Strict validation accepts what the tables accept, and refuses everything else as incompatible. -/
theorem validate_decides {s : Bytes} {a : Address} (h : parseUrn s = .ok a) :
    (a.validate = .ok () ↔ Conforms a) ∧
      (¬ Conforms a → ∃ e, a.validate = .error e ∧ e.code = .incompatible) := by
  have decided : a.validate = .ok () ↔ Conforms a := by
    obtain ⟨d, rfl⟩ := parseUrn_descriptor h
    obtain ⟨c, row⟩ := Option.isSome_iff_exists.mp (network_in_matrix d.network_registered).1
    have found : rowOf d.toAddress.chain.network.value = some (rowFor d.network c) := matrix_rows _ (row_mem row)
    rw [validate_iff, allowed_iff row d rfl, Conforms, found]
    simp
  refine ⟨decided, ?_⟩
  intro other
  cases hv : a.validate with
  | ok u => exact absurd (decided.mp hv) other
  | error e => exact ⟨e, rfl, parsed_validate_fails h e hv⟩

/-- The CIP-11 path under its BIP-44 name. -/
theorem validate_decides_hub :
    let a : Address := ⟨⟨.cosmos, lit "cosmoshub-4", none⟩,
      some ⟨.bip44, 118, 0, 0, ⟨5, false⟩, true, [⟨44, true⟩, ⟨118, true⟩, ⟨0, true⟩, ⟨0, false⟩, ⟨5, false⟩]⟩,
      .unset, .unset, [], [], [], []⟩
    (a.validate = .ok () ↔ Conforms a) ∧
      (¬ Conforms a → ∃ e, a.validate = .error e ∧ e.code = .incompatible) := by
  intro a
  have parsed : parseUrn (lit "urn:mhda:nt:cosmos:ci:cosmoshub-4:dt:bip44:dp:m/44'/118'/0'/0/5") = .ok a := rfl
  exact validate_decides parsed

end Mhda.StrictSpec
