import Mhda.DerivationSetters
import Mhda.Marshalling
import Mhda.NssGrammar
import Mhda.NssRoutes

set_option autoImplicit false

/-!
# Classification of parse errors

Each check of the parser as a condition on the text, in the order in which they
decide the code of the exception.
-/
namespace Mhda.Classification
open Mhda.ByteString Mhda.Errors Mhda.Detail Mhda.DetailFacts Mhda.Catalogue Mhda.Nss Mhda.KeyValue
open Mhda.NssTokens Mhda.NssGrammar Mhda.NssRoutes Mhda.Transition Mhda.Chains Mhda.Path Mhda.Addresses
open Mhda.Parser Mhda.Template Mhda.PathText Mhda.PathParse Mhda.PathHistory Mhda.Setters Mhda.Decoding
open Mhda.Stripping Mhda.DerivationSetters Mhda.Compatibility Mhda.Validation

inductive Check where
  | urnPrefix | tokens | networkPresent | networkRegistered | chainIdPresent | coinType
  | derivationType | derivationPath | algorithm | format

def Check.code : Check → ErrorCode
  | .urnPrefix => .invalidUrn
  | .tokens => .invalidNss
  | .networkPresent => .missingNetworkType
  | .networkRegistered => .invalidNetworkType
  | .chainIdPresent => .missingChainId
  | .coinType => .invalidCoinType
  | .derivationType => .invalidDerivationType
  | .derivationPath => .invalidDerivationPath
  | .algorithm => .invalidAlgorithm
  | .format => .invalidFormat

def checks : List Check :=
  [.urnPrefix, .tokens, .networkPresent, .networkRegistered, .chainIdPresent, .coinType,
    .derivationType, .derivationPath, .algorithm, .format]

/-- The NSS a URN carries, behind the prefix and before an r-, q- or f-component. -/
def nssOf (s : Bytes) : Bytes := trimRight (nssPart (afterPrefix s))

def component (s k : Bytes) : Option Bytes := (pairUp (split (nssOf s) (ch ':'))).lookup k

def typeOf (s : Bytes) : DerivationType :=
  match component s compDerivationType with
  | none => .root
  | some dt => ⟨toLower dt⟩

/-- What each check asks of the text; the later ones matter when the earlier ones hold. -/
def Check.Passes (s : Bytes) : Check → Prop
  | .urnPrefix => ∃ q rest, trim s = q ++ rest ∧ SpellsMhda q
  | .tokens => ∃ ps, Spells (nssOf s) ps
  | .networkPresent => component s compNetworkType ≠ none
  | .networkRegistered => ∀ nt ∈ component s compNetworkType, (NetworkType.mk (toLower nt)).isValid = true
  | .chainIdPresent => component s compChainId ≠ none
  | .coinType => ∀ ct ∈ component s compCoinType, ∃ v : UInt32, SpellsNumber ct v.toNat
  | .derivationType => (typeOf s).isValid = true
  | .derivationPath =>
    validateDerivationPath (typeOf s) (toLower ((component s compDerivationPath).getD [])) = true
  | .algorithm => ∀ aa ∈ component s compAddressAlgorithm, (Algorithm.mk (toLower aa)).isValid = true
  | .format => ∀ af ∈ component s compAddressFormat, (Format.mk (toLower af)).isValid = true

/-- A computation whose code is decided by the first condition that fails. -/
abbrev Decided {α : Type} (conditions : List (Prop × ErrorCode)) (x : Except ParseError α) : Prop :=
  Checked ParseError.code conditions x

section Stages

theorem decided_guard {α : Type} (P : Prop) [Decidable P] (a b : α) (e : ParseError) :
    Decided [(P, e.code)] (if P then After.done b else After.throw a e : After α ParseError).result := by
  by_cases h : P
  · rw [if_pos h]
    exact checked_next _ h ⟨b, rfl⟩
  · rw [if_neg h]
    exact checked_error _ h rfl

theorem buildChain_decided {m : Components} (h : TokenValues m) :
    Decided [(m.lookup compNetworkType ≠ none, .missingNetworkType),
      (∀ nt ∈ m.lookup compNetworkType, (NetworkType.mk (toLower nt)).isValid = true, .invalidNetworkType),
      (m.lookup compChainId ≠ none, .missingChainId),
      (∀ ct ∈ m.lookup compCoinType, ∃ v : UInt32, SpellsNumber ct v.toNat, .invalidCoinType)]
      (Chain.buildChain m) := by
  unfold Chain.buildChain
  cases hnt : m.lookup compNetworkType with
  | none => exact checked_error _ (by simp) rfl
  | some nt =>
    have token := h _ _ hnt
    have full : (toLower nt).isEmpty = false := List.isEmpty_eq_false_iff.mpr token.toLower.1
    refine checked_next _ (by simp) ?_
    simp only [token.2.normalize, full, Bool.false_eq_true, if_false]
    by_cases valid : (NetworkType.mk (toLower nt)).isValid = true
    · refine checked_next _ (by simpa using valid) ?_
      rw [if_neg (by simp [valid])]
      cases hci : m.lookup compChainId with
      | none => exact checked_error _ (by simp) rfl
      | some ci =>
        have ciToken := h _ _ hci
        have ciFull : ci.isEmpty = false := List.isEmpty_eq_false_iff.mpr ciToken.1
        have made : Chain.construct ⟨toLower nt⟩ ci = .ok ⟨⟨toLower nt⟩, ci, none⟩ := by
          refine (construct_eq_ok _ _ _).mpr ⟨valid, ?_, ?_⟩
          · rw [ciToken.2.trim]
            exact ciToken
          · rw [ciToken.2.trim]
        refine checked_next _ (by simp) ?_
        simp only [ciToken.2.trim, ciFull, Bool.false_eq_true, if_false, made, ok_bind]
        cases hct : m.lookup compCoinType with
        | none => exact checked_next _ (by simp) ⟨_, rfl⟩
        | some ct =>
          simp only [(h _ _ hct).2.trim]
          cases hv : parseUint32 ct with
          | none =>
            refine checked_error _ ?_ rfl
            intro spelled
            obtain ⟨v, hs⟩ := spelled ct rfl
            rw [(parseUint32_eq_some ct v).mpr hs] at hv
            cases hv
          | some v =>
            refine checked_next _ ?_ ⟨_, rfl⟩
            rintro _ ⟨⟩
            exact ⟨v, (parseUint32_eq_some ct v).mp hv⟩
    · rw [if_pos (by simpa using valid)]
      exact checked_error _ (by simpa using valid) rfl

/-- A path is refused with the code of a path, and exactly when the predicate refuses it. -/
theorem pathFor_decided {dt : DerivationType} (hv : dt.isValid = true) (dp : Bytes) :
    Decided [(validateDerivationPath dt (normalize dp) = true, .invalidDerivationPath)] (pathFor dt dp) := by
  unfold pathFor
  rcases valid_cases hv with rfl | ⟨s, rfl⟩
  · have root : validateDerivationPath .root (normalize dp) = (trim dp).isEmpty :=
      (show validateDerivationPath .root (normalize dp) = (normalize dp).isEmpty from rfl).trans
        (toLower_isEmpty (trim dp))
    rw [if_pos rfl, root]
    cases (trim dp).isEmpty with
    | false => exact checked_error _ (by simp) rfl
    | true => exact checked_next _ rfl ⟨_, rfl⟩
  · rw [if_neg s.type_ne_root, validateDerivationPath_iff]
    cases hp : DerivationPath.parse s.type (normalize dp) with
    | error e =>
      refine checked_error _ ?_ (parse_error s _ hp)
      rintro ⟨raws, spelled, fits⟩
      rw [(parse_eq_ok s _ _).mpr ⟨raws, spelled, fits, rfl⟩] at hp
      cases hp
    | ok q =>
      obtain ⟨raws, spelled, fits, _⟩ := (parse_eq_ok s _ _).mp hp
      exact checked_next _ ⟨raws, spelled, fits⟩ ⟨q, rfl⟩

theorem setDerivation_decided (a : Address) (dt dp : Bytes) :
    Decided [((chosenType dt).isValid = true, .invalidDerivationType),
      (validateDerivationPath (chosenType dt) (normalize dp) = true, .invalidDerivationPath)]
      (a.setDerivation dt dp).result := by
  rw [setDerivation_eq]
  by_cases hv : (chosenType dt).isValid = true
  · rw [if_pos hv]
    exact checked_next _ hv ((pathFor_decided hv dp).map _ _)
  · rw [if_neg hv]
    exact checked_error _ hv rfl

theorem setFreeForm_accepts {component : Bytes} {put : Bytes → Address} {a : Address} {v : Bytes}
    (h : NssText v) : Decided [] (Address.setFreeForm component put a v).result := by
  rw [setFreeForm_eq, h.trim, if_pos h]
  exact ⟨_, rfl⟩

theorem parseAddressFromComponents_decided {m : Components} (h : TokenValues m) :
    Decided [(m.lookup compNetworkType ≠ none, .missingNetworkType),
      (∀ nt ∈ m.lookup compNetworkType, (NetworkType.mk (toLower nt)).isValid = true, .invalidNetworkType),
      (m.lookup compChainId ≠ none, .missingChainId),
      (∀ ct ∈ m.lookup compCoinType, ∃ v : UInt32, SpellsNumber ct v.toNat, .invalidCoinType),
      ((chosenType (get m compDerivationType)).isValid = true, .invalidDerivationType),
      (validateDerivationPath (chosenType (get m compDerivationType)) (normalize (get m compDerivationPath)) = true,
        .invalidDerivationPath),
      (AlgorithmOk ⟨normalize (get m compAddressAlgorithm)⟩, .invalidAlgorithm),
      (FormatOk ⟨normalize (get m compAddressFormat)⟩, .invalidFormat)]
      (parseAddressFromComponents m) := by
  have text := get_text h
  unfold parseAddressFromComponents
  refine (buildChain_decided h).bind _ fun chain _ => ?_
  refine (setDerivation_decided _ _ _).bind _ fun a _ => ?_
  rw [setAddressAlgorithm_eq]
  refine (decided_guard _ _ _ _).bind _ fun a _ => ?_
  rw [setAddressFormat_eq]
  refine (decided_guard _ _ _ _).bind _ fun a _ => ?_
  refine (setFreeForm_accepts (text _)).bind _ fun a _ => ?_
  refine (setFreeForm_accepts (text _)).bind _ fun a _ => ?_
  refine (setFreeForm_accepts (text _)).bind _ fun a _ => ?_
  exact setFreeForm_accepts (text _)

end Stages

section Texts
variable {s : Bytes} {m : Components}

theorem component_eq (hm : parseNssMap (nssOf s) = .ok m) {k : Bytes} (hk : Known k) :
    component s k = m.lookup k := by
  obtain ⟨ps, text, wf, rfl⟩ := (parseNssMap_eq_ok _ _).mp hm
  have pairs := spells_pairUp ((spells_iff _ _).mpr ⟨text, wf⟩)
  unfold component
  rw [← pairs, lookup_known_key ps hk]

theorem tokenValues_parsed (hm : parseNssMap (nssOf s) = .ok m) : TokenValues m := by
  obtain ⟨ps, _, wf, rfl⟩ := (parseNssMap_eq_ok _ _).mp hm
  exact tokenValues_known wf

theorem typeOf_eq (hm : parseNssMap (nssOf s) = .ok m) : typeOf s = chosenType (get m compDerivationType) := by
  unfold typeOf Parser.get chosenType
  rw [component_eq hm (by decide +kernel)]
  cases hdt : m.lookup compDerivationType with
  | none => rfl
  | some dt =>
    have token := tokenValues_parsed hm _ _ hdt
    have full : (toLower dt).isEmpty = false := List.isEmpty_eq_false_iff.mpr token.toLower.1
    rw [Option.getD_some, token.2.normalize, full, if_neg (by simp)]

/-- A component that may be missing, and otherwise names a registered value. -/
theorem registered_iff (h : TokenValues m) (k : Bytes) (P : Bytes → Prop) :
    ((normalize (get m k)).isEmpty = true ∨ P (normalize (get m k))) ↔ ∀ v ∈ m.lookup k, P (toLower v) := by
  unfold Parser.get
  cases hv : m.lookup k with
  | none => exact iff_of_true (.inl rfl) (by simp)
  | some v =>
    have token := h _ _ hv
    have full : (toLower v).isEmpty = false := List.isEmpty_eq_false_iff.mpr token.toLower.1
    rw [Option.getD_some, token.2.normalize, full]
    simp

theorem parseNssMap_decided (n : Bytes) : Decided [(∃ ps, Spells n ps, .invalidNss)] (parseNssMap n) := by
  cases hm : parseNssMap n with
  | error e =>
    refine checked_error _ ?_ (parseNssMap_error n hm)
    rintro ⟨ps, h⟩
    rw [parseNssMap_spells h] at hm
    cases hm
  | ok m => exact checked_next _ ((parseNssMap_grammar n).1.mp ⟨m, hm⟩) ⟨m, rfl⟩

end Texts

section Urn

theorem parseUrn_eq {s : Bytes} (h : hasPrefixFold (trim s) prefixMhda = true) :
    parseUrn s = parseAddressNss (nssOf s) := by
  unfold parseUrn
  simp only [h, Bool.not_true, Bool.false_eq_true, if_false]
  rfl

theorem parseAddressNss_decided (s : Bytes) :
    Decided ((checks.drop 1).map fun c => (c.Passes s, c.code)) (parseAddressNss (nssOf s)) := by
  unfold parseAddressNss
  refine (parseNssMap_decided (nssOf s)).bind _ fun m hm => ?_
  have values := tokenValues_parsed hm
  have nt := component_eq hm (show Known compNetworkType by decide +kernel)
  have ci := component_eq hm (show Known compChainId by decide +kernel)
  have ct := component_eq hm (show Known compCoinType by decide +kernel)
  have dp := component_eq hm (show Known compDerivationPath by decide +kernel)
  have aa := component_eq hm (show Known compAddressAlgorithm by decide +kernel)
  have af := component_eq hm (show Known compAddressFormat by decide +kernel)
  have path : toLower ((m.lookup compDerivationPath).getD []) = normalize (get m compDerivationPath) :=
    (get_text values compDerivationPath).normalize.symm
  have algorithm : AlgorithmOk ⟨normalize (get m compAddressAlgorithm)⟩ ↔ _ :=
    registered_iff values compAddressAlgorithm fun v => (Algorithm.mk v).isValid = true
  have format : FormatOk ⟨normalize (get m compAddressFormat)⟩ ↔ _ :=
    registered_iff values compAddressFormat fun v => (Format.mk v).isValid = true
  have decided := parseAddressFromComponents_decided values
  rw [← typeOf_eq hm, ← path, algorithm, format] at decided
  simp only [List.map_cons, List.map_nil, Check.Passes, Check.code, nt, ci, ct, dp, aa, af]
  split
  · rename_i absent
    exact checked_error _ (by simp [Option.isNone_iff_eq_none.mp absent]) rfl
  · exact decided

theorem parseUrn_decided (s : Bytes) : Decided (checks.map fun c => (c.Passes s, c.code)) (parseUrn s) := by
  have spelled := hasPrefixFold_iff (trim s)
  by_cases hp : hasPrefixFold (trim s) prefixMhda = true
  · rw [parseUrn_eq hp]
    exact checked_next _ (spelled.mp hp) (parseAddressNss_decided s)
  · have refused : parseUrn s = .error (.bare .invalidUrn) := by
      unfold parseUrn
      simp [hp]
    rw [refused]
    exact checked_error _ (mt spelled.mpr hp) rfl

theorem parseUrn_first {s : Bytes} {e : ParseError} (h : parseUrn s = .error e) :
    ∃ before c after, checks = before ++ c :: after ∧ (∀ b ∈ before, b.Passes s) ∧ ¬ c.Passes s ∧
      e.code = c.code := by
  have decided := parseUrn_decided s
  rw [h] at decided
  obtain ⟨before, condition, after, split, passed, fails, code⟩ := decided.first
  obtain ⟨front, rest, order, rfl, hrest⟩ := List.map_eq_append_iff.mp split
  obtain ⟨c, back, rfl, rfl, _⟩ := List.map_eq_cons_iff.mp hrest
  exact ⟨front, c, back, order, fun b hb => passed _ (List.mem_map_of_mem hb), fails, code⟩

end Urn

section Strict

theorem network_in_matrix {nt : NetworkType} (h : nt.isValid = true) :
    networkIsRegistered nt = true ∧ (defaultAlgorithm nt).isEmpty = false := by
  have names : ∀ s ∈ NetworkType.ntIndex.map Prod.fst,
      networkIsRegistered ⟨s⟩ = true ∧ (defaultAlgorithm ⟨s⟩).isEmpty = false := by decide +kernel
  exact names _ ((lookup_isSome_iff _ _).mp h)

theorem resolved_nonempty {a : Address} (h : a.chain.network.isValid = true) :
    a.resolvedAlgorithm.isEmpty = false := by
  unfold Address.resolvedAlgorithm
  cases he : a.algorithm.isEmpty with
  | true => exact (network_in_matrix h).2
  | false => exact he

theorem validatePath_fails (nt : NetworkType) (algo : Algorithm) (fmt : Format) (path : DerivationPath) :
    Fails (fun e => e.code = .incompatible) (Address.validatePath nt algo fmt path) := by
  unfold Address.validatePath
  refine fails_guard rfl (fails_guard rfl (fails_guard rfl ?_))
  split
  · exact fails_error rfl
  · exact fails_guard rfl (fails_ok _ _)

/-- The checks before the matrix pass on an address whose network and path are set. -/
theorem validate_fails {a : Address} (hn : a.chain.network.isEmpty = false) (set : PathSet a) :
    Fails (fun e => e.code = .incompatible) a.validate := by
  unfold Address.validate
  simp only [hn, (checkPathSet_iff a).mpr set, Bool.false_eq_true, if_false, ok_bind]
  refine fails_guard rfl (fails_guard rfl (fails_guard rfl (fails_guard rfl ?_)))
  split
  · exact fails_ok _ _
  · split
    · exact fails_ok _ _
    · exact validatePath_fails _ _ _ _

theorem parsed_ready {s : Bytes} {a : Address} (h : parseUrn s = .ok a) :
    a.chain.network.isValid = true ∧ PathSet a := by
  obtain ⟨d, rfl⟩ := parseUrn_descriptor h
  exact ⟨d.network_registered, Marshalling.pathSet_of_describes (Descriptors.toAddress_describes d)⟩

theorem parsed_validate_fails {s : Bytes} {a : Address} (h : parseUrn s = .ok a) :
    Fails (fun e => e.code = .incompatible) a.validate := by
  obtain ⟨valid, set⟩ := parsed_ready h
  exact validate_fails (network_nonempty valid) set

end Strict

/-- The first check that fails decides the code, and strict parsing adds one code of its own. -/
theorem parseUrn_classified (s : Bytes) :
    ((∃ a, parseUrn s = .ok a) ↔ ∀ c ∈ checks, c.Passes s) ∧
    (∀ e, parseUrn s = .error e → ∃ before c after, checks = before ++ c :: after ∧
      (∀ b ∈ before, b.Passes s) ∧ ¬ c.Passes s ∧ e.code = c.code) ∧
    (∀ e, parseUrn s = .error e → e.code ∈ checks.map Check.code ∧ e.code ≠ .invalidValue) ∧
    (∀ e, parseUrn s = .error e → parseUrnStrict s = .error e) ∧
    (∀ a, parseUrn s = .ok a →
      (parseUrnStrict s = .ok a ∨ ∃ e, parseUrnStrict s = .error e ∧ e.code = .incompatible) ∧
      a.checkPathSet = .ok () ∧ networkIsRegistered a.chain.network = true ∧
      a.resolvedAlgorithm.isEmpty = false) := by
  have listed : ∀ e, parseUrn s = .error e → e.code ∈ checks.map Check.code := by
    intro e h
    obtain ⟨before, c, after, order, _, _, code⟩ := parseUrn_first h
    rw [code, order]
    exact List.mem_map_of_mem (by simp)
  have free : ErrorCode.invalidValue ∉ checks.map Check.code := by decide
  refine ⟨?_, fun e h => parseUrn_first h, fun e h => ⟨listed e h, fun hc => free (hc ▸ listed e h)⟩, ?_, ?_⟩
  · constructor
    · rintro ⟨a, h⟩ c hc
      have decided := parseUrn_decided s
      rw [h] at decided
      exact decided.all _ _ (List.mem_map_of_mem hc)
    · intro passes
      cases h : parseUrn s with
      | ok a => exact ⟨a, rfl⟩
      | error e =>
        obtain ⟨before, c, after, order, _, fails, _⟩ := parseUrn_first h
        exact absurd (passes c (by simp [order])) fails
  · intro e h
    unfold parseUrnStrict
    rw [h, error_bind]
  · intro a h
    obtain ⟨valid, set⟩ := parsed_ready h
    refine ⟨?_, (checkPathSet_iff a).mpr set, (network_in_matrix valid).1, resolved_nonempty valid⟩
    rw [parseUrnStrict_eq h]
    cases hv : a.validate with
    | ok u => exact .inl rfl
    | error e => exact .inr ⟨e, rfl, parsed_validate_fails h e hv⟩

end Mhda.Classification
