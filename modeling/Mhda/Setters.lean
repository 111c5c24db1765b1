import Mhda.NssTokens
import Mhda.Parser
import Mhda.PathHistory

set_option autoImplicit false

namespace Mhda.Setters
open Mhda.ByteString Mhda.Errors Mhda.Detail Mhda.DetailFacts Mhda.Catalogue Mhda.Nss Mhda.Transition
open Mhda.Chains Mhda.Path Mhda.Addresses Mhda.Parser Mhda.Template Mhda.PathParse Mhda.PathHistory

/-- An algorithm that an address may hold: none, or a registered one. -/
def AlgorithmOk (x : Algorithm) : Prop := x.isEmpty = true ∨ x.isValid = true
def FormatOk (x : Format) : Prop := x.isEmpty = true ∨ x.isValid = true

instance (x : Algorithm) : Decidable (AlgorithmOk x) := inferInstanceAs (Decidable (_ ∨ _))
instance (x : Format) : Decidable (FormatOk x) := inferInstanceAs (Decidable (_ ∨ _))

theorem setAddressAlgorithm_eq (a : Address) (aa : Bytes) :
    a.setAddressAlgorithm aa =
      if AlgorithmOk ⟨normalize aa⟩ then .done { a with algorithm := ⟨normalize aa⟩ }
      else .throw a ⟨.invalidAlgorithm, quote (normalize aa)⟩ := by
  have lowered : toLower (trim aa) = normalize aa := rfl
  unfold Address.setAddressAlgorithm AlgorithmOk
  rw [lowered]
  cases hn : normalize aa with
  | nil => rfl
  | cons c s =>
    by_cases hv : (Algorithm.mk (c :: s)).isValid = true <;> simp [Algorithm.isEmpty, hv]

theorem setAddressFormat_eq (a : Address) (af : Bytes) :
    a.setAddressFormat af =
      if FormatOk ⟨normalize af⟩ then .done { a with format := ⟨normalize af⟩ }
      else .throw a ⟨.invalidFormat, quote (normalize af)⟩ := by
  have lowered : toLower (trim af) = normalize af := rfl
  unfold Address.setAddressFormat FormatOk
  rw [lowered]
  cases hn : normalize af with
  | nil => rfl
  | cons c s =>
    by_cases hv : (Format.mk (c :: s)).isValid = true <;> simp [Format.isEmpty, hv]

theorem setFreeForm_eq (component : Bytes) (put : Bytes → Address) (a : Address) (v : Bytes) :
    Address.setFreeForm component put a v =
      if NssText (trim v) then .done (put (trim v))
      else .throw a ⟨.invalidValue, quote (trim v) ++ lit " for " ++ quote component⟩ := by
  have all := nssText_iff_all (trim v)
  unfold Address.setFreeForm validateFreeFormValue
  by_cases h : NssText (trim v)
  · rw [if_pos h, if_pos (all.mpr h)]
  · rw [if_neg h, if_neg (mt all.mp h)]

theorem setNetwork_eq (c : Chain) (nt : NetworkType) :
    c.setNetwork nt =
      if nt.isValid then .done { c with network := nt }
      else .throw c ⟨.invalidNetworkType, quote nt.value⟩ := by
  unfold Chain.setNetwork
  cases nt.isValid <;> rfl

theorem setChainId_eq_done (c : Chain) {ci : Bytes} (h : Token (trim ci)) :
    c.setChainId ci = .done { c with chainId := trim ci } := by
  have nonempty : (trim ci).isEmpty = false := List.isEmpty_eq_false_iff.mpr h.1
  have valid := (validateFreeFormValue_ok compChainId (trim ci)).mpr h.2
  unfold Chain.setChainId
  simp only [nonempty, Bool.false_eq_true, if_false, valid]

theorem setChainId_refuses (c : Chain) {ci : Bytes} (h : ¬ Token (trim ci)) :
    ∃ e, c.setChainId ci = .throw c e := by
  unfold Chain.setChainId
  by_cases he : (trim ci).isEmpty = true
  · exact ⟨_, if_pos he⟩
  · simp only [he, Bool.false_eq_true, if_false]
    cases hv : validateFreeFormValue compChainId (trim ci) with
    | error e => exact ⟨e, rfl⟩
    | ok u =>
      rw [List.isEmpty_iff] at he
      exact absurd ⟨he, (validateFreeFormValue_ok _ _).mp hv⟩ h

theorem construct_eq_ok (nt : NetworkType) (ci : Bytes) (c : Chain) :
    Chain.construct nt ci = .ok c ↔ nt.isValid = true ∧ Token (trim ci) ∧ c = ⟨nt, trim ci, none⟩ := by
  unfold Chain.construct
  rw [setNetwork_eq]
  cases hv : nt.isValid with
  | false => simp [bind, Except.bind]
  | true =>
    simp only [if_true, After.result_done, ok_bind, true_and]
    by_cases ht : Token (trim ci)
    · rw [setChainId_eq_done _ ht]
      simp [Chain.init, ht, eq_comm]
    · obtain ⟨e, he⟩ := setChainId_refuses { Chain.init with network := nt } ht
      rw [he]
      simp [ht]

def CoinReads (m : Components) (coin : Option UInt32) : Prop :=
  match m.lookup compCoinType with
  | none => coin = none
  | some ct => ∃ v, parseUint32 (trim ct) = some v ∧ coin = some v

theorem trimmed_trim (s : Bytes) : Trimmed (trim s) := by
  have front : List.IsPrefix (trim s) (s.dropWhile isAsciiSpace) := List.rdropWhile_prefix _ _
  constructor
  · intro c hc
    apply dropWhile_head s
    obtain ⟨rest, hrest⟩ := front
    rw [← hrest, List.head?_append, hc]
    rfl
  · intro c hc
    have stays := List.rdropWhile_eq_self_iff.mp (trimRight_idem (s.dropWhile isAsciiSpace))
    have nonempty : trim s ≠ [] := by
      intro hn
      simp [hn] at hc
    have last := List.getLast?_eq_some_getLast nonempty
    rw [Option.mem_def, last, Option.some.injEq] at hc
    rw [← hc, ← Bool.not_eq_true]
    exact stays nonempty

theorem trim_trim (s : Bytes) : trim (trim s) = trim s := trim_eq_self (trimmed_trim s)

theorem network_nonempty {nt : NetworkType} (h : nt.isValid = true) : nt.value.isEmpty = false := by
  rw [List.isEmpty_eq_false_iff]
  intro hn
  obtain ⟨value⟩ := nt
  simp only at hn
  subst hn
  revert h
  decide

theorem buildChain_eq_ok (m : Components) (c : Chain) :
    Chain.buildChain m = .ok c ↔
      ∃ nt ci, m.lookup compNetworkType = some nt ∧ m.lookup compChainId = some ci ∧
        c.network = ⟨normalize nt⟩ ∧ c.network.isValid = true ∧
        c.chainId = trim ci ∧ Token (trim ci) ∧ CoinReads m c.coin := by
  obtain ⟨network, chainId, coin⟩ := c
  unfold Chain.buildChain CoinReads
  cases hnt : m.lookup compNetworkType with
  | none => simp
  | some nt =>
    cases hci : m.lookup compChainId with
    | none => simp [guard_eq_ok]
    | some ci =>
      simp only [guard_eq_ok, bind_eq_ok, construct_eq_ok, trim_trim]
      constructor
      · rintro ⟨_, _, _, out, ⟨valid, token, rfl⟩, attached⟩
        refine ⟨nt, ci, rfl, rfl, ?_⟩
        cases hct : m.lookup compCoinType with
        | none =>
          rw [hct] at attached
          cases attached
          exact ⟨rfl, valid, rfl, token, rfl⟩
        | some ct =>
          rw [hct] at attached
          simp only at attached
          split at attached
          · cases attached
          · rename_i v hread
            cases attached
            exact ⟨rfl, valid, rfl, token, v, hread, rfl⟩
      · rintro ⟨nt', ci', hnt', hci', rfl, valid, rfl, token, hcoin⟩
        cases hnt'
        cases hci'
        refine ⟨by simp [network_nonempty valid], by simp [valid], by simpa using token.1, _,
          ⟨valid, token, rfl⟩, ?_⟩
        cases hct : m.lookup compCoinType with
        | none =>
          rw [hct] at hcoin
          rw [hcoin]
        | some ct =>
          rw [hct] at hcoin
          obtain ⟨v, hread, rfl⟩ := hcoin
          simp only [hread]
          rfl

/-- The type a text names; an empty one means root. -/
def chosenType (dt : Bytes) : DerivationType := if (normalize dt).isEmpty then .root else ⟨normalize dt⟩

theorem fresh_parsePath (s : Scheme) (path : Bytes) :
    (DerivationPath.fresh s.type).parsePath path =
      .commit (DerivationPath.fresh s.type) (DerivationPath.parse s.type path) :=
  parsePath_eq _ _ s.type_valid

theorem init_setDerivationType (dt : Bytes) :
    Address.init.setDerivationType dt =
      if (chosenType dt).isValid then
        .done { Address.init with path := some (DerivationPath.fresh (chosenType dt)) }
      else .throw Address.init ⟨.invalidDerivationType, quote (normalize dt)⟩ := by
  have lowered : toLower (trim dt) = normalize dt := rfl
  unfold Address.setDerivationType chosenType
  rw [lowered]
  cases hn : normalize dt with
  | nil => rfl
  | cons c s =>
    have other : (DerivationType.mk (c :: s)) ≠ (Address.init.path.getD .init).type := by
      intro h
      cases h
    by_cases hv : (DerivationType.mk (c :: s)).isValid = true
    · simp [hv, DerivationPath.setType, other]
      rfl
    · simp [hv]

theorem normalize_eq_nil (s : Bytes) : normalize s = [] ↔ trim s = [] := List.map_eq_nil_iff

theorem setDerivationPath_blank {dt : DerivationType} (hv : dt.isValid = true) (dp : Bytes) (b : Address) :
    (Address.setDerivationPath { Address.init with path := some (DerivationPath.fresh dt) } dp).result = .ok b ↔
      ∃ q, DerivationPath.parse dt (normalize dp) = .ok q ∧ b = { Address.init with path := some q } := by
  unfold Address.setDerivationPath
  rcases valid_cases hv with rfl | ⟨s, rfl⟩
  · simp only [Option.getD_some, DerivationPath.fresh, true_or, if_true, parse_root, normalize_eq_nil]
    by_cases hp : trim dp = []
    · simp [hp, eq_comm]
    · simp [hp]
  · have type : (DerivationPath.fresh s.type).type = s.type := rfl
    have notRoot : ¬ (s.type = .root ∨ s.type.isEmpty = true) := by
      simp [s.type_ne_root, s.type_ne_empty]
    simp only [Option.getD_some, type, notRoot, if_false]
    rw [After.result_lift, fresh_parsePath, After.result_commit, map_eq_ok]
    constructor
    · rintro ⟨q, hq, rfl⟩
      exact ⟨q, hq, rfl⟩
    · rintro ⟨q, hq, rfl⟩
      exact ⟨q, hq, rfl⟩

theorem setDerivation_eq_ok (a : Address) (dt dp : Bytes) (b : Address) :
    (a.setDerivation dt dp).result = .ok b ↔
      ∃ q, DerivationPath.parse (chosenType dt) (normalize dp) = .ok q ∧ b = { a with path := some q } := by
  unfold Address.setDerivation
  rw [After.result_commit, init_setDerivationType]
  by_cases hv : (chosenType dt).isValid = true
  · rw [if_pos hv, After.result_done, ok_bind, bind_eq_ok]
    constructor
    · rintro ⟨scratch, hs, hb⟩
      obtain ⟨q, hq, rfl⟩ := (setDerivationPath_blank hv dp scratch).mp hs
      exact ⟨q, hq, (Except.ok.inj hb).symm⟩
    · rintro ⟨q, hq, rfl⟩
      exact ⟨_, (setDerivationPath_blank hv dp _).mpr ⟨q, hq, rfl⟩, rfl⟩
  · rw [if_neg hv]
    refine iff_of_false (by simp [error_bind]) ?_
    rintro ⟨q, hq, _⟩
    exact hv (parse_valid hq)

theorem result_guard {σ ε : Type} (P : Prop) [Decidable P] (s t u : σ) (e : ε) :
    (if P then After.done s else After.throw t e : After σ ε).result = .ok u ↔ P ∧ u = s := by
  by_cases h : P <;> simp [h, eq_comm]

/-- What the decoder accepts, component by component. -/
theorem parseAddressFromComponents_eq_ok (m : Components) (a : Address) :
    parseAddressFromComponents m = .ok a ↔
      ∃ c q, Chain.buildChain m = .ok c ∧
        DerivationPath.parse (chosenType (get m compDerivationType))
          (normalize (get m compDerivationPath)) = .ok q ∧
        AlgorithmOk ⟨normalize (get m compAddressAlgorithm)⟩ ∧
        FormatOk ⟨normalize (get m compAddressFormat)⟩ ∧
        NssText (trim (get m compAddressPrefix)) ∧ NssText (trim (get m compAddressSuffix)) ∧
        NssText (trim (get m compWalletType)) ∧ NssText (trim (get m compWalletId)) ∧
        a = ⟨c, some q, ⟨normalize (get m compAddressAlgorithm)⟩, ⟨normalize (get m compAddressFormat)⟩,
          trim (get m compAddressPrefix), trim (get m compAddressSuffix),
          trim (get m compWalletType), trim (get m compWalletId)⟩ := by
  unfold parseAddressFromComponents
  simp only [bind_eq_ok, setDerivation_eq_ok, setAddressAlgorithm_eq, setAddressFormat_eq,
    Address.setAddressPrefix, Address.setAddressSuffix, Address.setWalletType, Address.setWalletId,
    setFreeForm_eq, result_guard]
  constructor
  · rintro ⟨c, hc, _, ⟨q, hq, rfl⟩, _, ⟨haa, rfl⟩, _, ⟨haf, rfl⟩, _, ⟨hap, rfl⟩, _, ⟨has, rfl⟩, _,
      ⟨hwt, rfl⟩, hwi, rfl⟩
    exact ⟨c, q, hc, hq, haa, haf, hap, has, hwt, hwi, rfl⟩
  · rintro ⟨c, q, hc, hq, haa, haf, hap, has, hwt, hwi, rfl⟩
    exact ⟨c, hc, _, ⟨q, hq, rfl⟩, _, ⟨haa, rfl⟩, _, ⟨haf, rfl⟩, _, ⟨hap, rfl⟩, _, ⟨has, rfl⟩, _,
      ⟨hwt, rfl⟩, hwi, rfl⟩

theorem parseUrnStrict_eq {s : Bytes} {a : Address} (h : parseUrn s = .ok a) :
    parseUrnStrict s = a.validate.map fun _ => a := by
  unfold parseUrnStrict
  rw [h, ok_bind]
  cases a.validate <;> rfl

theorem parseUrnStrict_iff (s : Bytes) (a : Address) :
    parseUrnStrict s = .ok a ↔ parseUrn s = .ok a ∧ a.validate = .ok () := by
  constructor
  · intro h
    obtain ⟨b, parsed, _⟩ := bind_eq_ok.mp h
    rw [parseUrnStrict_eq parsed, map_eq_ok] at h
    obtain ⟨_, valid, rfl⟩ := h
    exact ⟨parsed, valid⟩
  · rintro ⟨parsed, valid⟩
    rw [parseUrnStrict_eq parsed, valid]
    rfl

end Mhda.Setters
