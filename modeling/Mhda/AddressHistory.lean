import Mhda.Decoding

set_option autoImplicit false

namespace Mhda.AddressHistory
open Mhda.ByteString Mhda.Errors Mhda.Detail Mhda.DetailFacts Mhda.Catalogue Mhda.Nss Mhda.Transition
open Mhda.Chains Mhda.Path Mhda.Addresses Mhda.Parser Mhda.Template Mhda.PathHistory Mhda.Setters
open Mhda.Descriptors Mhda.Decoding

section ChainCalls

inductive ChainCreated : Chain → Prop where
  | init : ChainCreated .init
  | construct {nt : NetworkType} {ci : Bytes} {c : Chain} (h : Chain.construct nt ci = .ok c) : ChainCreated c
  | fromNss {nss : Bytes} {c : Chain} (h : Chain.fromNss nss = .ok c) : ChainCreated c
  | fromKey {key : Bytes} {c : Chain} (h : Chain.fromKey key = .ok c) : ChainCreated c

inductive ChainStep : Chain → Chain → Prop where
  | setNetwork (c : Chain) (nt : NetworkType) : ChainStep c (c.setNetwork nt).state
  | setChainId (c : Chain) (ci : Bytes) : ChainStep c (c.setChainId ci).state
  | setCoin (c : Chain) (ct : UInt32) : ChainStep c (c.setCoin ct)
  | clearCoin (c : Chain) : ChainStep c c.clearCoin

def chains : System Chain := ⟨ChainCreated, ChainStep⟩

/-- Each half of the identity is missing or fit to be written. -/
structure ChainSound (c : Chain) : Prop where
  network : c.network.value = [] ∨ c.network.isValid = true
  chainId : c.chainId = [] ∨ Token c.chainId

section Identity
variable {c : Chain}

theorem construct_valid {nt : NetworkType} {ci : Bytes} (h : Chain.construct nt ci = .ok c) :
    c.network.isValid = true ∧ Token c.chainId := by
  obtain ⟨hv, ht, rfl⟩ := (construct_eq_ok _ _ _).mp h
  exact ⟨hv, ht⟩

theorem buildChain_valid {m : Components} (h : Chain.buildChain m = .ok c) :
    c.network.isValid = true ∧ Token c.chainId := by
  obtain ⟨_, _, _, _, _, hv, hid, ht, _⟩ := (buildChain_eq_ok _ _).mp h
  exact ⟨hv, hid ▸ ht⟩

theorem fromNss_valid {nss : Bytes} (h : Chain.fromNss nss = .ok c) :
    c.network.isValid = true ∧ Token c.chainId := by
  unfold Chain.fromNss at h
  obtain ⟨m, _, hm⟩ := bind_eq_ok.mp h
  exact buildChain_valid (guard_eq_ok.mp hm).2

theorem fromKey_valid {key : Bytes} (h : Chain.fromKey key = .ok c) :
    c.network.isValid = true ∧ Token c.chainId := by
  unfold Chain.fromKey at h
  simp only [guard_eq_ok, bind_eq_ok] at h
  obtain ⟨_, m, _, _, hm⟩ := h
  split at hm
  · cases hm
  · simp only [guard_eq_ok, bind_eq_ok] at hm
    obtain ⟨_, out, hout, _, hc⟩ := hm
    obtain rfl := Except.ok.inj hc
    exact buildChain_valid hout

/-- A call replaces a half of the identity by a valid one or leaves it alone. -/
theorem chainStep_halves {c' : Chain} (call : ChainStep c c') :
    (c'.network = c.network ∨ c'.network.isValid = true) ∧ (c'.chainId = c.chainId ∨ Token c'.chainId) := by
  cases call with
  | setNetwork nt =>
    rw [setNetwork_eq]
    split
    · rename_i hv
      exact ⟨.inr hv, .inl rfl⟩
    · exact ⟨.inl rfl, .inl rfl⟩
  | setChainId ci =>
    by_cases ht : Token (trim ci)
    · rw [setChainId_eq_done c ht]
      exact ⟨.inl rfl, .inr ht⟩
    · obtain ⟨e, he⟩ := setChainId_refuses c ht
      rw [he]
      exact ⟨.inl rfl, .inl rfl⟩
  | setCoin ct => exact ⟨.inl rfl, .inl rfl⟩
  | clearCoin => exact ⟨.inl rfl, .inl rfl⟩

end Identity

theorem ChainSound.of_valid {c : Chain} (h : c.network.isValid = true ∧ Token c.chainId) : ChainSound c :=
  ⟨.inr h.1, .inr h.2⟩

theorem chainCreated_sound (c : Chain) (h : ChainCreated c) : ChainSound c := by
  cases h with
  | init => exact ⟨.inl rfl, .inl rfl⟩
  | construct h => exact .of_valid (construct_valid h)
  | fromNss h => exact .of_valid (fromNss_valid h)
  | fromKey h => exact .of_valid (fromKey_valid h)

theorem chainStep_sound (c c' : Chain) (h : ChainSound c) (call : ChainStep c c') : ChainSound c' := by
  obtain ⟨network, chainId⟩ := chainStep_halves call
  constructor
  · rcases network with same | valid
    · rw [same]
      exact h.network
    · exact .inr valid
  · rcases chainId with same | token
    · rw [same]
      exact h.chainId
    · exact .inr token

theorem reachable_chain_sound {c : Chain} (h : chains.Reachable c) : ChainSound c :=
  h.invariant ChainSound chainCreated_sound chainStep_sound

end ChainCalls

section AddressCalls

inductive AddressCreated : Address → Prop where
  | init : AddressCreated .init
  | ofChain {c : Chain} {path : Option DerivationPath} (hc : chains.Reachable c)
      (hp : ∀ p ∈ path, paths.Reachable p) : AddressCreated (.ofChain c path)
  | construct {c : Chain} {path : Option DerivationPath} {aa af ap as_ : Bytes} {a : Address}
      (hc : chains.Reachable c) (hp : ∀ p ∈ path, paths.Reachable p)
      (h : Address.construct c path aa af ap as_ = .ok a) : AddressCreated a
  | parseUrn {s : Bytes} {a : Address} (h : Parser.parseUrn s = .ok a) : AddressCreated a
  | parseUrnStrict {s : Bytes} {a : Address} (h : Parser.parseUrnStrict s = .ok a) : AddressCreated a
  | parseNss {s : Bytes} {a : Address} (h : Parser.parseNss s = .ok a) : AddressCreated a

/-- The calls of the class, and what a caller does through the two references. -/
inductive AddressStep : Address → Address → Prop where
  | setDerivationType (a : Address) (dt : Bytes) : AddressStep a (a.setDerivationType dt).state
  | setDerivationPath (a : Address) (dp : Bytes) : AddressStep a (a.setDerivationPath dp).state
  | setDerivation (a : Address) (dt dp : Bytes) : AddressStep a (a.setDerivation dt dp).state
  | setCoinType (a : Address) (ct : Bytes) : AddressStep a (a.setCoinType ct).state
  | setAddressAlgorithm (a : Address) (aa : Bytes) : AddressStep a (a.setAddressAlgorithm aa).state
  | setAddressFormat (a : Address) (af : Bytes) : AddressStep a (a.setAddressFormat af).state
  | setAddressPrefix (a : Address) (ap : Bytes) : AddressStep a (a.setAddressPrefix ap).state
  | setAddressSuffix (a : Address) (as_ : Bytes) : AddressStep a (a.setAddressSuffix as_).state
  | setWalletType (a : Address) (wt : Bytes) : AddressStep a (a.setWalletType wt).state
  | setWalletId (a : Address) (wi : Bytes) : AddressStep a (a.setWalletId wi).state
  | unmarshalText (a : Address) (data : Bytes) : AddressStep a (Parser.unmarshalText a data).state
  | callChain (a : Address) {c : Chain} (call : ChainStep a.chain c) : AddressStep a { a with chain := c }
  | assignChain (a : Address) {c : Chain} (hc : chains.Reachable c) : AddressStep a { a with chain := c }
  | callPath (a : Address) {p q : DerivationPath} (hp : a.path = some p) (call : PathHistory.Step p q) :
      AddressStep a { a with path := some q }
  | assignPath (a : Address) {path : Option DerivationPath} (hp : ∀ p ∈ path, paths.Reachable p) :
      AddressStep a { a with path := path }

def addresses : System Address := ⟨AddressCreated, AddressStep⟩

structure AddressSound (a : Address) : Prop where
  chain : chains.Reachable a.chain
  path : ∀ p ∈ a.path, paths.Reachable p
  algorithm : AlgorithmOk a.algorithm
  format : FormatOk a.format
  addressPrefix : NssText a.addressPrefix
  addressSuffix : NssText a.addressSuffix
  walletType : NssText a.walletType
  walletId : NssText a.walletId

theorem AddressSound.withPath {a : Address} (h : AddressSound a) {p : DerivationPath} (hp : paths.Reachable p) :
    AddressSound { a with path := some p } := by
  refine ⟨h.chain, ?_, h.algorithm, h.format, h.addressPrefix, h.addressSuffix, h.walletType, h.walletId⟩
  intro q hq
  obtain rfl := Option.some.inj hq
  exact hp

theorem AddressSound.withChain {a : Address} (h : AddressSound a) {c : Chain} (hc : chains.Reachable c) :
    AddressSound { a with chain := c } :=
  ⟨hc, h.path, h.algorithm, h.format, h.addressPrefix, h.addressSuffix, h.walletType, h.walletId⟩

theorem AddressSound.attached {a : Address} (h : AddressSound a) : paths.Reachable (a.path.getD .init) := by
  cases hp : a.path with
  | none => exact .created .init
  | some p => exact h.path p hp

theorem ofChain_sound {c : Chain} {path : Option DerivationPath} (hc : chains.Reachable c)
    (hp : ∀ p ∈ path, paths.Reachable p) : AddressSound (.ofChain c path) := by
  have empty : NssText [] := by simp [NssText]
  exact ⟨hc, hp, .inl rfl, .inl rfl, empty, empty, empty, empty⟩

theorem setAddressAlgorithm_sound {a : Address} (h : AddressSound a) (aa : Bytes) :
    AddressSound (a.setAddressAlgorithm aa).state := by
  rw [setAddressAlgorithm_eq]
  split
  · rename_i ok
    exact ⟨h.chain, h.path, ok, h.format, h.addressPrefix, h.addressSuffix, h.walletType, h.walletId⟩
  · exact h

theorem setAddressFormat_sound {a : Address} (h : AddressSound a) (af : Bytes) :
    AddressSound (a.setAddressFormat af).state := by
  rw [setAddressFormat_eq]
  split
  · rename_i ok
    exact ⟨h.chain, h.path, h.algorithm, ok, h.addressPrefix, h.addressSuffix, h.walletType, h.walletId⟩
  · exact h

theorem setFreeForm_sound {component : Bytes} {put : Bytes → Address} {a : Address} (h : AddressSound a)
    (hput : ∀ v, NssText v → AddressSound (put v)) (v : Bytes) :
    AddressSound (Address.setFreeForm component put a v).state := by
  rw [setFreeForm_eq]
  split
  · rename_i text
    exact hput _ text
  · exact h

theorem setAddressPrefix_sound {a : Address} (h : AddressSound a) (ap : Bytes) :
    AddressSound (a.setAddressPrefix ap).state := by
  unfold Address.setAddressPrefix
  refine setFreeForm_sound h ?_ ap
  intro v hv
  exact ⟨h.chain, h.path, h.algorithm, h.format, hv, h.addressSuffix, h.walletType, h.walletId⟩

theorem setAddressSuffix_sound {a : Address} (h : AddressSound a) (as_ : Bytes) :
    AddressSound (a.setAddressSuffix as_).state := by
  unfold Address.setAddressSuffix
  refine setFreeForm_sound h ?_ as_
  intro v hv
  exact ⟨h.chain, h.path, h.algorithm, h.format, h.addressPrefix, hv, h.walletType, h.walletId⟩

theorem setWalletType_sound {a : Address} (h : AddressSound a) (wt : Bytes) :
    AddressSound (a.setWalletType wt).state := by
  unfold Address.setWalletType
  refine setFreeForm_sound h ?_ wt
  intro v hv
  exact ⟨h.chain, h.path, h.algorithm, h.format, h.addressPrefix, h.addressSuffix, hv, h.walletId⟩

theorem setWalletId_sound {a : Address} (h : AddressSound a) (wi : Bytes) :
    AddressSound (a.setWalletId wi).state := by
  unfold Address.setWalletId
  refine setFreeForm_sound h ?_ wi
  intro v hv
  exact ⟨h.chain, h.path, h.algorithm, h.format, h.addressPrefix, h.addressSuffix, h.walletType, hv⟩

theorem setCoinType_sound {a : Address} (h : AddressSound a) (ct : Bytes) :
    AddressSound (a.setCoinType ct).state := by
  unfold Address.setCoinType
  simp only
  split
  · exact h.withChain (.step h.chain (.clearCoin _))
  · split
    · exact h
    · exact h.withChain (.step h.chain (.setCoin _ _))

theorem setDerivationType_sound {a : Address} (h : AddressSound a) (dt : Bytes) :
    AddressSound (a.setDerivationType dt).state := by
  unfold Address.setDerivationType
  simp only
  split
  · exact h
  · exact h.withPath (.step h.attached (.setType _ _))

theorem setDerivationPath_sound {a : Address} (h : AddressSound a) (dp : Bytes) :
    AddressSound (a.setDerivationPath dp).state := by
  have attached := h.withPath h.attached
  unfold Address.setDerivationPath
  simp only
  split
  · split
    · exact attached
    · exact attached
  · exact h.withPath (.step h.attached (.parsePath _ _))

theorem setDerivation_sound {a : Address} (h : AddressSound a) (dt dp : Bytes) :
    AddressSound (a.setDerivation dt dp).state := by
  cases hr : (a.setDerivation dt dp).result with
  | ok b =>
    obtain ⟨state, _⟩ := After.result_eq_ok.mp hr
    obtain ⟨q, hq, rfl⟩ := (setDerivation_eq_ok _ _ _ _).mp hr
    rw [state]
    exact h.withPath (.created (.parse hq))
  | error e =>
    -- the scratch address is thrown away
    have kept : (a.setDerivation dt dp).state = a := by
      unfold Address.setDerivation at hr ⊢
      rw [After.result_commit] at hr
      rw [hr]
      rfl
    rw [kept]
    exact h

theorem descriptor_sound (d : Descriptor) : AddressSound d.toAddress := by
  have token := d.chainId_token
  have made : chains.Reachable ⟨d.network, d.chainId, none⟩ := by
    refine .created (.construct ((construct_eq_ok d.network d.chainId _).mpr ⟨d.network_registered, ?_, ?_⟩))
    · rw [token.2.trim]
      exact token
    · rw [token.2.trim]
  have chain : chains.Reachable ⟨d.network, d.chainId, d.coin⟩ := by
    cases d.coin with
    | none => exact made
    | some v => exact .step made (.setCoin _ v)
  have path : paths.Reachable (pathOf d.path) := by
    cases d.path with
    | none => exact .created (.parse ((parse_root _ _).mpr ⟨rfl, rfl⟩))
    | some p => exact .created (.parse (PathParse.parse_renderPath p.fits))
  refine ⟨chain, ?_, d.algorithm_ok, d.format_ok, d.addressPrefix_text, d.addressSuffix_text,
    d.walletType_text, d.walletId_text⟩
  intro p hp
  obtain rfl := Option.some.inj hp
  exact path

theorem parseUrn_sound {s : Bytes} {a : Address} (h : Parser.parseUrn s = .ok a) : AddressSound a := by
  obtain ⟨d, rfl⟩ := parseUrn_descriptor h
  exact descriptor_sound d

theorem parseNss_sound {s : Bytes} {a : Address} (h : Parser.parseNss s = .ok a) : AddressSound a := by
  obtain ⟨d, rfl⟩ := parseNss_descriptor h
  exact descriptor_sound d

theorem sound_of_result {x : After Address ParseError} {b : Address} (h : AddressSound x.state)
    (hr : x.result = .ok b) : AddressSound b := by
  rw [← (After.result_eq_ok.mp hr).1]
  exact h

theorem ifGiven_sound {a b : Address} {v : Bytes} {call : After Address ParseError} (ha : AddressSound a)
    (hc : AddressSound call.state) (h : a.ifGiven v call = .ok b) : AddressSound b := by
  unfold Address.ifGiven at h
  split at h
  · exact sound_of_result hc h
  · exact Except.ok.inj h ▸ ha

theorem construct_sound {c : Chain} {path : Option DerivationPath} {aa af ap as_ : Bytes} {a : Address}
    (hc : chains.Reachable c) (hp : ∀ p ∈ path, paths.Reachable p)
    (h : Address.construct c path aa af ap as_ = .ok a) : AddressSound a := by
  unfold Address.construct at h
  simp only [bind_eq_ok] at h
  obtain ⟨b₁, h₁, b₂, h₂, b₃, h₃, h₄⟩ := h
  have s₀ := ofChain_sound hc hp
  have s₁ := ifGiven_sound s₀ (setAddressAlgorithm_sound s₀ aa) h₁
  have s₂ := ifGiven_sound s₁ (setAddressFormat_sound s₁ af) h₂
  have s₃ := ifGiven_sound s₂ (setAddressPrefix_sound s₂ ap) h₃
  exact ifGiven_sound s₃ (setAddressSuffix_sound s₃ as_) h₄

theorem addressCreated_sound (a : Address) (h : AddressCreated a) : AddressSound a := by
  cases h with
  | init => exact ofChain_sound (.created .init) (by simp)
  | ofChain hc hp => exact ofChain_sound hc hp
  | construct hc hp h => exact construct_sound hc hp h
  | parseUrn h => exact parseUrn_sound h
  | parseUrnStrict h => exact parseUrn_sound ((parseUrnStrict_iff _ _).mp h).1
  | parseNss h => exact parseNss_sound h

theorem addressStep_sound (a a' : Address) (h : AddressSound a) (call : AddressStep a a') : AddressSound a' := by
  cases call with
  | setDerivationType dt => exact setDerivationType_sound h dt
  | setDerivationPath dp => exact setDerivationPath_sound h dp
  | setDerivation dt dp => exact setDerivation_sound h dt dp
  | setCoinType ct => exact setCoinType_sound h ct
  | setAddressAlgorithm aa => exact setAddressAlgorithm_sound h aa
  | setAddressFormat af => exact setAddressFormat_sound h af
  | setAddressPrefix ap => exact setAddressPrefix_sound h ap
  | setAddressSuffix as_ => exact setAddressSuffix_sound h as_
  | setWalletType wt => exact setWalletType_sound h wt
  | setWalletId wi => exact setWalletId_sound h wi
  | unmarshalText data =>
    rcases After.commit_state a (Parser.parseUrn data) with kept | parsed
    · rw [Parser.unmarshalText, kept]
      exact h
    · exact parseUrn_sound parsed
  | callChain call => exact h.withChain (.step h.chain call)
  | assignChain hc => exact h.withChain hc
  | callPath hp call => exact h.withPath (.step (h.path _ hp) call)
  | assignPath hp =>
    exact ⟨h.chain, hp, h.algorithm, h.format, h.addressPrefix, h.addressSuffix, h.walletType, h.walletId⟩

theorem reachable_address_sound {a : Address} (h : addresses.Reachable a) : AddressSound a :=
  h.invariant AddressSound addressCreated_sound addressStep_sound

end AddressCalls

end Mhda.AddressHistory
