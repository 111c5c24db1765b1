import Mhda.AddressHistory

set_option autoImplicit false

namespace Mhda.ChainKeys
open Mhda.ByteString Mhda.Errors Mhda.Detail Mhda.DetailFacts Mhda.Catalogue Mhda.Nss Mhda.KeyValue
open Mhda.NssTokens Mhda.Transition Mhda.Chains Mhda.Setters Mhda.Descriptors Mhda.AddressHistory

structure Identified (c : Chain) : Prop where
  network : c.network.isValid = true
  chainId : Token c.chainId

def CanonicalKey (k : Bytes) : Prop :=
  ∃ n ci, k = lit "nt:" ++ n ++ lit ":ci:" ++ ci ∧ (NetworkType.mk n).isValid = true ∧ Token ci

def keyPairs (c : Chain) : Components := [(compNetworkType, c.network.value), (compChainId, c.chainId)]

theorem str_eq (c : Chain) : c.str = joinPairs (ch ':') (keyPairs c) := by
  rw [keyPairs, joinPairs_cons]
  simp [Chain.str, emitPairs, compNetworkType, compChainId, lit]

theorem keyPairs_key_known (c : Chain) : ∀ p ∈ keyPairs c, Known p.1 := by
  have keys : Known compNetworkType ∧ Known compChainId := by decide
  exact List.forall_mem_cons.mpr ⟨keys.1, List.forall_mem_singleton.mpr keys.2⟩

theorem keyPairs_wellFormed {c : Chain} (h : Identified c) : WellFormed (keyPairs c) := by
  have distinct : [compNetworkType, compChainId].Nodup := by decide
  refine (wellFormed_iff_tokens (keyPairs_key_known c) distinct).mpr ?_
  exact List.forall_mem_cons.mpr ⟨(network_name h.network).1, List.forall_mem_singleton.mpr h.chainId⟩

theorem keyPairs_known (c : Chain) : known (keyPairs c) = keyPairs c := known_eq_self (keyPairs_key_known c)

theorem lookup_keyPairs (c : Chain) : (keyPairs c).lookup compNetworkType = some c.network.value ∧
    (keyPairs c).lookup compChainId = some c.chainId ∧ (keyPairs c).lookup compCoinType = none := ⟨rfl, rfl, rfl⟩

theorem str_trimmed {c : Chain} (h : Identified c) : trim c.str = c.str := by
  rw [str_eq]
  exact trim_eq_self (keyPairs_wellFormed h).trimmed

theorem parseNssMap_str {c : Chain} (h : Identified c) : parseNssMap c.str = .ok (keyPairs c) := by
  rw [str_eq, parseNssMap_wellFormed (keyPairs_wellFormed h), keyPairs_known]

theorem buildChain_keyPairs {c : Chain} (h : Identified c) : Chain.buildChain (keyPairs c) = .ok c.clearCoin := by
  obtain ⟨nt, ci, ct⟩ := lookup_keyPairs c
  have name := network_name h.network
  refine (buildChain_eq_ok _ _).mpr ⟨_, _, nt, ci, ?_, h.network, h.chainId.2.trim.symm, ?_, ?_⟩
  · rw [name.1.2.normalize, name.2]
    rfl
  · rw [h.chainId.2.trim]
    exact h.chainId
  · unfold CoinReads
    rw [ct]
    rfl

theorem fromNss_str {c : Chain} (h : Identified c) : Chain.fromNss c.str = .ok c.clearCoin := by
  obtain ⟨nt, _, _⟩ := lookup_keyPairs c
  unfold Chain.fromNss
  rw [str_trimmed h, parseNssMap_str h, ok_bind, nt, if_neg (by simp), buildChain_keyPairs h]

/-- Accepted tokens have an odd number of colons, so the parity test refuses none of them. -/
theorem parity_passes {n : Bytes} {m : Components} (h : parseNssMap n = .ok m) :
    (!n.isEmpty && n.count (ch ':') % 2 == 0) = false := by
  obtain ⟨ps, rfl, wf, _⟩ := (parseNssMap_eq_ok n m).mp h
  by_cases empty : ps = []
  · subst empty
    rfl
  · rw [count_joinPairs (ch ':') empty wf.no_colon]
    simp

theorem fromKey_str {c : Chain} (h : Identified c) {k : Bytes} (hk : trim k = c.str) :
    Chain.fromKey k = .ok c.clearCoin := by
  obtain ⟨nt, _, ct⟩ := lookup_keyPairs c
  have parsed := parseNssMap_str h
  have only : (keyPairs c).find? (fun kv => kv.1 != compNetworkType && kv.1 != compChainId) = none := rfl
  have same : c.clearCoin.str = c.str := rfl
  unfold Chain.fromKey
  simp only [hk, parity_passes parsed, parsed, ok_bind, ct, nt, only, buildChain_keyPairs h, same,
    Option.isSome_none, Option.isNone_some, Bool.false_eq_true, if_false, ne_eq, not_true_eq_false]

theorem fromKey_eq_ok (k : Bytes) (c : Chain) :
    Chain.fromKey k = .ok c ↔ Identified c ∧ c.coin = none ∧ trim k = c.str := by
  constructor
  · intro h
    unfold Chain.fromKey at h
    simp only [guard_eq_ok, bind_eq_ok] at h
    obtain ⟨_, m, _, noCoin, rest⟩ := h
    split at rest
    · cases rest
    · simp only [guard_eq_ok, bind_eq_ok, ne_eq, not_not] at rest
      obtain ⟨_, out, built, same, result⟩ := rest
      obtain rfl := Except.ok.inj result
      obtain ⟨valid, token⟩ := buildChain_valid built
      obtain ⟨_, _, _, _, _, _, _, _, coin⟩ := (buildChain_eq_ok _ _).mp built
      have absent : m.lookup compCoinType = none := Option.not_isSome_iff_eq_none.mp noCoin
      unfold CoinReads at coin
      rw [absent] at coin
      exact ⟨⟨valid, token⟩, coin, same.symm⟩
  · rintro ⟨h, coin, hk⟩
    have bare : c.clearCoin = c := by
      unfold Chain.clearCoin
      rw [← coin]
    rw [fromKey_str h hk, bare]

/-- The dedicated code comes before every other refusal of an accepted token list. -/
theorem fromKey_coin {k : Bytes} {m : Components} (h : parseNssMap (trim k) = .ok m)
    (hc : (m.lookup compCoinType).isSome = true) : Chain.fromKey k = .error (.bare .coinTypeInChainKey) := by
  unfold Chain.fromKey
  simp only [parity_passes h, h, hc, ok_bind, Bool.false_eq_true, if_false, if_true]

theorem canonicalKey_iff (k : Bytes) : CanonicalKey k ↔ ∃ c, Identified c ∧ c.coin = none ∧ k = c.str := by
  constructor
  · rintro ⟨n, ci, rfl, valid, token⟩
    exact ⟨⟨⟨n⟩, ci, none⟩, ⟨valid, token⟩, rfl, rfl⟩
  · rintro ⟨c, h, _, rfl⟩
    exact ⟨c.network.value, c.chainId, rfl, h.network, h.chainId⟩

theorem fromKey_accepts (k : Bytes) : (∃ c, Chain.fromKey k = .ok c) ↔ CanonicalKey (trim k) := by
  rw [canonicalKey_iff]
  exact exists_congr fun c => fromKey_eq_ok k c

theorem equal_iff (c c' : Chain) : c.equal c' = true ↔ c.network = c'.network ∧ c.chainId = c'.chainId := by
  simp [Chain.equal]

theorem key_eq_iff {c c' : Chain} (h : Identified c) (h' : Identified c') :
    c.key = c'.key ↔ c.network = c'.network ∧ c.chainId = c'.chainId := by
  constructor
  · intro same
    have read := fromKey_str h (str_trimmed h)
    have read' := fromKey_str h' (str_trimmed h')
    have keys : c.str = c'.str := same
    rw [keys, read'] at read
    have chains := Except.ok.inj read
    exact ⟨(congrArg Chain.network chains).symm, (congrArg Chain.chainId chains).symm⟩
  · rintro ⟨network, chainId⟩
    unfold Chain.key Chain.str
    rw [network, chainId]

section Histories

/-- The chains that come from the two-argument constructor or from a parser. -/
inductive Given : Chain → Prop where
  | construct {nt : NetworkType} {ci : Bytes} {c : Chain} (h : Chain.construct nt ci = .ok c) : Given c
  | fromNss {nss : Bytes} {c : Chain} (h : Chain.fromNss nss = .ok c) : Given c
  | fromKey {key : Bytes} {c : Chain} (h : Chain.fromKey key = .ok c) : Given c
  | parseUrn {s : Bytes} {a : Addresses.Address} (h : Parser.parseUrn s = .ok a) : Given a.chain
  | parseUrnStrict {s : Bytes} {a : Addresses.Address} (h : Parser.parseUrnStrict s = .ok a) : Given a.chain
  | parseNss {s : Bytes} {a : Addresses.Address} (h : Parser.parseNss s = .ok a) : Given a.chain

def identities : System Chain := ⟨Given, ChainStep⟩

theorem Identified.of_valid {c : Chain} (h : c.network.isValid = true ∧ Token c.chainId) : Identified c := ⟨h.1, h.2⟩

theorem descriptor_identified (d : Descriptor) : Identified d.toAddress.chain :=
  ⟨d.network_registered, d.chainId_token⟩

theorem given_identified (c : Chain) (h : Given c) : Identified c := by
  cases h with
  | construct h => exact .of_valid (construct_valid h)
  | fromNss h => exact .of_valid (fromNss_valid h)
  | fromKey h => exact .of_valid (fromKey_valid h)
  | parseUrn h =>
    obtain ⟨d, rfl⟩ := Decoding.parseUrn_descriptor h
    exact descriptor_identified d
  | parseUrnStrict h =>
    obtain ⟨d, rfl⟩ := Decoding.parseUrn_descriptor ((parseUrnStrict_iff _ _).mp h).1
    exact descriptor_identified d
  | parseNss h =>
    obtain ⟨d, rfl⟩ := Decoding.parseNss_descriptor h
    exact descriptor_identified d

theorem step_identified (c c' : Chain) (h : Identified c) (call : ChainStep c c') : Identified c' := by
  obtain ⟨network, chainId⟩ := chainStep_halves call
  constructor
  · rcases network with same | valid
    · rw [same]
      exact h.network
    · exact valid
  · rcases chainId with same | token
    · rw [same]
      exact h.chainId
    · exact token

theorem identities_identified {c : Chain} (h : identities.Reachable c) : Identified c :=
  h.invariant Identified given_identified step_identified

end Histories

/-- Chain keys are the canonical identities, and they name the chains. -/
theorem chain_keys_canonical (k : Bytes) (c c' : Chain) (hc : identities.Reachable c)
    (hc' : identities.Reachable c') :
    ((∃ out, Chain.fromKey k = .ok out) ↔ CanonicalKey (trim k)) ∧
    (∀ out, Chain.fromKey k = .ok out → out.key = trim k ∧ out.coin = none) ∧
    Chain.fromKey c.key = .ok c.clearCoin ∧ Chain.fromNss c.key = .ok c.clearCoin ∧
    c.clearCoin.equal c = true ∧ c.clearCoin.coin = none ∧
    (c.equal c' = true ↔ c.key = c'.key) ∧
    (∀ m, parseNssMap (trim k) = .ok m → (m.lookup compCoinType).isSome = true →
      outcome (Chain.fromKey k) = .error .coinTypeInChainKey) := by
  have h := identities_identified hc
  have h' := identities_identified hc'
  refine ⟨fromKey_accepts k, ?_, fromKey_str h (str_trimmed h), fromNss_str h, ?_, rfl, ?_, ?_⟩
  · intro out hk
    obtain ⟨_, coin, text⟩ := (fromKey_eq_ok k out).mp hk
    exact ⟨text.symm, coin⟩
  · exact (equal_iff _ _).mpr ⟨rfl, rfl⟩
  · rw [equal_iff, key_eq_iff h h']
  · intro m hm coin
    rw [fromKey_coin hm coin]
    rfl

def evmChain : Chain := (⟨.ethereumVm, lit "1", none⟩ : Chain).setCoin 60
def renamedChain : Chain := ((⟨.ethereumVm, lit "1", none⟩ : Chain).setChainId (lit " 10 ")).state

theorem evmChain_reachable : identities.Reachable evmChain ∧ identities.Reachable renamedChain := by
  have made : Chain.construct .ethereumVm (lit "1") = .ok ⟨.ethereumVm, lit "1", none⟩ := by decide +kernel
  exact ⟨.step (.created (.construct made)) (.setCoin _ _), .step (.created (.construct made)) (.setChainId _ _)⟩

theorem evmChain_keys :
    ((∃ out, Chain.fromKey (lit "nt:evm:ci:1") = .ok out) ↔ CanonicalKey (trim (lit "nt:evm:ci:1"))) ∧
    (∀ out, Chain.fromKey (lit "nt:evm:ci:1") = .ok out →
      out.key = trim (lit "nt:evm:ci:1") ∧ out.coin = none) ∧
    Chain.fromKey evmChain.key = .ok evmChain.clearCoin ∧ Chain.fromNss evmChain.key = .ok evmChain.clearCoin ∧
    evmChain.clearCoin.equal evmChain = true ∧ evmChain.clearCoin.coin = none ∧
    (evmChain.equal renamedChain = true ↔ evmChain.key = renamedChain.key) ∧
    (∀ m, parseNssMap (trim (lit "nt:evm:ci:1")) = .ok m → (m.lookup compCoinType).isSome = true →
      outcome (Chain.fromKey (lit "nt:evm:ci:1")) = .error .coinTypeInChainKey) :=
  chain_keys_canonical _ _ _ evmChain_reachable.1 evmChain_reachable.2

end Mhda.ChainKeys
