import Mhda.ChainKeys
import Mhda.Marshalling

set_option autoImplicit false

/-!
# Scanning for a chain

A chain key is the beginning of every NSS of its chain. A scan over stored texts
finds the addresses of a chain when it compares up to a separator; without one
it also finds the chains whose id goes on.
-/
namespace Mhda.ChainScan
open Mhda.ByteString Mhda.Errors Mhda.Detail Mhda.DetailFacts Mhda.Catalogue Mhda.Nss Mhda.KeyValue
open Mhda.NssTokens Mhda.Transition Mhda.Chains Mhda.Path Mhda.Addresses Mhda.Template Mhda.PathHistory
open Mhda.Setters Mhda.Descriptors Mhda.AddressHistory Mhda.Marshalling Mhda.ChainKeys

section Keys
variable {a b : Address} {c : Chain}

theorem keyPairs_no_colon (h : Identified c) : ∀ t ∈ tokens (keyPairs c), ch ':' ∉ t :=
  (keyPairs_wellFormed h).no_colon

theorem emitted_cons (a : Address) : ∃ rest, emitted a = keyPairs a.chain ++ rest := ⟨_, rfl⟩

theorem keyPairs_eq_iff (c c' : Chain) : keyPairs c = keyPairs c' ↔ c.network = c'.network ∧ c.chainId = c'.chainId := by
  obtain ⟨⟨network⟩, chainId, coin⟩ := c
  obtain ⟨⟨network'⟩, chainId', coin'⟩ := c'
  simp [keyPairs]

theorem key_scan (h : Identified c) (ha : AddressSound a) :
    c.key ++ [ch ':'] <+: a.nss ++ [ch ':'] ↔ c.equal a.chain = true := by
  obtain ⟨rest, written⟩ := emitted_cons a
  rw [Chain.key, str_eq, nss_eq, joinPairs_scan (by simp [keyPairs]) (by simp [emitted]) (keyPairs_no_colon h)
    (emitted_no_colon ha), equal_iff, ← keyPairs_eq_iff, written]
  constructor
  · intro starts
    exact List.IsPrefix.eq_of_length (List.prefix_of_prefix_length_le starts (List.prefix_append _ _) le_rfl) rfl
  · intro same
    rw [same]
    exact List.prefix_append _ _

theorem key_tokens (c : Chain) : c.key = compNetworkType ++ ch ':' :: (c.network.value ++ ch ':' ::
    (compChainId ++ ch ':' :: c.chainId)) := by
  rw [Chain.key, str_eq, keyPairs, joinPairs_cons]
  simp [emitPairs]

theorem nss_tokens {rest : Components} (written : emitted a = keyPairs a.chain ++ rest) :
    a.nss = compNetworkType ++ ch ':' :: (a.chain.network.value ++ ch ':' ::
      (compChainId ++ ch ':' :: (a.chain.chainId ++ emitPairs (ch ':') rest))) := by
  rw [nss_eq, written, keyPairs, List.cons_append, joinPairs_cons]
  simp [emitPairs]

theorem bare_scan (h : Identified c) (ha : AddressSound a) :
    c.key <+: a.nss ↔ c.network = a.chain.network ∧ c.chainId <+: a.chain.chainId := by
  obtain ⟨rest, written⟩ := emitted_cons a
  have keys : ch ':' ∉ compNetworkType ∧ ch ':' ∉ compChainId := by decide
  have own := keyPairs_no_colon h
  have other := emitted_no_colon ha
  have network : ch ':' ∉ c.network.value := own _ (by simp [keyPairs])
  have network' : ch ':' ∉ a.chain.network.value := other _ (by simp [emitted])
  have names : c.network.value = a.chain.network.value ↔ c.network = a.chain.network :=
    ⟨congrArg NetworkType.mk, congrArg NetworkType.value⟩
  have ids : c.chainId <+: a.chain.chainId ++ emitPairs (ch ':') rest ↔ c.chainId <+: a.chain.chainId := by
    cases rest with
    | nil => simp
    | cons p rest =>
      have separated : emitPairs (ch ':') (p :: rest) = ch ':' :: (p.1 ++ ch ':' :: p.2 ++ emitPairs (ch ':') rest) := by
        simp [emitPairs]
      rw [separated, scan_token (own _ (by simp [keyPairs]))]
  rw [key_tokens, nss_tokens written, scan_sep keys.1 keys.1, scan_sep network network', scan_sep keys.2 keys.2,
    and_iff_right rfl, and_iff_right rfl, names, ids]

theorem nss_scan (ha : AddressSound a) (hb : AddressSound b) :
    a.nss ++ [ch ':'] <+: b.nss ++ [ch ':'] ↔ emitted a <+: emitted b := by
  rw [nss_eq, nss_eq, joinPairs_scan (by simp [emitted]) (by simp [emitted]) (emitted_no_colon ha) (emitted_no_colon hb)]

end Keys

section Extraction
variable {a : Address}

theorem emittedPath_tokens {path : Option DerivationPath} (hs : ∀ p ∈ path, Sound p) :
    ∀ p ∈ emittedPath path, Token p.2 := by
  cases path with
  | none => simp [emittedPath]
  | some q =>
    intro p hp
    rcases hs q rfl with ⟨dt, blank, rfl⟩ | ⟨s, levels, fits, rfl⟩
    · rw [emittedPath_fresh] at hp
      split at hp
      · rename_i shown
        obtain rfl := List.mem_singleton.mp hp
        rcases blank with empty | valid
        · simp [empty] at shown
        · exact (type_name valid).1
      · simp at hp
    · have describes : PathDescribes (some ⟨s, levels, fits⟩) (some (concrete s levels)) := rfl
      rw [emittedPath_of_describes describes] at hp
      exact pathPairs_tokens _ p hp

theorem emitted_wellFormed (h : AddressSound a) (identified : Identified a.chain) : WellFormed (emitted a) := by
  have keys : ∀ p ∈ emitted a, Known p.1 := fun p hp => (emitted_keys a).subset (List.mem_map_of_mem hp)
  refine (wellFormed_iff_tokens keys ((emitted_keys a).nodup knownComponents_nodup)).mpr ?_
  exact forall_emitted (fun _ token => token) (network_name identified.network).1 identified.chainId
    (emittedPath_tokens (path_sound h)) h.algorithm h.format h.addressPrefix h.addressSuffix h.walletType h.walletId

theorem lookup_emitted_chain (a : Address) :
    (emitted a).lookup compNetworkType = some a.chain.network.value ∧
    (emitted a).lookup compChainId = some a.chain.chainId ∧
    (emitted a).lookup compCoinType = a.chain.coin.map fun v => Numeral.decimal v.toNat := by
  have path : (emittedPath a.path).lookup compCoinType = none := by
    have other : compCoinType ≠ compDerivationType ∧ compCoinType ≠ compDerivationPath := by decide
    cases a.path with
    | none => rfl
    | some q =>
      simp only [emittedPath]
      split_ifs
      · rw [lookup_cons_if, if_neg other.1, lookup_optPair, if_neg other.2]
      · rfl
  unfold emitted
  simp only [lookup_cons_if, List.lookup_append, lookup_optPair, path]
  simp +decide only [if_true, if_false, Option.none_or, Option.or_none, and_self]

theorem fromNss_emitted (h : AddressSound a) (identified : Identified a.chain) :
    Chain.fromNss a.nss = .ok a.chain := by
  have formed := emitted_wellFormed h identified
  obtain ⟨nt, ci, ct⟩ := lookup_emitted_chain a
  have name := network_name identified.network
  have built : Chain.buildChain (emitted a) = .ok a.chain := by
    refine (buildChain_eq_ok _ _).mpr ⟨_, _, nt, ci, ?_, identified.network, identified.chainId.2.trim.symm, ?_, ?_⟩
    · rw [name.1.2.normalize, name.2]
    · rw [identified.chainId.2.trim]
      exact identified.chainId
    · unfold CoinReads
      rw [ct]
      cases a.chain.coin with
      | none => rfl
      | some v =>
        refine ⟨v, ?_, rfl⟩
        rw [(decimal_token v.toNat).2.trim]
        exact (parseUint32_eq_some _ _).mpr (.inl (Numeral.isDecimal_decimal _))
  unfold Chain.fromNss
  rw [nss_eq, trim_eq_self formed.trimmed, parseNssMap_wellFormed formed, ok_bind, emitted_known, nt, if_neg (by simp),
    built]

end Extraction

/-- Chain keys as scan keys over the texts of addresses: with a separator behind the key and behind
    the text they find exactly their chain, a bare key also finds longer chain ids; and the chain of
    any written address with an identity is read back from the text. -/
theorem chain_keys_scan (c : Chain) (a b : Address) (hc : identities.Reachable c) (ha : addresses.Reachable a)
    (hb : addresses.Reachable b) :
    (c.key ++ lit ":" <+: a.nss ++ lit ":" ↔ c.equal a.chain = true) ∧
    (c.key <+: a.nss ↔ c.network = a.chain.network ∧ c.chainId <+: a.chain.chainId) ∧
    (a.nss ++ lit ":" <+: b.nss ++ lit ":" ↔ emitted a <+: emitted b) ∧
    (Identified a.chain → Chain.fromNss a.nss = .ok a.chain) := by
  have identified := identities_identified hc
  have sound := reachable_address_sound ha
  exact ⟨key_scan identified sound, bare_scan identified sound, nss_scan sound (reachable_address_sound hb),
    fromNss_emitted sound⟩

/-- Chain 1 against an address of chain 10 and one of its own. -/
theorem chain_keys_scan_evm :
    let c : Chain := ⟨.ethereumVm, lit "1", none⟩
    let a : Address := .ofChain ⟨.ethereumVm, lit "10", none⟩ none
    let b : Address := .ofChain ⟨.ethereumVm, lit "1", some 60⟩ none
    (c.key ++ lit ":" <+: a.nss ++ lit ":" ↔ c.equal a.chain = true) ∧
    (c.key <+: a.nss ↔ c.network = a.chain.network ∧ c.chainId <+: a.chain.chainId) ∧
    (a.nss ++ lit ":" <+: b.nss ++ lit ":" ↔ emitted a <+: emitted b) ∧
    (Identified a.chain → Chain.fromNss a.nss = .ok a.chain) := by
  intro c a b
  have one : Chain.construct .ethereumVm (lit "1") = .ok c := by decide +kernel
  have ten : Chain.construct .ethereumVm (lit "10") = .ok a.chain := by decide +kernel
  have coin : chains.Reachable b.chain := .step (.created (.construct one)) (.setCoin c 60)
  exact chain_keys_scan c a b (.created (.construct one)) (.created (.ofChain (.created (.construct ten)) (by simp)))
    (.created (.ofChain coin (by simp)))

end Mhda.ChainScan
