import Mhda.AddressHistory
import Mhda.Validation

set_option autoImplicit false

namespace Mhda.Marshalling
open Mhda.ByteString Mhda.Errors Mhda.Detail Mhda.DetailFacts Mhda.Numeral Mhda.Catalogue Mhda.Nss
open Mhda.KeyValue Mhda.NssTokens Mhda.Transition Mhda.Chains Mhda.Path Mhda.Addresses Mhda.Parser
open Mhda.Template Mhda.PathHistory Mhda.Setters Mhda.Descriptors Mhda.Decoding Mhda.AddressHistory
open Mhda.Validation

def pathLevels (a : Address) : List AddressIndex := (a.path.map DerivationPath.levels).getD []
def pathStr (a : Address) : Bytes := (a.path.map DerivationPath.str).getD []

section Complete

theorem path_describes {path : Option DerivationPath} (hs : ∀ p ∈ path, Sound p)
    (hp : ∀ p ∈ path, p.type.isEmpty = true ∨ p.type = .root ∨ p.levels ≠ []) :
    ∃ p, PathDescribes p path := by
  cases path with
  | none => exact ⟨none, trivial⟩
  | some q =>
    rcases hs q rfl with ⟨dt, _, rfl⟩ | ⟨s, levels, fits, rfl⟩
    · refine ⟨none, ?_⟩
      rcases hp _ rfl with he | hr | hl
      · exact .inl he
      · exact .inr hr
      · exact absurd rfl hl
    · exact ⟨some ⟨s, levels, fits⟩, rfl⟩

theorem path_sound {a : Address} (h : AddressSound a) : ∀ p ∈ a.path, Sound p :=
  fun p hp => reachable_sound (h.path p hp)

theorem describe {a : Address} (h : AddressSound a) (hn : a.chain.network.value ≠ [])
    (hc : a.chain.chainId ≠ []) (hp : PathSet a) : ∃ d, Describes d a := by
  have chain := reachable_chain_sound h.chain
  obtain ⟨p, path⟩ := path_describes (path_sound h) hp
  exact ⟨⟨a.chain.network, a.chain.chainId, a.chain.coin, p, a.algorithm, a.format, a.addressPrefix,
    a.addressSuffix, a.walletType, a.walletId, chain.network.resolve_left hn, chain.chainId.resolve_left hc,
    h.algorithm, h.format, h.addressPrefix, h.addressSuffix, h.walletType, h.walletId⟩,
    rfl, path, rfl, rfl, rfl, rfl, rfl, rfl⟩

theorem describes_path {d : Descriptor} {a : Address} (h : Describes d a) (hs : ∀ p ∈ a.path, Sound p) :
    d.toAddress.getDerivationType = a.getDerivationType ∧ pathLevels d.toAddress = pathLevels a ∧
      pathStr d.toAddress = pathStr a := by
  have hp := h.path
  unfold Address.getDerivationType pathLevels pathStr
  rw [show d.toAddress.path = some (pathOf d.path) from rfl]
  cases ha : a.path with
  | none =>
    cases hd : d.path with
    | none => exact ⟨rfl, rfl, rfl⟩
    | some p =>
      rw [ha, hd] at hp
      exact hp.elim
  | some q =>
    cases hd : d.path with
    | some p =>
      rw [ha, hd] at hp
      obtain rfl : q = p.toDerivationPath := hp
      exact ⟨rfl, rfl, rfl⟩
    | none =>
      rw [ha, hd] at hp
      rcases hs q ha with ⟨dt, _, rfl⟩ | ⟨s, levels, fits, rfl⟩
      · rcases hp with he | hr
        · refine ⟨?_, rfl, rfl⟩
          simp only
          rw [if_pos he]
          rfl
        · obtain rfl : dt = .root := hr
          exact ⟨rfl, rfl, rfl⟩
      · rcases hp with he | hr
        · rw [concrete_type, s.type_ne_empty] at he
          cases he
        · rw [concrete_type] at hr
          exact absurd hr s.type_ne_root

/-- A complete address survives writing and parsing, with everything its accessors show. -/
theorem reachable_round_trip (a : Address) (h : addresses.Reachable a)
    (hn : a.chain.network.value ≠ []) (hc : a.chain.chainId ≠ []) (hp : PathSet a) :
    ∃ b, parseUrn a.str = .ok b ∧ b.chain.network = a.chain.network ∧ b.chain.chainId = a.chain.chainId ∧
      b.chain.coin = a.chain.coin ∧ b.getDerivationType = a.getDerivationType ∧
      pathLevels b = pathLevels a ∧ pathStr b = pathStr a ∧ b.algorithm = a.algorithm ∧
      b.format = a.format ∧ b.addressPrefix = a.addressPrefix ∧ b.addressSuffix = a.addressSuffix ∧
      b.walletType = a.walletType ∧ b.walletId = a.walletId := by
  have sound := reachable_address_sound h
  obtain ⟨d, hd⟩ := describe sound hn hc hp
  obtain ⟨type, levels, str⟩ := describes_path hd (path_sound sound)
  refine ⟨d.toAddress, ?_, ?_, ?_, ?_, type, levels, str, hd.algorithm.symm, hd.format.symm,
    hd.addressPrefix.symm, hd.addressSuffix.symm, hd.walletType.symm, hd.walletId.symm⟩
  · rw [str_of_describes hd, parseUrn_render]
  · rw [hd.chain]
    rfl
  · rw [hd.chain]
    rfl
  · rw [hd.chain]
    rfl

/-- An address built call by call; the last call throws. -/
def builtAddress : Address :=
  let a := { Address.init with chain := (Chain.init.setNetwork .ethereumVm).state }
  let a := { a with chain := (a.chain.setChainId (lit " 1 ")).state }
  let a := (a.setDerivation (lit "BIP44") (lit "m/44'/60h/0H/0/7")).state
  let a := (a.setWalletType (lit "web3")).state
  (a.setWalletId (lit "w1:ap:x")).state

theorem builtAddress_reachable : addresses.Reachable builtAddress :=
  .step (.step (.step (.step (.step (.created .init) (.callChain _ (.setNetwork _ _)))
    (.callChain _ (.setChainId _ _))) (.setDerivation _ _ _)) (.setWalletType _ _)) (.setWalletId _ _)

theorem builtAddress_round_trip :
    ∃ b, parseUrn builtAddress.str = .ok b ∧ b.chain.network = builtAddress.chain.network ∧
      b.chain.chainId = builtAddress.chain.chainId ∧ b.chain.coin = builtAddress.chain.coin ∧
      b.getDerivationType = builtAddress.getDerivationType ∧ pathLevels b = pathLevels builtAddress ∧
      pathStr b = pathStr builtAddress ∧ b.algorithm = builtAddress.algorithm ∧
      b.format = builtAddress.format ∧ b.addressPrefix = builtAddress.addressPrefix ∧
      b.addressSuffix = builtAddress.addressSuffix ∧ b.walletType = builtAddress.walletType ∧
      b.walletId = builtAddress.walletId :=
  reachable_round_trip builtAddress builtAddress_reachable (by decide) (by decide) (by decide)

end Complete

section Guards

theorem emittedPath_fresh (dt : DerivationType) :
    emittedPath (some (DerivationPath.fresh dt)) =
      if !dt.isEmpty && dt != .root then [(compDerivationType, dt.value)] else [] := rfl

theorem emittedPath_text {path : Option DerivationPath} (hs : ∀ p ∈ path, Sound p) :
    ∀ p ∈ emittedPath path, NssText p.2 := by
  cases path with
  | none => simp [emittedPath]
  | some q =>
    intro p hp
    rcases hs q rfl with ⟨dt, hdt, rfl⟩ | ⟨s, levels, fits, rfl⟩
    · rw [emittedPath_fresh] at hp
      split at hp
      · rename_i shown
        rw [List.mem_singleton] at hp
        subst hp
        rcases hdt with he | hv
        · simp [he] at shown
        · exact (type_name hv).1.2
      · simp at hp
    · have describes : PathDescribes (some ⟨s, levels, fits⟩) (some (concrete s levels)) := rfl
      rw [emittedPath_of_describes describes] at hp
      exact (pathPairs_tokens _ p hp).2

theorem emitted_text {a : Address} (h : AddressSound a) : ∀ p ∈ emitted a, NssText p.1 ∧ NssText p.2 := by
  have keys : ∀ k ∈ knownComponents, NssText k := by decide +kernel
  have empty : NssText [] := by simp [NssText]
  have chain := reachable_chain_sound h.chain
  have network : NssText a.chain.network.value := by
    rcases chain.network with he | hv
    · rw [he]
      exact empty
    · exact (network_name hv).1.2
  have chainId : NssText a.chain.chainId := by
    rcases chain.chainId with he | ht
    · rw [he]
      exact empty
    · exact ht.2
  have values := forall_emitted (fun _ ht => ht.2) network chainId (emittedPath_text (path_sound h))
    h.algorithm h.format h.addressPrefix h.addressSuffix h.walletType h.walletId
  intro p hp
  exact ⟨keys _ ((emitted_keys a).subset (List.mem_map_of_mem hp)), values p hp⟩

theorem emitted_no_colon {a : Address} (h : AddressSound a) : ∀ t ∈ tokens (emitted a), ch ':' ∉ t := by
  intro t ht
  obtain ⟨p, hp, rfl | rfl⟩ := mem_tokens.mp ht
  · exact (emitted_text h p hp).1.no_colon
  · exact (emitted_text h p hp).2.no_colon

theorem parseUrn_str {a : Address} (h : AddressSound a) : parseUrn a.str = parseAddressNss a.nss := by
  apply parseUrn_plain
  rw [nss_eq]
  intro c hc
  rcases mem_joinPairs hc with rfl | ⟨t, ht, hct⟩
  · exact .inl rfl
  · obtain ⟨p, hp, rfl | rfl⟩ := mem_tokens.mp ht
    · exact .inr ((emitted_text h p hp).1 c hct)
    · exact .inr ((emitted_text h p hp).2 c hct)

theorem parseUrn_emitted {a b : Address} (h : AddressSound a) (hb : parseUrn a.str = .ok b) :
    WellFormed (emitted a) ∧ ∃ d, Decodes (emitted a) d := by
  rw [parseUrn_str h, nss_eq] at hb
  obtain ⟨ps, d, text, hw, hd, _⟩ := (parseAddressNss_eq_ok _ _).mp hb
  have same : emitted a = ps := joinPairs_injective (ch ':') (emitted_no_colon h) hw.no_colon text
  subst same
  rw [emitted_known] at hd
  exact ⟨hw, d, hd⟩

theorem lookup_emitted_path (a : Address) {k : Bytes} (hk : k = compDerivationType ∨ k = compDerivationPath) :
    (emitted a).lookup k = (emittedPath a.path).lookup k := by
  unfold emitted
  simp only [lookup_cons_if, List.lookup_append, lookup_optPair]
  rcases hk with rfl | rfl <;>
    simp +decide only [if_false, Option.none_or, Option.or_none]

theorem pathSet_of_decodes {a : Address} {d : Descriptor} (hs : ∀ p ∈ a.path, Sound p)
    (hd : Decodes (emitted a) d) : PathSet a := by
  intro q hq
  by_contra unset
  simp only [not_or, not_not, Bool.not_eq_true] at unset
  obtain ⟨notEmpty, notRoot, noLevels⟩ := unset
  rcases hs q hq with ⟨dt, hdt, rfl⟩ | ⟨s, levels, fits, rfl⟩
  · have hv : dt.isValid = true := by
      rcases hdt with he | hv
      · have full : dt.isEmpty = false := notEmpty
        rw [he] at full
        cases full
      · exact hv
    have written : emittedPath a.path = [(compDerivationType, dt.value)] := by
      rw [show a.path = some (DerivationPath.fresh dt) from hq, emittedPath_fresh]
      have shown : (!dt.isEmpty && dt != .root) = true := by
        simp only [Bool.and_eq_true, Bool.not_eq_true', bne_iff_ne, ne_eq]
        exact ⟨notEmpty, notRoot⟩
      rw [if_pos shown]
    have typeText : Parser.get (emitted a) compDerivationType = dt.value := by
      rw [Parser.get, lookup_emitted_path a (.inl rfl), written]
      rfl
    have noPath : Parser.get (emitted a) compDerivationPath = [] := by
      rw [Parser.get, lookup_emitted_path a (.inr rfl), written]
      rfl
    have path := hd.path
    rw [typeText, noPath] at path
    cases hp : d.path with
    | none =>
      rw [hp] at path
      rcases path.1 with he | hr
      · exact (type_name hv).1.1 he
      · rw [(type_name hv).2] at hr
        exact notRoot (congrArg DerivationType.mk hr)
    | some p =>
      rw [hp] at path
      obtain ⟨_, raws, spelled, _⟩ := path
      exact path_starts spelled rfl
  · rw [concrete_levels] at noLevels
    exact fits.ne_nil noLevels

theorem parseUrn_str_iff {a : Address} (h : AddressSound a) :
    (∃ b, parseUrn a.str = .ok b) ↔
      a.chain.network.value ≠ [] ∧ a.chain.chainId ≠ [] ∧ PathSet a := by
  constructor
  · rintro ⟨b, hb⟩
    obtain ⟨hw, d, hd⟩ := parseUrn_emitted h hb
    have network := hw.1 (compNetworkType, a.chain.network.value) (by simp [emitted])
    have chainId := hw.1 (compChainId, a.chain.chainId) (by simp [emitted])
    exact ⟨network.2.1.1, chainId.2.1.1, pathSet_of_decodes (path_sound h) hd⟩
  · rintro ⟨hn, hc, hp⟩
    obtain ⟨d, hd⟩ := describe h hn hc hp
    exact ⟨d.toAddress, by rw [str_of_describes hd, parseUrn_render]⟩

theorem marshalText_iff (a : Address) :
    (∃ t, a.marshalText = .ok t) ↔ a.chain.network.value ≠ [] ∧ PathSet a := by
  unfold Address.marshalText
  rw [← checkPathSet_iff]
  cases hn : a.chain.network.value with
  | nil => simp [NetworkType.isEmpty, hn]
  | cons c s =>
    cases a.checkPathSet <;> simp [NetworkType.isEmpty, hn, ok_bind, error_bind]

theorem pathSet_of_describes {d : Descriptor} {a : Address} (h : Describes d a) : PathSet a := by
  intro q hq
  have hp := h.path
  rw [show a.path = some q from hq] at hp
  cases hd : d.path with
  | none =>
    rw [hd] at hp
    rcases hp with he | hr
    · exact .inl he
    · exact .inr (.inl hr)
  | some p =>
    rw [hd] at hp
    obtain rfl : q = concrete p.scheme p.levels := hp
    rw [concrete_levels]
    exact .inr (.inr p.fits.ne_nil)

theorem validate_of_describes {d : Descriptor} {a : Address} (h : Describes d a) :
    d.toAddress.validate = a.validate := by
  have chain : d.toAddress.chain = a.chain := h.chain.symm
  have algorithm : d.toAddress.resolvedAlgorithm = a.resolvedAlgorithm := by
    unfold Address.resolvedAlgorithm
    rw [chain, h.algorithm]
    rfl
  have format : d.toAddress.resolvedFormat = a.resolvedFormat := by
    unfold Address.resolvedFormat
    rw [chain, h.format]
    rfl
  have set := (checkPathSet_iff a).mpr (pathSet_of_describes h)
  have set' := (checkPathSet_iff _).mpr (pathSet_of_describes (toAddress_describes d))
  have hp := h.path
  unfold Address.validate
  rw [chain, algorithm, format, set, set', show d.toAddress.path = some (pathOf d.path) from rfl]
  have root : (pathOf none).type.isEmpty = true ∨ (pathOf none).type = .root := .inr rfl
  cases ha : a.path with
  | none =>
    cases hd : d.path with
    | none =>
      simp only [root, if_true]
    | some p =>
      rw [ha, hd] at hp
      exact hp.elim
  | some q =>
    cases hd : d.path with
    | none =>
      rw [ha, hd] at hp
      have blank : q.type.isEmpty = true ∨ q.type = .root := hp
      simp only [root, blank, if_true]
    | some p =>
      rw [ha, hd] at hp
      obtain rfl : q = p.toDerivationPath := hp
      rfl

/-- The guards of `marshal_text` and `validate` accept what the two parsers accept. -/
def GuardsExact (a : Address) : Prop :=
  ((∃ t, a.marshalText = .ok t) ↔ ∃ b, parseUrn a.str = .ok b) ∧
    (a.validate = .ok () ↔ ∃ b, parseUrnStrict a.str = .ok b)

/-- The guards miss one state only: a network and a path to write, but no chain id. -/
theorem guards_exact_iff (a : Address) (h : addresses.Reachable a) :
    GuardsExact a ↔ (a.chain.network.value = [] ∨ a.chain.chainId ≠ [] ∨ ¬ PathSet a) := by
  have sound := reachable_address_sound h
  have parses := parseUrn_str_iff sound
  have strictParses : (∃ b, parseUrnStrict a.str = .ok b) → ∃ b, parseUrn a.str = .ok b := by
    rintro ⟨b, hb⟩
    exact ⟨b, ((parseUrnStrict_iff _ b).mp hb).1⟩
  unfold GuardsExact
  rw [marshalText_iff, parses]
  constructor
  · rintro ⟨marshal, _⟩
    by_contra missed
    simp only [not_or, not_not] at missed
    obtain ⟨hn, hc, hp⟩ := missed
    exact (marshal.mp ⟨hn, hp⟩).2.1 hc
  · intro cond
    have complete : a.chain.network.value ≠ [] ∧ PathSet a → a.chain.chainId ≠ [] := by
      rintro ⟨hn, hp⟩
      rcases cond with he | hc | hu
      · exact absurd he hn
      · exact hc
      · exact absurd hp hu
    refine ⟨⟨fun hm => ⟨hm.1, complete hm, hm.2⟩, fun hm => ⟨hm.1, hm.2.2⟩⟩, ?_⟩
    constructor
    · intro hv
      have allowed := (validate_iff a).mp hv
      have guards := And.intro allowed.network allowed.path
      obtain ⟨d, hd⟩ := describe sound guards.1 (complete guards) guards.2
      rw [str_of_describes hd]
      exact ⟨d.toAddress, (parseUrnStrict_iff _ _).mpr ⟨parseUrn_render d, by rw [validate_of_describes hd, hv]⟩⟩
    · intro hs
      obtain ⟨hn, hc, hp⟩ := parses.mp (strictParses hs)
      obtain ⟨d, hd⟩ := describe sound hn hc hp
      rw [str_of_describes hd] at hs
      obtain ⟨b, strict⟩ := hs
      obtain ⟨hb, hv⟩ := (parseUrnStrict_iff _ b).mp strict
      rw [parseUrn_render, Except.ok.injEq] at hb
      rw [← hb, validate_of_describes hd] at hv
      exact hv

theorem builtAddress_guards : GuardsExact builtAddress ↔
    (builtAddress.chain.network.value = [] ∨ builtAddress.chain.chainId ≠ [] ∨ ¬ PathSet builtAddress) :=
  guards_exact_iff builtAddress builtAddress_reachable

def halfAddress : Address := { Address.init with chain := (Chain.init.setNetwork .ethereumVm).state }

/-- It marshals to a URN that does not parse, and it validates. -/
theorem halfAddress_not_exact :
    addresses.Reachable halfAddress ∧ halfAddress.marshalText = .ok (lit "urn:mhda:nt:evm:ci:") ∧
      halfAddress.validate = .ok () ∧ (parseUrn (lit "urn:mhda:nt:evm:ci:")).toOption = none ∧
      ¬ GuardsExact halfAddress := by
  have refused : parseUrn halfAddress.str = .error ⟨.invalidNss, lit "empty value for \"ci\""⟩ := rfl
  refine ⟨.step (.created .init) (.callChain _ (.setNetwork _ _)), rfl, rfl, rfl, ?_⟩
  rintro ⟨marshal, _⟩
  obtain ⟨b, hb⟩ := marshal.mp ⟨_, rfl⟩
  rw [refused] at hb
  cases hb

end Guards

end Mhda.Marshalling
