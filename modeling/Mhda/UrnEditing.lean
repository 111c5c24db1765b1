import Mhda.Independence
import Mhda.RoundTrip

set_option autoImplicit false

namespace Mhda.UrnEditing
open Mhda.ByteString Mhda.Errors Mhda.Detail Mhda.DetailFacts Mhda.Numeral Mhda.Catalogue Mhda.Nss
open Mhda.KeyValue Mhda.NssTokens Mhda.Transition Mhda.Chains Mhda.Path Mhda.Addresses Mhda.Parser
open Mhda.Template Mhda.PathText Mhda.PathParse Mhda.PathHistory Mhda.Setters Mhda.Descriptors
open Mhda.Decoding Mhda.RoundTrip Mhda.Independence

/-- The components that have a setter of their own and no say in the chain identity or the path. -/
inductive Component where
  | coinType | addressAlgorithm | addressFormat | addressPrefix | addressSuffix | walletType | walletId
  deriving DecidableEq

namespace Component

def key : Component → Bytes
  | coinType => compCoinType
  | addressAlgorithm => compAddressAlgorithm
  | addressFormat => compAddressFormat
  | addressPrefix => compAddressPrefix
  | addressSuffix => compAddressSuffix
  | walletType => compWalletType
  | walletId => compWalletId

def set : Component → Address → Bytes → After Address ParseError
  | coinType => Address.setCoinType
  | addressAlgorithm => Address.setAddressAlgorithm
  | addressFormat => Address.setAddressFormat
  | addressPrefix => Address.setAddressPrefix
  | addressSuffix => Address.setAddressSuffix
  | walletType => Address.setWalletType
  | walletId => Address.setWalletId

def IsSet : Component → Address → Prop
  | coinType, a => a.chain.coin ≠ none
  | addressAlgorithm, a => a.algorithm ≠ .unset
  | addressFormat, a => a.format ≠ .unset
  | addressPrefix, a => a.addressPrefix ≠ []
  | addressSuffix, a => a.addressSuffix ≠ []
  | walletType, a => a.walletType ≠ []
  | walletId, a => a.walletId ≠ []

theorem key_known (x : Component) : Known x.key := by
  cases x <;> decide

end Component

/-- A value that can stand between two colons: no separator, no opener, no whitespace around it. -/
structure PlainValue (v : Bytes) : Prop where
  nonempty : v ≠ []
  no_colon : ch ':' ∉ v
  no_question : ch '?' ∉ v
  no_hash : ch '#' ∉ v
  trimmed : Trimmed v

def removePair (k n : Bytes) : Bytes := joinPairs (ch ':') ((rawPairs n).filter fun p => p.1 != k)

section Decoder

variable {m m' : Components} {a : Address}

/-- The coin setter reads a text as the decoder reads the map that holds it. -/
theorem setCoinType_eq_ok (full : ∀ v ∈ m.lookup compCoinType, trim v ≠ []) (b : Address) :
    (a.setCoinType (Parser.get m compCoinType)).result = .ok b ↔
      ∃ coin, CoinReads m coin ∧ b = { a with chain := { a.chain with coin := coin } } := by
  unfold Address.setCoinType CoinReads Parser.get
  cases hl : m.lookup compCoinType with
  | none =>
    have empty : (trim []).isEmpty = true := rfl
    simp [empty, Chain.clearCoin, eq_comm]
  | some ct =>
    have nonempty : (trim ct).isEmpty = false := List.isEmpty_eq_false_iff.mpr (full ct hl)
    simp only [Option.getD_some, nonempty, Bool.false_eq_true, if_false]
    cases parseUint32 (trim ct) with
    | none => simp
    | some v => simp [Chain.setCoin, eq_comm]

theorem buildChain_coin {c : Chain} (hc : Chain.buildChain m = .ok c)
    (same : ∀ k, k ≠ compCoinType → m'.lookup k = m.lookup k) (c' : Chain) :
    Chain.buildChain m' = .ok c' ↔ ∃ coin, CoinReads m' coin ∧ c' = { c with coin := coin } := by
  obtain ⟨nt, ci, hnt, hci, network, valid, chainId, token, _⟩ := (buildChain_eq_ok _ _).mp hc
  have hnt' : m'.lookup compNetworkType = some nt := (same _ (by decide)).trans hnt
  have hci' : m'.lookup compChainId = some ci := (same _ (by decide)).trans hci
  rw [buildChain_eq_ok]
  constructor
  · rintro ⟨nt', ci', hn, hi, network', _, chainId', _, coin⟩
    obtain rfl := Option.some.inj (hnt'.symm.trans hn)
    obtain rfl := Option.some.inj (hci'.symm.trans hi)
    refine ⟨c'.coin, coin, ?_⟩
    rw [network, chainId, ← network', ← chainId']
  · rintro ⟨coin, reads, rfl⟩
    exact ⟨nt, ci, hnt', hci', network, valid, chainId, token, reads⟩

theorem buildChain_same (same : ∀ k, k = compNetworkType ∨ k = compChainId ∨ k = compCoinType → m'.lookup k = m.lookup k) :
    Chain.buildChain m' = Chain.buildChain m := by
  unfold Chain.buildChain
  rw [same compNetworkType (by simp), same compChainId (by simp), same compCoinType (by simp)]

/-- A setter is the decoder on the map that differs in the value of the component. -/
theorem decode_set (x : Component) (ha : parseAddressFromComponents m = .ok a)
    (same : ∀ k, k ≠ x.key → m'.lookup k = m.lookup k) (full : ∀ v ∈ m'.lookup x.key, trim v ≠ []) (b : Address) :
    parseAddressFromComponents m' = .ok b ↔ (x.set a (Parser.get m' x.key)).result = .ok b := by
  have values : ∀ k, k ≠ x.key → Parser.get m' k = Parser.get m k := by
    intro k hk
    rw [Parser.get, Parser.get, same k hk]
  have chain : x ≠ .coinType → Chain.buildChain m' = Chain.buildChain m := by
    intro hx
    apply buildChain_same
    rintro k (rfl | rfl | rfl) <;> refine same _ ?_ <;> revert hx <;> cases x <;> decide
  obtain ⟨c, q, hc, hq, aa, af, ap, as_, wt, wi, rfl⟩ := (parseAddressFromComponents_eq_ok _ _).mp ha
  rw [parseAddressFromComponents_eq_ok]
  cases x with
  | coinType =>
    have fresh := buildChain_coin hc same
    rw [show Component.coinType.set = Address.setCoinType from rfl, show Component.coinType.key = compCoinType from rfl,
      setCoinType_eq_ok full]
    simp (disch := decide) only [fresh, values, hq, aa, af, ap, as_, wt, wi, Except.ok.injEq, exists_and_left,
      exists_eq_left', true_and]
    constructor
    · rintro ⟨_, ⟨coin, reads, rfl⟩, rfl⟩
      exact ⟨coin, reads, rfl⟩
    · rintro ⟨coin, reads, rfl⟩
      exact ⟨_, ⟨coin, reads, rfl⟩, rfl⟩
  | addressAlgorithm =>
    simp (disch := decide) only [chain, values, hc, hq, af, ap, as_, wt, wi, Except.ok.injEq, exists_and_left,
      exists_eq_left', true_and, Component.set, Component.key, setAddressAlgorithm_eq, result_guard]
  | addressFormat =>
    simp (disch := decide) only [chain, values, hc, hq, aa, ap, as_, wt, wi, Except.ok.injEq, exists_and_left,
      exists_eq_left', true_and, Component.set, Component.key, setAddressFormat_eq, result_guard]
  | _ =>
    simp (disch := decide) only [chain, values, hc, hq, aa, af, ap, as_, wt, wi, Except.ok.injEq, exists_and_left,
      exists_eq_left', true_and, Component.set, Component.key, Address.setAddressPrefix, Address.setAddressSuffix,
      Address.setWalletType, Address.setWalletId, setFreeForm_eq, result_guard]

/-- The derivation setter is the decoder on the map that differs in type and path. -/
theorem decode_setDerivation (ha : parseAddressFromComponents m = .ok a)
    (same : ∀ k, k ≠ compDerivationType ∧ k ≠ compDerivationPath → m'.lookup k = m.lookup k) (b : Address) :
    parseAddressFromComponents m' = .ok b ↔
      (a.setDerivation (Parser.get m' compDerivationType) (Parser.get m' compDerivationPath)).result = .ok b := by
  have values : ∀ k, k ≠ compDerivationType ∧ k ≠ compDerivationPath → Parser.get m' k = Parser.get m k := by
    intro k hk
    rw [Parser.get, Parser.get, same k hk]
  have chain : Chain.buildChain m' = Chain.buildChain m := by
    apply buildChain_same
    rintro k (rfl | rfl | rfl) <;> exact same _ (by decide)
  obtain ⟨c, q, hc, hq, aa, af, ap, as_, wt, wi, rfl⟩ := (parseAddressFromComponents_eq_ok _ _).mp ha
  rw [parseAddressFromComponents_eq_ok, setDerivation_eq_ok]
  simp (disch := decide) only [chain, values, hc, aa, af, ap, as_, wt, wi, Except.ok.injEq, exists_and_left,
    exists_eq_left', true_and]

end Decoder

section Bytes

theorem hexDigit_nssByte (c : Byte) : (hexDigit c).isSome = true → nssByte c = true := by
  revert c
  apply forall_byte
  decide +kernel

theorem nssByte_of_lower (c : Byte) : nssByte (asciiLower c) = true → nssByte c = true := by
  revert c
  apply forall_byte
  decide +kernel

theorem marker_nssByte (c : Byte) : isHardeningMarker c = true → nssByte c = true := by
  revert c
  apply forall_byte
  decide +kernel

theorem nssText_of_lower {v : Bytes} (h : NssText (toLower v)) : NssText v :=
  fun c hc => nssByte_of_lower c (h _ (List.mem_map_of_mem hc))

theorem isDecimal_text {v : Bytes} {n : ℕ} (h : IsDecimal v n) : NssText v :=
  fun c hc => (decDigit_plain c (isDecimal_digits h c hc)).1

theorem spellsNumber_text {v : Bytes} {n : ℕ} (h : SpellsNumber v n) : NssText v := by
  rcases h with dec | ⟨x, body, rfl, hx, hex⟩
  · exact isDecimal_text dec
  · have front : nssByte (ch '0') = true ∧ nssByte x = true := by
      rcases hx with rfl | rfl <;> decide
    intro c hc
    rcases List.mem_cons.mp hc with rfl | hc
    · exact front.1
    · rcases List.mem_cons.mp hc with rfl | hc
      · exact front.2
      · exact hexDigit_nssByte c (value_digits _ _ hex.2 c hc)

theorem segment_text {seg : Bytes} {l : RawLevel} (h : SegmentSpells seg l) : NssText seg := by
  obtain ⟨digits, marker, rfl, dec, _, hm, _⟩ := h
  refine (isDecimal_text dec).append ?_
  split at hm
  · obtain ⟨c, rfl, hc⟩ := hm
    intro x hx
    rw [List.mem_singleton.mp hx]
    exact marker_nssByte c hc
  · simp [hm, NssText]

theorem path_text {path : Bytes} {raws : List RawLevel} (h : PathSpells path raws) : NssText path := by
  obtain ⟨segs, rfl, spelled⟩ := h
  have front : nssByte (ch 'm') = true ∧ nssByte (ch '/') = true := by decide
  intro c hc
  rcases List.mem_cons.mp hc with rfl | hc
  · exact front.1
  · obtain ⟨seg, hseg, hc⟩ := List.mem_flatMap.mp hc
    rcases List.mem_cons.mp hc with rfl | hc
    · exact front.2
    · obtain ⟨l, hl⟩ := forall₂_mem_left spelled seg hseg
      exact segment_text hl c hc

variable {a b : Address}

theorem set_token (x : Component) {v : Bytes} (plain : PlainValue v) (h : (x.set a v).result = .ok b) : Token v := by
  have trimmed : trim v = v := trim_eq_self plain.trimmed
  have folded : normalize v = toLower v := congrArg toLower trimmed
  refine ⟨plain.nonempty, ?_⟩
  cases x with
  | coinType =>
    have full : ∀ w ∈ ([(compCoinType, v)] : Components).lookup compCoinType, trim w ≠ [] := by
      intro w hw
      obtain rfl : v = w := Option.some.inj hw
      rw [trimmed]
      exact plain.nonempty
    obtain ⟨coin, reads, _⟩ := (setCoinType_eq_ok (m := [(compCoinType, v)]) full b).mp h
    obtain ⟨n, hn, _⟩ : ∃ n, parseUint32 (trim v) = some n ∧ coin = some n := reads
    rw [trimmed] at hn
    exact spellsNumber_text ((parseUint32_eq_some _ _).mp hn)
  | addressAlgorithm =>
    rw [Component.set, setAddressAlgorithm_eq, result_guard, folded] at h
    exact nssText_of_lower (algorithmOk_text h.1).1
  | addressFormat =>
    rw [Component.set, setAddressFormat_eq, result_guard, folded] at h
    exact nssText_of_lower (formatOk_text h.1).1
  | addressPrefix | addressSuffix | walletType | walletId =>
    simp only [Component.set, Address.setAddressPrefix, Address.setAddressSuffix, Address.setWalletType,
      Address.setWalletId, setFreeForm_eq, result_guard, trimmed] at h
    exact h.1

theorem setDerivation_tokens {dt dp : Bytes} (type : PlainValue dt) (path : PlainValue dp)
    (h : (a.setDerivation dt dp).result = .ok b) : Token dt ∧ Token dp := by
  have typeFolded : normalize dt = toLower dt := congrArg toLower (trim_eq_self type.trimmed)
  have pathFolded : normalize dp = toLower dp := congrArg toLower (trim_eq_self path.trimmed)
  obtain ⟨q, hq, _⟩ := (setDerivation_eq_ok _ _ _ _).mp h
  have chosen : chosenType dt = ⟨toLower dt⟩ := by
    have full : (toLower dt).isEmpty = false := by
      rw [toLower_isEmpty]
      exact List.isEmpty_eq_false_iff.mpr type.nonempty
    simp [chosenType, typeFolded, full]
  have name := type_name (parse_valid hq)
  rw [chosen] at name
  refine ⟨⟨type.nonempty, nssText_of_lower name.1.2⟩, path.nonempty, ?_⟩
  rcases valid_cases (parse_valid hq) with root | ⟨s, scheme⟩
  · rw [root, parse_root, pathFolded] at hq
    exact absurd (List.map_eq_nil_iff.mp hq.1) path.nonempty
  · rw [scheme, pathFolded] at hq
    obtain ⟨_, spelled, _⟩ := (parse_eq_ok _ _ _).mp hq
    exact nssText_of_lower (path_text spelled)

end Bytes

section Text

theorem parseNss_pairs {ps : Components} (keys : ∀ p ∈ ps, Known p.1) (distinct : (ps.map Prod.fst).Nodup)
    (network : (ps.lookup compNetworkType).isSome = true)
    (plain : ∀ p ∈ ps, ch ':' ∉ p.2 ∧ Trimmed p.2) (b : Address) :
    parseNss (joinPairs (ch ':') ps) = .ok b ↔ (∀ p ∈ ps, Token p.2) ∧ parseAddressFromComponents ps = .ok b := by
  have formed := wellFormed_iff_tokens keys distinct
  have bytes : ∀ t ∈ tokens ps, ch ':' ∉ t ∧ Trimmed t := by
    intro t ht
    obtain ⟨p, hp, rfl | rfl⟩ := mem_tokens.mp ht
    · have name := (known_token (keys p hp)).2
      exact ⟨name.no_colon, name.trimmed⟩
    · exact plain p hp
  by_cases hw : WellFormed ps
  · have present : (ps.lookup compNetworkType).isNone = false := by simpa using network
    rw [parseNss_wellFormed bytes hw, known_eq_self keys, decodeMap, present, if_neg (by simp)]
    exact (and_iff_right (formed.mp hw)).symm
  · refine iff_of_false ?_ fun h => hw (formed.mpr h.1)
    intro accepted
    have refused := parseNss_refused bytes hw
    rw [accepted] at refused
    cases refused

variable (d : Descriptor)

theorem pairs_decoded : parseAddressFromComponents d.pairs = .ok d.toAddress := by
  have values : TokenValues d.pairs := pairs_known d ▸ tokenValues_known (pairs_wellFormed d)
  exact (parseAddressFromComponents_iff values _).mpr ⟨d, pairs_decode d, rfl⟩

theorem pairs_plain : ∀ p ∈ d.pairs, ch ':' ∉ p.2 ∧ Trimmed p.2 := by
  intro p hp
  have value := (pairs_tokens d p hp).2
  exact ⟨value.no_colon, value.trimmed⟩

theorem parseNss_extended {es : Components} (keys : ∀ p ∈ es, Known p.1 ∧ d.pairs.lookup p.1 = none)
    (distinct : (es.map Prod.fst).Nodup) (plain : ∀ p ∈ es, PlainValue p.2) (b : Address) :
    parseNss (d.nss ++ emitPairs (ch ':') es) = .ok b ↔
      (∀ p ∈ es, Token p.2) ∧ parseAddressFromComponents (d.pairs ++ es) = .ok b := by
  have text : d.nss ++ emitPairs (ch ':') es = joinPairs (ch ':') (d.pairs ++ es) := by
    rw [Descriptor.nss, Descriptor.pairs, List.cons_append, joinPairs_cons, joinPairs_cons]
    simp [emitPairs]
  have fresh : ∀ k ∈ d.pairs.map Prod.fst, ∀ k' ∈ es.map Prod.fst, k ≠ k' := by
    rintro k hk k' hk' rfl
    obtain ⟨p, hp, rfl⟩ := List.mem_map.mp hk'
    have present := (lookup_isSome_iff _ _).mpr hk
    rw [(keys p hp).2] at present
    cases present
  have network : ((d.pairs ++ es).lookup compNetworkType).isSome = true := by
    rw [List.lookup_append, (lookup_pairs d).1]
    rfl
  rw [text, parseNss_pairs ?_ ?_ network ?_]
  · rw [List.forall_mem_append, and_iff_right (pairs_tokens d)]
  · exact List.forall_mem_append.mpr ⟨pairs_key_known d, fun p hp => (keys p hp).1⟩
  · rw [List.map_append, List.nodup_append]
    exact ⟨pairs_keys_nodup d, distinct, fresh⟩
  · exact List.forall_mem_append.mpr ⟨pairs_plain d, fun p hp => ⟨(plain p hp).no_colon, (plain p hp).trimmed⟩⟩

theorem isSet_iff (x : Component) : x.IsSet d.toAddress ↔ d.pairs.lookup x.key ≠ none := by
  obtain ⟨_, _, ct, _, _, aa, af, ap, as_, wt, wi⟩ := lookup_pairs d
  have written : ∀ v, optText v = none ↔ v = [] := by
    intro v
    unfold optText
    split <;> simp [*]
  have algorithm : d.algorithm = .unset ↔ d.algorithm.value = [] := ⟨congrArg Algorithm.value, congrArg Algorithm.mk⟩
  have format : d.format = .unset ↔ d.format.value = [] := ⟨congrArg Format.value, congrArg Format.mk⟩
  cases x with
  | coinType => simp [Component.IsSet, Component.key, ct, Descriptor.toAddress]
  | addressAlgorithm => simp [Component.IsSet, Component.key, aa, Descriptor.toAddress, written, algorithm]
  | addressFormat => simp [Component.IsSet, Component.key, af, Descriptor.toAddress, written, format]
  | addressPrefix => simp [Component.IsSet, Component.key, ap, Descriptor.toAddress, written]
  | addressSuffix => simp [Component.IsSet, Component.key, as_, Descriptor.toAddress, written]
  | walletType => simp [Component.IsSet, Component.key, wt, Descriptor.toAddress, written]
  | walletId => simp [Component.IsSet, Component.key, wi, Descriptor.toAddress, written]

end Text

section Editing
variable (d : Descriptor)

theorem set_append (x : Component) {v : Bytes} (unset : ¬ x.IsSet d.toAddress) (plain : PlainValue v) (b : Address) :
    (x.set d.toAddress v).result = .ok b ↔ parseNss (d.nss ++ emitPairs (ch ':') [(x.key, v)]) = .ok b := by
  have absent : d.pairs.lookup x.key = none := not_not.mp (mt (isSet_iff d x).mpr unset)
  have value : (d.pairs ++ [(x.key, v)]).lookup x.key = some v := by
    rw [List.lookup_append, absent, lookup_cons_if, if_pos rfl]
    rfl
  have same : ∀ k, k ≠ x.key → (d.pairs ++ [(x.key, v)]).lookup k = d.pairs.lookup k := by
    intro k hk
    rw [List.lookup_append, lookup_cons_if, if_neg hk, List.lookup_nil, Option.or_none]
  have full : ∀ w ∈ (d.pairs ++ [(x.key, v)]).lookup x.key, trim w ≠ [] := by
    intro w hw
    obtain rfl := Option.some.inj (value.symm.trans hw)
    rw [trim_eq_self plain.trimmed]
    exact plain.nonempty
  have read := decode_set x (pairs_decoded d) same full b
  rw [Parser.get, value, Option.getD_some] at read
  have fresh : ∀ p ∈ [(x.key, v)], Known p.1 ∧ d.pairs.lookup p.1 = none :=
    List.forall_mem_singleton.mpr ⟨x.key_known, absent⟩
  rw [parseNss_extended d fresh (by simp) (by simpa using plain), ← read]
  refine ⟨fun h => ⟨?_, h⟩, fun h => h.2⟩
  simpa using set_token x plain (read.mp h)

theorem setDerivation_append {dt dp : Bytes} (root : d.path = none) (type : PlainValue dt) (path : PlainValue dp)
    (b : Address) :
    (d.toAddress.setDerivation dt dp).result = .ok b ↔
      parseNss (d.nss ++ emitPairs (ch ':') [(compDerivationType, dt), (compDerivationPath, dp)]) = .ok b := by
  have absent : d.pairs.lookup compDerivationType = none ∧ d.pairs.lookup compDerivationPath = none := by
    obtain ⟨_, _, _, hdt, hdp, _⟩ := lookup_pairs d
    rw [hdt, hdp, root]
    exact ⟨rfl, rfl⟩
  have other : compDerivationPath ≠ compDerivationType := by decide
  have values : (d.pairs ++ [(compDerivationType, dt), (compDerivationPath, dp)]).lookup compDerivationType = some dt ∧
      (d.pairs ++ [(compDerivationType, dt), (compDerivationPath, dp)]).lookup compDerivationPath = some dp := by
    simp [List.lookup_append, absent, lookup_cons_if, other]
  have same : ∀ k, k ≠ compDerivationType ∧ k ≠ compDerivationPath →
      (d.pairs ++ [(compDerivationType, dt), (compDerivationPath, dp)]).lookup k = d.pairs.lookup k := by
    intro k hk
    rw [List.lookup_append, lookup_cons_if, lookup_cons_if, if_neg hk.1, if_neg hk.2, List.lookup_nil, Option.or_none]
  have keys : Known compDerivationType ∧ Known compDerivationPath := by decide
  have read := decode_setDerivation (pairs_decoded d) same b
  rw [Parser.get, Parser.get, values.1, values.2, Option.getD_some, Option.getD_some] at read
  have fresh : ∀ p ∈ [(compDerivationType, dt), (compDerivationPath, dp)], Known p.1 ∧ d.pairs.lookup p.1 = none :=
    List.forall_mem_cons.mpr ⟨⟨keys.1, absent.1⟩, List.forall_mem_singleton.mpr ⟨keys.2, absent.2⟩⟩
  rw [parseNss_extended d fresh (by simp [other.symm]) (by simpa using ⟨type, path⟩), ← read]
  refine ⟨fun h => ⟨?_, h⟩, fun h => h.2⟩
  simpa using setDerivation_tokens type path (read.mp h)

theorem set_empty (x : Component) (a : Address) : ∃ b, (x.set a []).result = .ok b := by
  have blank : AlgorithmOk ⟨normalize []⟩ ∧ FormatOk ⟨normalize []⟩ ∧ NssText (trim []) := by decide +kernel
  cases x with
  | coinType => exact ⟨_, rfl⟩
  | addressAlgorithm =>
    simp only [Component.set, setAddressAlgorithm_eq, result_guard]
    exact ⟨_, blank.1, rfl⟩
  | addressFormat =>
    simp only [Component.set, setAddressFormat_eq, result_guard]
    exact ⟨_, blank.2.1, rfl⟩
  | addressPrefix | addressSuffix | walletType | walletId =>
    simp only [Component.set, Address.setAddressPrefix, Address.setAddressSuffix, Address.setWalletType,
      Address.setWalletId, setFreeForm_eq, result_guard]
    exact ⟨_, blank.2.2, rfl⟩

theorem set_remove (x : Component) (b : Address) :
    (x.set d.toAddress []).result = .ok b ↔ parseNss (removePair x.key d.nss) = .ok b := by
  have text : trim d.nss = joinPairs (ch ':') d.pairs := trim_eq_self (pairs_wellFormed d).trimmed
  have removed : removePair x.key d.nss = joinPairs (ch ':') (d.pairs.filter fun p => p.1 != x.key) := by
    rw [removePair, rawPairs_eq text (pairs_wellFormed d)]
  have without := lookup_without d.pairs x.key
  have gone : (d.pairs.filter fun p => p.1 != x.key).lookup x.key = none := by rw [without, if_pos rfl]
  have same : ∀ k, k ≠ x.key → (d.pairs.filter fun p => p.1 != x.key).lookup k = d.pairs.lookup k := by
    intro k hk
    rw [without, if_neg hk]
  have kept : ∀ {p : Bytes × Bytes}, p ∈ d.pairs.filter (fun p => p.1 != x.key) → p ∈ d.pairs := List.mem_of_mem_filter
  have network : ((d.pairs.filter fun p => p.1 != x.key).lookup compNetworkType).isSome = true := by
    rw [same compNetworkType (by cases x <;> decide), (lookup_pairs d).1]
    rfl
  have read := decode_set x (pairs_decoded d) same (by simp [gone]) b
  rw [Parser.get, gone, Option.getD_none] at read
  rw [removed, parseNss_pairs (fun p hp => pairs_key_known d p (kept hp)) ?_ network
    (fun p hp => pairs_plain d p (kept hp)), ← read]
  · exact (and_iff_right fun p hp => pairs_tokens d p (kept hp)).symm
  · exact (pairs_keys_nodup d).sublist (List.filter_sublist.map Prod.fst)

/-- On a parsed address a setter appends the pair to the text, and an empty argument removes it. -/
theorem setters_edit_urn {s : Bytes} {a : Address} (parsed : parseUrn s = .ok a ∨ parseNss s = .ok a) :
    (∀ (x : Component) (v : Bytes), ¬ x.IsSet a → PlainValue v → ∀ b,
      (x.set a v).result = .ok b ↔ parseNss (a.nss ++ lit ":" ++ x.key ++ lit ":" ++ v) = .ok b) ∧
    (a.getDerivationType = .root → ∀ dt dp : Bytes, PlainValue dt → PlainValue dp → ∀ b,
      (a.setDerivation dt dp).result = .ok b ↔
        parseNss (a.nss ++ lit ":dt:" ++ dt ++ lit ":dp:" ++ dp) = .ok b) ∧
    (∀ x : Component, x.IsSet a → ∃ b,
      (x.set a []).result = .ok b ∧ parseNss (removePair x.key a.nss) = .ok b) := by
  obtain ⟨d, rfl⟩ := parsed.elim parseUrn_descriptor parseNss_descriptor
  rw [toAddress_nss]
  refine ⟨?_, ?_, ?_⟩
  · intro x v unset plain b
    have text : d.nss ++ lit ":" ++ x.key ++ lit ":" ++ v = d.nss ++ emitPairs (ch ':') [(x.key, v)] := by
      simp [emitPairs, lit]
    rw [text]
    exact set_append d x unset plain b
  · intro root dt dp type path b
    have text : d.nss ++ lit ":dt:" ++ dt ++ lit ":dp:" ++ dp =
        d.nss ++ emitPairs (ch ':') [(compDerivationType, dt), (compDerivationPath, dp)] := by
      obtain ⟨_, _, _, ldt, ldp, _⟩ := componentLiterals
      simp [emitPairs, ldt, ldp]
    have noPath : d.path = none := by
      cases hp : d.path with
      | none => rfl
      | some p =>
        have named : d.toAddress.getDerivationType = p.scheme.type := by
          simp [Address.getDerivationType, Descriptor.toAddress, hp, pathOf, HdPath.toDerivationPath,
            p.scheme.type_ne_empty]
        exact absurd (named.symm.trans root) p.scheme.type_ne_root
    rw [text]
    exact setDerivation_append d noPath type path b
  · intro x _
    obtain ⟨b, hb⟩ := set_empty x d.toAddress
    exact ⟨b, hb, (set_remove d x b).mp hb⟩

theorem setters_edit_urn_evm :
    let a : Address := ⟨⟨.ethereumVm, lit "1", none⟩, some (DerivationPath.fresh .root), ⟨lit "secp256k1"⟩, .unset, [], [], [], []⟩
    (∀ b, (Component.walletId.set a (lit "w1")).result = .ok b ↔
      parseNss (a.nss ++ lit ":" ++ Component.walletId.key ++ lit ":" ++ lit "w1") = .ok b) ∧
    (∀ b, (a.setDerivation (lit "BIP44") (lit "m/44h/60h/0h/0/0")).result = .ok b ↔
      parseNss (a.nss ++ lit ":dt:" ++ lit "BIP44" ++ lit ":dp:" ++ lit "m/44h/60h/0h/0/0") = .ok b) ∧
    (∃ b, (Component.addressAlgorithm.set a []).result = .ok b ∧
      parseNss (removePair Component.addressAlgorithm.key a.nss) = .ok b) := by
  intro a
  have parsed : parseUrn (lit "urn:mhda:nt:evm:ci:1:aa:secp256k1") = .ok a := rfl
  have wallet : PlainValue (lit "w1") := by constructor <;> decide +kernel
  have type : PlainValue (lit "BIP44") := by constructor <;> decide +kernel
  have path : PlainValue (lit "m/44h/60h/0h/0/0") := by constructor <;> decide +kernel
  obtain ⟨append, derive, remove⟩ := setters_edit_urn (.inl parsed)
  refine ⟨append .walletId _ ?_ wallet, derive rfl _ _ type path, remove .addressAlgorithm ?_⟩
  · exact fun written => written rfl
  · exact fun unset => absurd (congrArg Algorithm.value unset) (by decide)

end Editing

end Mhda.UrnEditing
