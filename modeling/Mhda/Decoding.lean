import Mhda.Descriptor

set_option autoImplicit false

namespace Mhda.Decoding
open Mhda.ByteString Mhda.Errors Mhda.Detail Mhda.DetailFacts Mhda.Numeral Mhda.Catalogue Mhda.Nss
open Mhda.KeyValue Mhda.NssTokens Mhda.Transition Mhda.Chains Mhda.Path Mhda.Addresses Mhda.Parser
open Mhda.Template Mhda.PathText Mhda.PathParse Mhda.PathHistory Mhda.Setters Mhda.Descriptors

def CoinDecodes : Option Bytes → Option UInt32 → Prop
  | none, coin => coin = none
  | some ct, coin => ∃ v, coin = some v ∧ SpellsNumber ct v.toNat

/-- A root type is no path; any other type comes with a text of its template. -/
def PathDecodes (dt dp : Bytes) : Option HdPath → Prop
  | none => (dt = [] ∨ toLower dt = DerivationType.root.value) ∧ dp = []
  | some p => toLower dt = p.scheme.type.value ∧
      ∃ raws, PathSpells (toLower dp) raws ∧ FitsRaw p.scheme raws ∧ p.levels = raws.map RawLevel.level

theorem path_starts {dp : Bytes} {raws : List RawLevel} (h : PathSpells (toLower dp) raws) : dp ≠ [] := by
  rintro rfl
  obtain ⟨segs, hs, _⟩ := h
  cases hs

/-- The documented meaning of a component map whose values are tokens. -/
structure Decodes (m : Components) (d : Descriptor) : Prop where
  network : ∃ nt, m.lookup compNetworkType = some nt ∧ d.network = ⟨toLower nt⟩
  chainId : m.lookup compChainId = some d.chainId
  coin : CoinDecodes (m.lookup compCoinType) d.coin
  path : PathDecodes (get m compDerivationType) (get m compDerivationPath) d.path
  algorithm : d.algorithm = ⟨toLower (get m compAddressAlgorithm)⟩
  format : d.format = ⟨toLower (get m compAddressFormat)⟩
  addressPrefix : d.addressPrefix = get m compAddressPrefix
  addressSuffix : d.addressSuffix = get m compAddressSuffix
  walletType : d.walletType = get m compWalletType
  walletId : d.walletId = get m compWalletId

def TokenValues (m : Components) : Prop := ∀ k v, m.lookup k = some v → Token v

theorem get_text {m : Components} (h : TokenValues m) (k : Bytes) : NssText (get m k) := by
  unfold Parser.get
  cases hl : m.lookup k with
  | none => simp [NssText]
  | some v => exact (h k v hl).2

theorem coinReads_iff {m : Components} (h : TokenValues m) (coin : Option UInt32) :
    CoinReads m coin ↔ CoinDecodes (m.lookup compCoinType) coin := by
  unfold CoinReads CoinDecodes
  cases hl : m.lookup compCoinType with
  | none => rfl
  | some ct =>
    have token := h _ _ hl
    simp only [token.2.trim, parseUint32_eq_some]
    constructor
    · rintro ⟨v, hv, rfl⟩
      exact ⟨v, rfl, hv⟩
    · rintro ⟨v, rfl, hv⟩
      exact ⟨v, hv, rfl⟩

theorem chosenType_root {dt : Bytes} (h : NssText dt) :
    chosenType dt = .root ↔ dt = [] ∨ toLower dt = DerivationType.root.value := by
  unfold chosenType
  rw [h.normalize, toLower_isEmpty]
  cases dt with
  | nil => simp
  | cons c s => simp [DerivationType.root]

theorem chosenType_scheme {dt : Bytes} (h : NssText dt) (s : Scheme) :
    chosenType dt = s.type ↔ toLower dt = s.type.value := by
  have name := type_name s.type_valid
  unfold chosenType
  rw [h.normalize, toLower_isEmpty]
  cases dt with
  | nil =>
    have root : DerivationType.root ≠ s.type := fun h => s.type_ne_root h.symm
    have full : ([] : Bytes) ≠ s.type.value := fun h => name.1.1 h.symm
    simp [root, toLower, full]
  | cons c t =>
    rw [List.isEmpty_cons, if_neg (by simp)]
    cases s.type
    simp

theorem parse_chosen {dt dp : Bytes} (ht : NssText dt) (hp : NssText dp) (q : DerivationPath) :
    DerivationPath.parse (chosenType dt) (normalize dp) = .ok q ↔
      ∃ p, PathDecodes dt dp p ∧ q = pathOf p := by
  rw [hp.normalize]
  constructor
  · intro h
    rcases valid_cases (parse_valid h) with hr | ⟨s, hs⟩
    · rw [hr, parse_root] at h
      refine ⟨none, ⟨(chosenType_root ht).mp hr, ?_⟩, h.2⟩
      exact List.map_eq_nil_iff.mp h.1
    · rw [hs] at h
      obtain ⟨raws, spelled, valid, rfl⟩ := (parse_eq_ok _ _ _).mp h
      refine ⟨some ⟨s, raws.map RawLevel.level, valid.fits (spells_inRange spelled)⟩, ?_, rfl⟩
      exact ⟨(chosenType_scheme ht s).mp hs, raws, spelled, valid, rfl⟩
  · rintro ⟨p, hd, rfl⟩
    cases p with
    | none =>
      obtain ⟨hr, rfl⟩ := hd
      rw [(chosenType_root ht).mpr hr]
      exact (parse_root _ _).mpr ⟨rfl, rfl⟩
    | some p =>
      obtain ⟨hs, raws, spelled, valid, levels⟩ := hd
      rw [(chosenType_scheme ht p.scheme).mpr hs]
      refine (parse_eq_ok _ _ _).mpr ⟨raws, spelled, valid, ?_⟩
      rw [← levels]
      rfl

theorem parseAddressFromComponents_iff {m : Components} (h : TokenValues m) (a : Address) :
    parseAddressFromComponents m = .ok a ↔ ∃ d, Decodes m d ∧ a = d.toAddress := by
  have text := get_text h
  rw [parseAddressFromComponents_eq_ok]
  simp only [(text _).trim, (text _).normalize]
  constructor
  · rintro ⟨c, q, hc, hq, haa, haf, hap, has, hwt, hwi, rfl⟩
    obtain ⟨nt, ci, hnt, hci, hnet, valid, hid, token, hcoin⟩ := (buildChain_eq_ok _ _).mp hc
    rw [← (text compDerivationPath).normalize] at hq
    obtain ⟨p, hp, rfl⟩ := (parse_chosen (text _) (text _) q).mp hq
    have ciTrim : trim ci = ci := (h _ _ hci).2.trim
    have ntTrim : normalize nt = toLower nt := (h _ _ hnt).2.normalize
    rw [ciTrim] at hid token
    refine ⟨⟨c.network, c.chainId, c.coin, p, ⟨toLower (get m compAddressAlgorithm)⟩,
      ⟨toLower (get m compAddressFormat)⟩, get m compAddressPrefix, get m compAddressSuffix,
      get m compWalletType, get m compWalletId, valid, hid ▸ token, haa, haf, hap, has, hwt, hwi⟩, ?_, ?_⟩
    · refine ⟨⟨nt, hnt, by rw [← ntTrim]; exact hnet⟩, hci.trans (congrArg some hid.symm), (coinReads_iff h _).mp hcoin, hp,
        rfl, rfl, rfl, rfl, rfl, rfl⟩
    · rfl
  · rintro ⟨d, hd, rfl⟩
    obtain ⟨nt, hnt, hnet⟩ := hd.network
    refine ⟨⟨d.network, d.chainId, d.coin⟩, pathOf d.path, ?_, ?_, ?_, ?_, text _, text _, text _, text _, ?_⟩
    · refine (buildChain_eq_ok _ _).mpr ⟨nt, d.chainId, hnt, hd.chainId, ?_, d.network_registered, ?_, ?_,
        (coinReads_iff h _).mpr hd.coin⟩
      · rw [(h _ _ hnt).2.normalize]
        exact hnet
      · exact d.chainId_token.2.trim.symm
      · rw [d.chainId_token.2.trim]
        exact d.chainId_token
    · rw [← (text compDerivationPath).normalize]
      exact (parse_chosen (text _) (text _) _).mpr ⟨d.path, hd.path, rfl⟩
    · exact hd.algorithm ▸ d.algorithm_ok
    · exact hd.format ▸ d.format_ok
    · rw [← hd.algorithm, ← hd.format, ← hd.addressPrefix, ← hd.addressSuffix, ← hd.walletType, ← hd.walletId]
      rfl

theorem tokenValues_known {ps : Components} (h : WellFormed ps) : TokenValues (known ps) :=
  fun _ _ hl => lookup_token h hl

/-- What a decoded text is: the text of well-formed pairs that mean a descriptor. -/
theorem parseAddressNss_eq_ok (n : Bytes) (a : Address) :
    parseAddressNss n = .ok a ↔
      ∃ ps d, n = joinPairs (ch ':') ps ∧ WellFormed ps ∧ Decodes (known ps) d ∧ a = d.toAddress := by
  unfold parseAddressNss
  rw [bind_eq_ok]
  constructor
  · rintro ⟨m, hm, ha⟩
    obtain ⟨ps, rfl, hw, rfl⟩ := (parseNssMap_eq_ok _ _).mp hm
    split at ha
    · cases ha
    · obtain ⟨d, hd, rfl⟩ := (parseAddressFromComponents_iff (tokenValues_known hw) a).mp ha
      exact ⟨ps, d, rfl, hw, hd, rfl⟩
  · rintro ⟨ps, d, rfl, hw, hd, rfl⟩
    obtain ⟨nt, hnt, _⟩ := hd.network
    refine ⟨known ps, parseNssMap_wellFormed hw, ?_⟩
    rw [hnt, if_neg (by simp)]
    exact (parseAddressFromComponents_iff (tokenValues_known hw) _).mpr ⟨d, hd, rfl⟩

theorem parseUrn_eq_ok (s : Bytes) (a : Address) :
    parseUrn s = .ok a ↔ hasPrefixFold (trim s) prefixMhda = true ∧
      parseAddressNss (trimRight (stripRqf ((trim s).drop prefixMhda.length))) = .ok a := by
  unfold parseUrn
  simp only
  cases hasPrefixFold (trim s) prefixMhda <;> simp

section Canonical

theorem hasPrefixFold_mhda (n : Bytes) : hasPrefixFold (prefixMhda ++ n) prefixMhda = true := by
  have short : ¬ (prefixMhda ++ n).length < prefixMhda.length := by simp
  unfold hasPrefixFold
  rw [if_neg short, List.take_left']
  · decide
  · rfl

/-- Neither trimming nor stripping touches the bytes of well-formed pairs. -/
theorem parseUrn_plain {n : Bytes} (h : ∀ c ∈ n, c = ch ':' ∨ nssByte c = true) :
    parseUrn (prefixMhda ++ n) = parseAddressNss n := by
  have colon : isAsciiSpace (ch ':') = false ∧ opensRqf (ch ':') = false := by decide
  have visible : ∀ c ∈ n, isAsciiSpace c = false ∧ opensRqf c = false := by
    intro c hc
    rcases h c hc with rfl | hn
    · exact colon
    · exact ⟨(nssByte_plain c hn).1, (nssByte_plain c hn).2.2.1⟩
  have front : ∀ c ∈ prefixMhda, isAsciiSpace c = false := by decide +kernel
  have noSpace : ∀ c ∈ prefixMhda ++ n, isAsciiSpace c = false := by
    intro c hc
    rcases List.mem_append.mp hc with hp | hn
    · exact front c hp
    · exact (visible c hn).1
  have whole : trim (prefixMhda ++ n) = prefixMhda ++ n :=
    trim_eq_self ⟨fun c hc => noSpace c (List.mem_of_mem_head? hc),
      fun c hc => noSpace c (List.mem_of_mem_getLast? hc)⟩
  have strip : stripRqf n = n := by
    unfold stripRqf
    rw [List.takeWhile_eq_self_iff]
    intro c hc
    simp [(visible c hc).2]
  have right : trimRight n = n := by
    apply rdropWhile_eq_self_of_last
    intro c hc
    simp [(visible c (List.mem_of_mem_getLast? hc)).1]
  unfold parseUrn
  rw [whole]
  simp only [hasPrefixFold_mhda, List.drop_left, strip, right, Bool.not_true, Bool.false_eq_true, if_false]

theorem optText_getD (v : Bytes) : (optText v).getD [] = v := by
  unfold optText
  split
  · rename_i h
    exact h.symm
  · rfl

theorem pairs_decode (d : Descriptor) : Decodes d.pairs d := by
  obtain ⟨nt, ci, ct, dt, dp, aa, af, ap, as_, wt, wi⟩ := lookup_pairs d
  constructor
  · exact ⟨_, nt, by rw [(network_name d.network_registered).2]⟩
  · exact ci
  · rw [ct]
    cases d.coin with
    | none => rfl
    | some v => exact ⟨v, rfl, .inl (isDecimal_decimal _)⟩
  · unfold Parser.get
    rw [dt, dp]
    cases d.path with
    | none => exact ⟨.inl rfl, rfl⟩
    | some p =>
      refine ⟨(type_name p.scheme.type_valid).2, p.levels.map exactRaw, ?_, fitsRaw_exact p.fits, ?_⟩
      · simp only [Option.map_some, Option.getD_some, HdPath.text]
        rw [renderPath_lower]
        exact (parseLevels_eq_some _ _).mp (parseLevels_renderPath p.fits.2)
      · rw [level_exactRaw]
  · rw [Parser.get, aa, optText_getD, (algorithmOk_text d.algorithm_ok).2]
  · rw [Parser.get, af, optText_getD, (formatOk_text d.format_ok).2]
  · rw [Parser.get, ap, optText_getD]
  · rw [Parser.get, as_, optText_getD]
  · rw [Parser.get, wt, optText_getD]
  · rw [Parser.get, wi, optText_getD]

theorem parseAddressNss_nss (d : Descriptor) : parseAddressNss d.nss = .ok d.toAddress := by
  refine (parseAddressNss_eq_ok _ _).mpr ⟨d.pairs, d, rfl, pairs_wellFormed d, ?_, rfl⟩
  rw [pairs_known]
  exact pairs_decode d

theorem parseUrn_render (d : Descriptor) : parseUrn d.render = .ok d.toAddress := by
  have plain := parseUrn_plain (pairs_wellFormed d).plain
  rw [Descriptor.render, Descriptor.nss, plain]
  exact parseAddressNss_nss d

theorem parseNss_nss (d : Descriptor) : parseNss d.nss = .ok d.toAddress := by
  rw [parseNss, Descriptor.nss, trim_eq_self (pairs_wellFormed d).trimmed]
  exact parseAddressNss_nss d

theorem toAddress_nss (d : Descriptor) : d.toAddress.nss = d.nss := nss_of_describes (toAddress_describes d)

theorem toAddress_str (d : Descriptor) : d.toAddress.str = d.render := str_of_describes (toAddress_describes d)

theorem parseAddressNss_descriptor {n : Bytes} {a : Address} (h : parseAddressNss n = .ok a) :
    ∃ d : Descriptor, a = d.toAddress := by
  obtain ⟨_, d, _, _, _, rfl⟩ := (parseAddressNss_eq_ok n a).mp h
  exact ⟨d, rfl⟩

theorem parseUrn_descriptor {s : Bytes} {a : Address} (h : parseUrn s = .ok a) : ∃ d : Descriptor, a = d.toAddress :=
  parseAddressNss_descriptor ((parseUrn_eq_ok s a).mp h).2

theorem parseNss_descriptor {s : Bytes} {a : Address} (h : parseNss s = .ok a) : ∃ d : Descriptor, a = d.toAddress :=
  parseAddressNss_descriptor h

end Canonical

end Mhda.Decoding
