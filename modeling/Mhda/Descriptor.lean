import Mhda.Setters

set_option autoImplicit false

namespace Mhda.Descriptors
open Mhda.ByteString Mhda.Detail Mhda.DetailFacts Mhda.Numeral Mhda.Catalogue Mhda.Nss Mhda.KeyValue
open Mhda.NssTokens Mhda.Chains Mhda.Path Mhda.Addresses Mhda.Template Mhda.PathText Mhda.PathParse Mhda.Setters

/-- A free-form value that is empty is not written. -/
structure Descriptor where
  network : NetworkType
  chainId : Bytes
  coin : Option UInt32
  path : Option HdPath
  algorithm : Algorithm
  format : Format
  addressPrefix : Bytes
  addressSuffix : Bytes
  walletType : Bytes
  walletId : Bytes
  network_registered : network.isValid = true
  chainId_token : Token chainId
  algorithm_ok : AlgorithmOk algorithm
  format_ok : FormatOk format
  addressPrefix_text : NssText addressPrefix
  addressSuffix_text : NssText addressSuffix
  walletType_text : NssText walletType
  walletId_text : NssText walletId

def optText (v : Bytes) : Option Bytes := if v = [] then none else some v

def pathPairs : Option HdPath → Components
  | none => []
  | some p => [(compDerivationType, p.scheme.type.value), (compDerivationPath, p.text)]

/-- The path an address gets; without one it is a root path. -/
def pathOf : Option HdPath → DerivationPath
  | none => DerivationPath.fresh .root
  | some p => p.toDerivationPath

namespace Descriptor

def pairs (d : Descriptor) : Components :=
  (compNetworkType, d.network.value) :: (compChainId, d.chainId) ::
    (optPair compCoinType (d.coin.map fun v => decimal v.toNat) ++ pathPairs d.path ++
      optPair compAddressAlgorithm (optText d.algorithm.value) ++
      optPair compAddressFormat (optText d.format.value) ++
      optPair compAddressPrefix (optText d.addressPrefix) ++
      optPair compAddressSuffix (optText d.addressSuffix) ++
      optPair compWalletType (optText d.walletType) ++
      optPair compWalletId (optText d.walletId))

def nss (d : Descriptor) : Bytes := joinPairs (ch ':') d.pairs

def render (d : Descriptor) : Bytes := prefixMhda ++ d.nss

def toAddress (d : Descriptor) : Address :=
  ⟨⟨d.network, d.chainId, d.coin⟩, some (pathOf d.path), d.algorithm, d.format,
    d.addressPrefix, d.addressSuffix, d.walletType, d.walletId⟩

end Descriptor

def Canonical (s : Bytes) : Prop := ∃ d : Descriptor, s = d.render

def PathDescribes : Option HdPath → Option DerivationPath → Prop
  | none, none => True
  | none, some q => q.type.isEmpty = true ∨ q.type = .root
  | some p, some q => q = p.toDerivationPath
  | some _, none => False

/-- The address has the values of the descriptor; a path without a scheme says nothing. -/
structure Describes (d : Descriptor) (a : Address) : Prop where
  chain : a.chain = ⟨d.network, d.chainId, d.coin⟩
  path : PathDescribes d.path a.path
  algorithm : a.algorithm = d.algorithm
  format : a.format = d.format
  addressPrefix : a.addressPrefix = d.addressPrefix
  addressSuffix : a.addressSuffix = d.addressSuffix
  walletType : a.walletType = d.walletType
  walletId : a.walletId = d.walletId

theorem toAddress_describes (d : Descriptor) : Describes d d.toAddress := by
  refine ⟨rfl, ?_, rfl, rfl, rfl, rfl, rfl, rfl⟩
  unfold Descriptor.toAddress
  cases d.path with
  | none => exact .inr rfl
  | some p => rfl

section Names

/-- A registered name: a token in lower case. -/
def Name (s : Bytes) : Prop := Token s ∧ toLower s = s

instance (s : Bytes) : Decidable (Name s) := inferInstanceAs (Decidable (_ ∧ _))

theorem network_name {nt : NetworkType} (h : nt.isValid = true) : Name nt.value := by
  have names : ∀ s ∈ NetworkType.ntIndex.map Prod.fst, Name s := by decide +kernel
  exact names _ ((lookup_isSome_iff _ _).mp h)

theorem algorithm_name {x : Algorithm} (h : x.isValid = true) : Name x.value := by
  have names : ∀ s ∈ Algorithm.algoIndex, Name s := by decide +kernel
  exact names _ (List.contains_iff_mem.mp h)

theorem format_name {x : Format} (h : x.isValid = true) : Name x.value := by
  have names : ∀ s ∈ Format.formatIndex, Name s := by decide +kernel
  exact names _ (List.contains_iff_mem.mp h)

theorem type_name {dt : DerivationType} (h : dt.isValid = true) : Name dt.value := by
  have names : ∀ s ∈ DerivationType.dtIndex, Name s := by decide +kernel
  exact names _ (List.contains_iff_mem.mp h)

theorem found_iff {α : Type} {names : List Bytes} {n v : Bytes} {hit miss out : α} (named : hit = out ↔ v = n)
    (other : miss ≠ out) : (if names.contains n then hit else miss) = out ↔ names.contains v = true ∧ v = n := by
  by_cases known : names.contains n = true
  · rw [if_pos known, named]
    exact ⟨fun same => ⟨same ▸ known, same⟩, And.right⟩
  · rw [if_neg known]
    refine iff_of_false other ?_
    rintro ⟨valid, rfl⟩
    exact known valid

/-- A registered name is found in any case and with blanks around it. -/
theorem fromString_iff (s : Bytes) :
    (∀ nt, networkTypeFromString s = some nt ↔ nt.isValid = true ∧ nt.value = normalize s) ∧
    (∀ dt, derivationTypeFromString s = .ok dt ↔ dt.isValid = true ∧ dt.value = normalize s) ∧
    (∀ x, algorithmFromString s = some x ↔ x.isValid = true ∧ x.value = normalize s) ∧
    ∀ x, formatFromString s = some x ↔ x.isValid = true ∧ x.value = normalize s := by
  refine ⟨?_, ?_, ?_, ?_⟩
  · have keyed : ∀ p ∈ NetworkType.ntIndex, p.2.value = p.1 := by decide +kernel
    have distinct : (NetworkType.ntIndex.map Prod.fst).Nodup := by decide +kernel
    have found : ∀ {v nt}, NetworkType.ntIndex.lookup v = some nt → nt.value = v :=
      fun h => keyed _ ((lookup_eq_some_iff_mem distinct).mp h)
    intro nt
    unfold networkTypeFromString NetworkType.isValid
    constructor
    · intro h
      rw [found h, h]
      exact ⟨rfl, rfl⟩
    · rintro ⟨valid, name⟩
      obtain ⟨⟨value⟩, h⟩ := Option.isSome_iff_exists.mp valid
      rw [← name, h, show value = nt.value from found h]
  · rintro ⟨name⟩
    exact found_iff (by simp [eq_comm]) nofun
  · rintro ⟨name⟩
    exact found_iff (by simp [eq_comm]) nofun
  · rintro ⟨name⟩
    exact found_iff (by simp [eq_comm]) nofun

end Names

section Rendering

theorem digitLoop_eq (fuel : ℕ) (v : UInt32) : Address.digitLoop fuel v = DerivationPath.digitLoop fuel v := by
  induction fuel generalizing v with
  | zero => rfl
  | succ fuel ih => simp only [Address.digitLoop, DerivationPath.digitLoop, ih]

theorem addressAppendUint32_eq (out : Bytes) (v : UInt32) :
    Address.appendUint32 out v = out ++ decimal v.toNat := by
  rw [← appendUint32_eq]
  unfold Address.appendUint32 DerivationPath.appendUint32
  rw [digitLoop_eq]
  split <;> rfl

theorem appendSet_eq (out key v : Bytes) :
    Address.appendSet out (ch ':' :: key ++ [ch ':']) v =
      out ++ emitPairs (ch ':') (optPair key (optText v)) := by
  unfold Address.appendSet optText
  cases v with
  | nil => simp
  | cons c v => simp [emitPairs]

def emittedPath : Option DerivationPath → Components
  | none => []
  | some q =>
    if !q.type.isEmpty && q.type != .root then
      (compDerivationType, q.type.value) :: optPair compDerivationPath (optText q.str)
    else []

/-- The components an address writes, complete or not. -/
def emitted (a : Address) : Components :=
  (compNetworkType, a.chain.network.value) :: (compChainId, a.chain.chainId) ::
    (optPair compCoinType (a.chain.coin.map fun v => decimal v.toNat) ++ emittedPath a.path ++
      optPair compAddressAlgorithm (optText a.algorithm.value) ++
      optPair compAddressFormat (optText a.format.value) ++
      optPair compAddressPrefix (optText a.addressPrefix) ++
      optPair compAddressSuffix (optText a.addressSuffix) ++
      optPair compWalletType (optText a.walletType) ++
      optPair compWalletId (optText a.walletId))

theorem componentLiterals : lit "nt:" = compNetworkType ++ [ch ':'] ∧ lit ":ci:" = ch ':' :: compChainId ++ [ch ':'] ∧
    lit ":ct:" = ch ':' :: compCoinType ++ [ch ':'] ∧ lit ":dt:" = ch ':' :: compDerivationType ++ [ch ':'] ∧
    lit ":dp:" = ch ':' :: compDerivationPath ++ [ch ':'] ∧
    lit ":aa:" = ch ':' :: compAddressAlgorithm ++ [ch ':'] ∧
    lit ":af:" = ch ':' :: compAddressFormat ++ [ch ':'] ∧
    lit ":ap:" = ch ':' :: compAddressPrefix ++ [ch ':'] ∧
    lit ":as:" = ch ':' :: compAddressSuffix ++ [ch ':'] ∧
    lit ":wt:" = ch ':' :: compWalletType ++ [ch ':'] ∧
    lit ":wi:" = ch ':' :: compWalletId ++ [ch ':'] :=
  ⟨rfl, rfl, rfl, rfl, rfl, rfl, rfl, rfl, rfl, rfl, rfl⟩

theorem nss_eq (a : Address) : a.nss = joinPairs (ch ':') (emitted a) := by
  obtain ⟨⟨network, chainId, coin⟩, path, algorithm, format, addressPrefix, addressSuffix, walletType, walletId⟩ := a
  obtain ⟨nt, ci, ct, dt, dp, aa, af, ap, as_, wt, wi⟩ := componentLiterals
  rw [emitted, joinPairs_cons]
  unfold Address.nss
  simp only [nt, ci, ct, dt, dp, aa, af, ap, as_, wt, wi, appendSet_eq, addressAppendUint32_eq]
  cases coin <;> cases path with
  | none => simp [emittedPath, emitPairs]
  | some q =>
    cases hq : !q.type.isEmpty && q.type != .root <;> simp [emittedPath, emitPairs, hq]

theorem text_ne_nil (p : HdPath) : p.text ≠ [] := by
  simp [HdPath.text, renderPath]

theorem emittedPath_of_describes {p : Option HdPath} {path : Option DerivationPath} (h : PathDescribes p path) :
    emittedPath path = pathPairs p := by
  cases path with
  | none =>
    cases p with
    | none => rfl
    | some p => exact h.elim
  | some q =>
    cases p with
    | none =>
      have blank : (!q.type.isEmpty && q.type != .root) = false := by
        rcases h with he | hr
        · simp [he]
        · simp [hr]
      simp [emittedPath, pathPairs, blank]
    | some p =>
      obtain rfl : q = concrete p.scheme p.levels := h
      have text : (concrete p.scheme p.levels).str = p.text := str_concrete p.fits
      have shown : (!p.scheme.type.isEmpty && p.scheme.type != .root) = true := by
        simp [p.scheme.type_ne_empty, p.scheme.type_ne_root]
      simp only [emittedPath, concrete_type, shown, if_true, text, optText, if_neg (text_ne_nil p),
        optPair_some, pathPairs]

theorem emitted_of_describes {d : Descriptor} {a : Address} (h : Describes d a) : emitted a = d.pairs := by
  rw [emitted, Descriptor.pairs, emittedPath_of_describes h.path, h.chain, h.algorithm, h.format,
    h.addressPrefix, h.addressSuffix, h.walletType, h.walletId]

theorem nss_of_describes {d : Descriptor} {a : Address} (h : Describes d a) : a.nss = d.nss := by
  rw [nss_eq, emitted_of_describes h, Descriptor.nss]

theorem str_of_describes {d : Descriptor} {a : Address} (h : Describes d a) : a.str = d.render := by
  unfold Address.str Descriptor.render
  rw [nss_of_describes h]
  rfl

end Rendering

section Components

theorem optText_token {v w : Bytes} (h : NssText v) (hw : optText v = some w) : Token w := by
  unfold optText at hw
  split at hw
  · cases hw
  · rename_i hne
    obtain rfl := Option.some.inj hw
    exact ⟨hne, h⟩

theorem mem_optPair {κ ν : Type} {k : κ} {o : Option ν} {p : κ × ν} (h : p ∈ optPair k o) :
    p.1 = k ∧ o = some p.2 := by
  cases o with
  | none => simp at h
  | some v =>
    rw [optPair_some, List.mem_singleton] at h
    subst h
    exact ⟨rfl, rfl⟩

theorem decimal_token (n : ℕ) : Token (decimal n) := by
  refine ⟨decimal_ne_nil n, ?_⟩
  intro c hc
  exact (decDigit_plain c (mem_decimal hc)).1

theorem renderPath_plain (levels : List AddressIndex) :
    ∀ c ∈ renderPath levels, nssByte c = true ∧ asciiLower c = c := by
  have front : nssByte (ch 'm') = true ∧ asciiLower (ch 'm') = ch 'm' := by decide
  have slash : nssByte (ch '/') = true ∧ asciiLower (ch '/') = ch '/' := by decide
  have mark : nssByte apostrophe = true ∧ asciiLower apostrophe = apostrophe := by decide
  intro c hc
  rw [renderPath, List.mem_cons] at hc
  rcases hc with rfl | hc
  · exact front
  · obtain ⟨l, _, hl⟩ := List.mem_flatMap.mp hc
    rcases List.mem_cons.mp hl with rfl | hl
    · exact slash
    · rw [renderLevel, List.mem_append] at hl
      rcases hl with hl | hl
      · have digit := decDigit_plain c (mem_decimal hl)
        exact ⟨digit.1, digit.2.2⟩
      · split at hl
        · rw [List.mem_singleton] at hl
          subst hl
          exact mark
        · simp at hl

theorem renderPath_token (levels : List AddressIndex) : Token (renderPath levels) :=
  ⟨by simp [renderPath], fun c hc => (renderPath_plain levels c hc).1⟩

theorem renderPath_lower (levels : List AddressIndex) : toLower (renderPath levels) = renderPath levels := by
  rw [toLower, List.map_congr_left fun c hc => (renderPath_plain levels c hc).2, List.map_id']

theorem algorithmOk_text {x : Algorithm} (h : AlgorithmOk x) : NssText x.value ∧ toLower x.value = x.value := by
  rcases h with he | hv
  · rw [List.isEmpty_iff.mp he]
    exact ⟨by simp [NssText], rfl⟩
  · exact ⟨(algorithm_name hv).1.2, (algorithm_name hv).2⟩

theorem formatOk_text {x : Format} (h : FormatOk x) : NssText x.value ∧ toLower x.value = x.value := by
  rcases h with he | hv
  · rw [List.isEmpty_iff.mp he]
    exact ⟨by simp [NssText], rfl⟩
  · exact ⟨(format_name hv).1.2, (format_name hv).2⟩

/-- The keys come in the order of the known components, each at most once. -/
theorem emitted_keys (a : Address) : ((emitted a).map Prod.fst).Sublist knownComponents := by
  have one : ∀ (k : Bytes) (o : Option Bytes), ((optPair k o).map Prod.fst).Sublist [k] := by
    intro k o
    cases o <;> simp
  have two : ((emittedPath a.path).map Prod.fst).Sublist [compDerivationType, compDerivationPath] := by
    cases a.path with
    | none => simp [emittedPath]
    | some q =>
      cases hq : !q.type.isEmpty && q.type != .root with
      | false => simp [emittedPath, hq]
      | true =>
        simp only [emittedPath, hq, if_true, List.map_cons]
        exact (one _ _).cons_cons _
  have split : knownComponents = compNetworkType :: compChainId ::
      ([compCoinType] ++ [compDerivationType, compDerivationPath] ++ [compAddressAlgorithm] ++
        [compAddressFormat] ++ [compAddressPrefix] ++ [compAddressSuffix] ++ [compWalletType] ++
        [compWalletId]) := rfl
  rw [split, emitted]
  simp only [List.map_cons, List.map_append]
  apply List.Sublist.cons_cons
  apply List.Sublist.cons_cons
  exact (((((((one _ _).append two).append (one _ _)).append (one _ _)).append (one _ _)).append
    (one _ _)).append (one _ _)).append (one _ _)

theorem emitted_known (a : Address) : known (emitted a) = emitted a :=
  known_eq_self fun _ hp => (emitted_keys a).subset (List.mem_map_of_mem hp)

/-- What holds of tokens holds of every written value, if it holds of the parts that are always written. -/
theorem forall_emitted {a : Address} {P : Bytes → Prop} (token : ∀ v, Token v → P v)
    (network : P a.chain.network.value) (chainId : P a.chain.chainId)
    (path : ∀ p ∈ emittedPath a.path, P p.2) (algorithm : AlgorithmOk a.algorithm) (format : FormatOk a.format)
    (addressPrefix : NssText a.addressPrefix) (addressSuffix : NssText a.addressSuffix)
    (walletType : NssText a.walletType) (walletId : NssText a.walletId) : ∀ p ∈ emitted a, P p.2 := by
  have optional : ∀ {k v : Bytes} {p : Bytes × Bytes}, NssText v → p ∈ optPair k (optText v) → P p.2 :=
    fun hv hp => token _ (optText_token hv (mem_optPair hp).2)
  intro p hp
  simp only [emitted, List.mem_cons, List.mem_append] at hp
  rcases hp with rfl | rfl | (((((((hp | hp) | hp) | hp) | hp) | hp) | hp) | hp)
  · exact network
  · exact chainId
  · obtain ⟨n, _, hn⟩ := Option.map_eq_some_iff.mp (mem_optPair hp).2
    rw [← hn]
    exact token _ (decimal_token _)
  · exact path p hp
  · exact optional (algorithmOk_text algorithm).1 hp
  · exact optional (formatOk_text format).1 hp
  · exact optional addressPrefix hp
  · exact optional addressSuffix hp
  · exact optional walletType hp
  · exact optional walletId hp

theorem pathPairs_tokens (p : Option HdPath) : ∀ q ∈ pathPairs p, Token q.2 := by
  cases p with
  | none => simp [pathPairs]
  | some p =>
    intro q hq
    rw [pathPairs, List.mem_cons, List.mem_singleton] at hq
    rcases hq with rfl | rfl
    · exact (type_name p.scheme.type_valid).1
    · exact renderPath_token _

theorem pairs_tokens (d : Descriptor) : ∀ p ∈ d.pairs, Token p.2 := by
  rw [← emitted_of_describes (toAddress_describes d)]
  refine forall_emitted (fun _ h => h) (network_name d.network_registered).1 d.chainId_token ?_
    d.algorithm_ok d.format_ok d.addressPrefix_text d.addressSuffix_text d.walletType_text d.walletId_text
  rw [emittedPath_of_describes (toAddress_describes d).path]
  exact pathPairs_tokens d.path

theorem pairs_known (d : Descriptor) : known d.pairs = d.pairs := by
  rw [← emitted_of_describes (toAddress_describes d), emitted_known]

theorem pairs_keys (d : Descriptor) : (d.pairs.map Prod.fst).Sublist knownComponents := by
  rw [← emitted_of_describes (toAddress_describes d)]
  exact emitted_keys _

theorem pairs_key_known (d : Descriptor) : ∀ p ∈ d.pairs, Known p.1 :=
  fun _ hp => (pairs_keys d).subset (List.mem_map_of_mem hp)

theorem pairs_keys_nodup (d : Descriptor) : (d.pairs.map Prod.fst).Nodup := (pairs_keys d).nodup knownComponents_nodup

theorem pairs_wellFormed (d : Descriptor) : WellFormed d.pairs :=
  (wellFormed_iff_tokens (pairs_key_known d) (pairs_keys_nodup d)).mpr (pairs_tokens d)

theorem lookup_pairs (d : Descriptor) :
    d.pairs.lookup compNetworkType = some d.network.value ∧
    d.pairs.lookup compChainId = some d.chainId ∧
    d.pairs.lookup compCoinType = d.coin.map (fun v => decimal v.toNat) ∧
    d.pairs.lookup compDerivationType = d.path.map (fun p => p.scheme.type.value) ∧
    d.pairs.lookup compDerivationPath = d.path.map HdPath.text ∧
    d.pairs.lookup compAddressAlgorithm = optText d.algorithm.value ∧
    d.pairs.lookup compAddressFormat = optText d.format.value ∧
    d.pairs.lookup compAddressPrefix = optText d.addressPrefix ∧
    d.pairs.lookup compAddressSuffix = optText d.addressSuffix ∧
    d.pairs.lookup compWalletType = optText d.walletType ∧
    d.pairs.lookup compWalletId = optText d.walletId := by
  have path : ∀ k, (pathPairs d.path).lookup k =
      if k = compDerivationType then d.path.map (fun p => p.scheme.type.value)
      else if k = compDerivationPath then d.path.map HdPath.text else none := by
    intro k
    cases d.path with
    | none => simp [pathPairs]
    | some p => simp only [pathPairs, lookup_cons_if, Option.map_some, List.lookup_nil]
  unfold Descriptor.pairs
  simp only [lookup_cons_if, List.lookup_append, lookup_optPair, path]
  simp +decide only [if_true, if_false, Option.none_or, Option.or_none, and_self]

end Components

end Mhda.Descriptors
