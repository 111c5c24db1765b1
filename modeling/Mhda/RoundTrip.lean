import Mhda.Decoding

set_option autoImplicit false

namespace Mhda.RoundTrip
open Mhda.ByteString Mhda.Detail Mhda.DetailFacts Mhda.Numeral Mhda.Catalogue Mhda.Nss Mhda.KeyValue
open Mhda.NssTokens Mhda.Path Mhda.Addresses Mhda.Parser Mhda.Template Mhda.PathText Mhda.PathParse
open Mhda.Descriptors Mhda.Decoding

/-- Parsing canonicalises, the canonical form is a fixed point, and it names one address. -/
theorem canonical_round_trip :
    (∀ s a, parseUrn s = .ok a → Canonical a.str ∧ parseUrn a.str = .ok a) ∧
    (∀ c, Canonical c → ∃ a, parseUrn c = .ok a ∧ a.str = c) ∧
    (∀ s t a b, parseUrn s = .ok a → parseUrn t = .ok b → a.str = b.str → a = b) := by
  have back : ∀ s a, parseUrn s = .ok a → Canonical a.str ∧ parseUrn a.str = .ok a := by
    intro s a h
    obtain ⟨d, rfl⟩ := parseUrn_descriptor h
    rw [toAddress_str]
    exact ⟨⟨d, rfl⟩, parseUrn_render d⟩
  refine ⟨back, ?_, ?_⟩
  · rintro c ⟨d, rfl⟩
    exact ⟨d.toAddress, parseUrn_render d, toAddress_str d⟩
  · intro s t a b ha hb hab
    have pa := (back s a ha).2
    have pb := (back t b hb).2
    rw [hab, pb] at pa
    exact (Except.ok.inj pa).symm

section Components

def rawPairs (n : Bytes) : Components := pairUp (split (trim n) (ch ':'))

theorem rawPairs_eq {n : Bytes} {ps : Components} (h : trim n = joinPairs (ch ':') ps) (hw : WellFormed ps) :
    rawPairs n = ps := by
  unfold rawPairs
  rw [h]
  by_cases hn : ps = []
  · subst hn
    rfl
  · rw [split, splitOn_joinPairs (ch ':') ps hn hw.no_colon, pairUp_tokens]

def foldedKeys : List Bytes :=
  [compNetworkType, compDerivationType, compAddressAlgorithm, compAddressFormat]

/-- The documented normalisation of the value of a component. -/
def Normal (k v v' : Bytes) : Prop :=
  if k ∈ foldedKeys then v' = toLower v
  else if k = compCoinType then ∃ n, SpellsNumber v n ∧ v' = decimal n
  else if k = compDerivationPath then
    ∃ raws, PathSpells (toLower v) raws ∧ v' = renderPath (raws.map RawLevel.level)
  else v' = v

/-- A `dt` that says root, which the canonical form leaves out. -/
def NamesRoot (k v : Bytes) : Prop := k = compDerivationType ∧ toLower v = DerivationType.root.value

/-- What becomes of the component `k`, read as `o` and written as `o'`. -/
def Carries (k : Bytes) (o o' : Option Bytes) : Prop :=
  match o with
  | none => o' = none
  | some v => (NamesRoot k v ∧ o' = none) ∨ (¬ NamesRoot k v ∧ ∃ v', o' = some v' ∧ Normal k v v')

theorem normal_folded {k : Bytes} (h : k ∈ foldedKeys) (v : Bytes) : Normal k v (toLower v) := by
  rw [Normal, if_pos h]

theorem normal_verbatim {k : Bytes} (h : k ∉ foldedKeys ∧ k ≠ compCoinType ∧ k ≠ compDerivationPath)
    (v : Bytes) : Normal k v v := by
  rw [Normal, if_neg h.1, if_neg h.2.1, if_neg h.2.2]

theorem normal_coin {v : Bytes} {n : ℕ} (h : SpellsNumber v n) : Normal compCoinType v (decimal n) := by
  rw [Normal, if_neg (by decide), if_pos rfl]
  exact ⟨n, h, rfl⟩

theorem normal_path {v : Bytes} {raws : List RawLevel} (h : PathSpells (toLower v) raws) :
    Normal compDerivationPath v (renderPath (raws.map RawLevel.level)) := by
  rw [Normal, if_neg (by decide), if_neg (by decide), if_pos rfl]
  exact ⟨raws, h, rfl⟩

theorem not_namesRoot {k v : Bytes} (h : k ≠ compDerivationType) : ¬ NamesRoot k v := fun hr => h hr.1

theorem carries_some {k v v' : Bytes} (hk : k ≠ compDerivationType) (h : Normal k v v') :
    Carries k (some v) (some v') := .inr ⟨not_namesRoot hk, v', rfl, h⟩

theorem carries_text {k : Bytes} {o : Option Bytes} {f : Bytes → Bytes} (hk : k ≠ compDerivationType)
    (ho : ∀ v, o = some v → Token v) (hf : f [] = []) (ht : ∀ v, Token v → Token (f v))
    (hn : ∀ v, Normal k v (f v)) : Carries k o (optText (f (o.getD []))) := by
  cases o with
  | none =>
    rw [Option.getD_none, hf]
    rfl
  | some v =>
    have full : f v ≠ [] := (ht v (ho v rfl)).1
    rw [Option.getD_some, optText, if_neg full]
    exact carries_some hk (hn v)

theorem carries_path {dt dp : Option Bytes} {p : Option HdPath}
    (ht : ∀ v, dt = some v → Token v) (hp : ∀ v, dp = some v → Token v)
    (h : PathDecodes (dt.getD []) (dp.getD []) p) :
    Carries compDerivationType dt (p.map fun q => q.scheme.type.value) ∧
      Carries compDerivationPath dp (p.map HdPath.text) := by
  have notType : compDerivationPath ≠ compDerivationType := by decide
  cases p with
  | none =>
    obtain ⟨hr, he⟩ := h
    refine ⟨?_, ?_⟩
    · cases dt with
      | none => rfl
      | some v =>
        rcases hr with hr | hr
        · exact absurd hr (ht v rfl).1
        · exact .inl ⟨⟨rfl, hr⟩, rfl⟩
    · cases dp with
      | none => rfl
      | some v => exact absurd he (hp v rfl).1
  | some q =>
    obtain ⟨hs, raws, spelled, _, levels⟩ := h
    have name := type_name q.scheme.type_valid
    refine ⟨?_, ?_⟩
    · cases dt with
      | none => exact absurd hs.symm name.1.1
      | some v =>
        have notRoot : ¬ NamesRoot compDerivationType v := by
          rintro ⟨_, hr⟩
          rw [Option.getD_some, hr] at hs
          exact q.scheme.type_ne_root (congrArg DerivationType.mk hs.symm)
        have folded : Normal compDerivationType v (toLower v) := normal_folded (by decide) v
        rw [Option.getD_some] at hs
        rw [hs] at folded
        exact .inr ⟨notRoot, _, rfl, folded⟩
    · cases dp with
      | none => exact absurd rfl (path_starts spelled)
      | some v =>
        refine carries_some notType ?_
        rw [HdPath.text, levels]
        exact normal_path spelled

theorem carries_pairs {m : Components} {d : Descriptor} (ht : TokenValues m) (hd : Decodes m d)
    {k : Bytes} (hk : Known k) : Carries k (m.lookup k) (d.pairs.lookup k) := by
  obtain ⟨nt, ci, ct, dt, dp, aa, af, ap, as_, wt, wi⟩ := lookup_pairs d
  obtain ⟨path_dt, path_dp⟩ := carries_path (ht _) (ht _) hd.path
  have lower : ∀ v, Token v → Token (toLower v) := fun v hv => hv.toLower
  unfold Known knownComponents at hk
  simp only [List.mem_cons, List.not_mem_nil, or_false] at hk
  rcases hk with rfl | rfl | rfl | rfl | rfl | rfl | rfl | rfl | rfl | rfl | rfl
  · obtain ⟨v, hv, hn⟩ := hd.network
    rw [nt, hv, hn]
    exact carries_some (by decide) (normal_folded (by decide) v)
  · rw [ci, hd.chainId]
    exact carries_some (by decide) (normal_verbatim (by decide) _)
  · rw [ct]
    have coin := hd.coin
    cases hc : m.lookup compCoinType with
    | none =>
      rw [hc] at coin
      rw [show d.coin = none from coin]
      rfl
    | some v =>
      rw [hc] at coin
      obtain ⟨n, hn, spells⟩ := coin
      rw [hn]
      exact carries_some (by decide) (normal_coin spells)
  · rw [dt]
    exact path_dt
  · rw [dp]
    exact path_dp
  · rw [aa, hd.algorithm]
    exact carries_text (by decide) (ht _) rfl lower (normal_folded (by decide))
  · rw [af, hd.format]
    exact carries_text (by decide) (ht _) rfl lower (normal_folded (by decide))
  · rw [ap, hd.addressPrefix]
    exact carries_text (f := id) (by decide) (ht _) rfl (fun _ h => h) (normal_verbatim (by decide))
  · rw [as_, hd.addressSuffix]
    exact carries_text (f := id) (by decide) (ht _) rfl (fun _ h => h) (normal_verbatim (by decide))
  · rw [wt, hd.walletType]
    exact carries_text (f := id) (by decide) (ht _) rfl (fun _ h => h) (normal_verbatim (by decide))
  · rw [wi, hd.walletId]
    exact carries_text (f := id) (by decide) (ht _) rfl (fun _ h => h) (normal_verbatim (by decide))

theorem written_known {d : Descriptor} {k v : Bytes} (h : d.pairs.lookup k = some v) : Known k := by
  have written : (d.pairs.lookup k).isSome = true := by simp [h]
  exact (pairs_keys d).subset ((lookup_isSome_iff _ _).mp written)

theorem mem_rawPairs {n : Bytes} {ps : Components} (text : trim n = joinPairs (ch ':') ps) (hw : WellFormed ps)
    {k : Bytes} (hk : Known k) (v : Bytes) : (k, v) ∈ rawPairs n ↔ (known ps).lookup k = some v := by
  rw [rawPairs_eq text hw, lookup_known hw]
  simp [hk]

theorem carries_written {k : Bytes} {o o' : Option Bytes} (h : Carries k o o') :
    (∃ v', o' = some v') ↔ ∃ v, o = some v ∧ ¬ NamesRoot k v := by
  cases o with
  | none =>
    rw [show o' = none from h]
    simp
  | some v =>
    rcases h with ⟨isRoot, rfl⟩ | ⟨notRoot, v', rfl, _⟩
    · simp [isRoot]
    · simp [notRoot]

theorem carries_normal {k v v' : Bytes} (h : Carries k (some v) (some v')) : Normal k v v' := by
  rcases h with ⟨_, gone⟩ | ⟨_, w, hw, normal⟩
  · cases gone
  · obtain rfl := Option.some.inj hw
    exact normal

/-- Nothing is dropped and nothing invented between an accepted text and the written components. -/
theorem parseNss_components (n : Bytes) (a : Address) (h : parseNss n = .ok a) :
    ∃ m, parseNssMap a.nss = .ok m ∧
      (∀ k, (∃ v', m.lookup k = some v') ↔ Known k ∧ ∃ v, (k, v) ∈ rawPairs n ∧ ¬ NamesRoot k v) ∧
      (∀ k v v', (k, v) ∈ rawPairs n → m.lookup k = some v' → Normal k v v') := by
  obtain ⟨ps, d, text, hw, hd, rfl⟩ := (parseAddressNss_eq_ok _ _).mp h
  have written : parseNssMap d.toAddress.nss = .ok d.pairs := by
    rw [toAddress_nss, Descriptor.nss, parseNssMap_wellFormed (pairs_wellFormed d), pairs_known]
  have carried := fun k (hk : Known k) => carries_pairs (tokenValues_known hw) hd hk
  refine ⟨d.pairs, written, ?_, ?_⟩
  · intro k
    constructor
    · rintro ⟨v', hv'⟩
      have hk := written_known hv'
      obtain ⟨v, hv, notRoot⟩ := (carries_written (carried k hk)).mp ⟨v', hv'⟩
      exact ⟨hk, v, (mem_rawPairs text hw hk v).mpr hv, notRoot⟩
    · rintro ⟨hk, v, hv, notRoot⟩
      exact (carries_written (carried k hk)).mpr ⟨v, (mem_rawPairs text hw hk v).mp hv, notRoot⟩
  · intro k v v' hv hv'
    have hk := written_known hv'
    have carry := carried k hk
    rw [(mem_rawPairs text hw hk v).mp hv, hv'] at carry
    exact carries_normal carry

/-- An order of its own, a root type, a hexadecimal coin and an unknown key with a known value. -/
def mixedNss : Bytes := lit " dt:Root:x-note:dp:wi:w1:ct:0x3C:ci:1:aa:SECP256K1:nt:EVM "

def mixedAddress : Address :=
  ⟨⟨.ethereumVm, lit "1", some 60⟩, some (DerivationPath.fresh .root), .secp256k1, .unset, [], [], [], lit "w1"⟩

theorem mixedNss_components : parseNss mixedNss = .ok mixedAddress ∧
    ∃ m, parseNssMap mixedAddress.nss = .ok m ∧
      (∀ k, (∃ v', m.lookup k = some v') ↔ Known k ∧ ∃ v, (k, v) ∈ rawPairs mixedNss ∧ ¬ NamesRoot k v) ∧
      (∀ k v v', (k, v) ∈ rawPairs mixedNss → m.lookup k = some v' → Normal k v v') := by
  have accepted : parseNss mixedNss = .ok mixedAddress := by rfl
  exact ⟨accepted, parseNss_components mixedNss mixedAddress accepted⟩

end Components

end Mhda.RoundTrip
