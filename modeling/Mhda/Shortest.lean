import Mhda.ChainKeys
import Mhda.UrnGrammar

set_option autoImplicit false

namespace Mhda.Shortest
open Mhda.ByteString Mhda.Errors Mhda.Detail Mhda.DetailFacts Mhda.Catalogue Mhda.KeyValue Mhda.Numeral Mhda.Nss
open Mhda.NssTokens Mhda.Path Mhda.Chains Mhda.Addresses Mhda.Parser Mhda.Template Mhda.PathText Mhda.PathParse
open Mhda.PathHistory Mhda.Setters Mhda.Descriptors Mhda.Decoding Mhda.ChainKeys Mhda.UrnGrammar

section Values

theorem number_length {s : Bytes} {v : UInt32} (h : SpellsNumber s v.toNat) :
    (decimal v.toNat).length ≤ s.length := by
  rcases h with spelled | ⟨x, body, rfl, _, spelled⟩
  · exact isDecimal_length spelled
  · exact isHex_length spelled v.toNat_lt

theorem level_length {seg : Bytes} {raw : RawLevel} (h : SegmentSpells seg raw) :
    (renderLevel raw.level).length ≤ seg.length := by
  obtain ⟨digits, marker, rfl, spelled, _, marked, _⟩ := h
  have number := isDecimal_length spelled
  rw [renderLevel, RawLevel.level, List.length_append, List.length_append]
  cases hardened : raw.isHardened with
  | true =>
    rw [hardened, if_pos rfl] at marked
    obtain ⟨c, rfl, _⟩ := marked
    rw [if_pos rfl]
    exact Nat.add_le_add_right number _
  | false =>
    rw [if_neg Bool.false_ne_true]
    exact Nat.add_le_add number (Nat.zero_le _)

theorem path_length {path : Bytes} {raws : List RawLevel} (h : PathSpells path raws) :
    (renderPath (raws.map RawLevel.level)).length ≤ path.length := by
  obtain ⟨segs, rfl, spelled⟩ := h
  rw [renderPath, List.length_cons, List.length_cons]
  refine Nat.succ_le_succ ?_
  induction spelled with
  | nil => exact le_rfl
  | cons seg _ ih =>
    have first := level_length seg
    simp only [List.map_cons, List.flatMap_cons, List.length_append, List.length_cons]
    omega

theorem pairs_held {m : Components} {d : Descriptor} (h : Decodes m d) :
    ∀ p ∈ d.pairs, ∃ v, m.lookup p.1 = some v ∧ p.2.length ≤ v.length := by
  have given : ∀ {k v : Bytes}, v ≠ [] → v.length ≤ (get m k).length →
      ∃ w, m.lookup k = some w ∧ v.length ≤ w.length := by
    intro k v full longer
    unfold Parser.get at longer
    cases held : m.lookup k with
    | some w =>
      rw [held] at longer
      exact ⟨w, rfl, longer⟩
    | none =>
      rw [held] at longer
      exact absurd (List.length_eq_zero_iff.mp (Nat.le_zero.mp longer)) full
  have optional : ∀ {k v : Bytes} {p : Bytes × Bytes}, v.length = (get m k).length →
      p ∈ optPair k (optText v) → ∃ w, m.lookup p.1 = some w ∧ p.2.length ≤ w.length := by
    intro k v p same hp
    obtain ⟨key, text⟩ := mem_optPair hp
    unfold optText at text
    split at text
    · cases text
    · rename_i full
      obtain rfl := Option.some.inj text
      rw [key]
      exact given full same.le
  obtain ⟨nt, named, network⟩ := h.network
  intro p hp
  simp only [Descriptor.pairs, List.mem_cons, List.mem_append] at hp
  rcases hp with rfl | rfl | (((((((hp | hp) | hp) | hp) | hp) | hp) | hp) | hp)
  · refine ⟨nt, named, ?_⟩
    rw [network]
    exact (length_toLower nt).le
  · exact ⟨_, h.chainId, le_rfl⟩
  · obtain ⟨key, number⟩ := mem_optPair hp
    rw [key]
    obtain ⟨v, coin, written⟩ := Option.map_eq_some_iff.mp number
    have decoded := h.coin
    cases held : m.lookup compCoinType with
    | none =>
      rw [held, CoinDecodes, coin] at decoded
      cases decoded
    | some ct =>
      rw [held, CoinDecodes, coin] at decoded
      obtain ⟨w, same, spelled⟩ := decoded
      obtain rfl := Option.some.inj same
      rw [← written]
      exact ⟨ct, rfl, number_length spelled⟩
  · have decoded := h.path
    cases path : d.path with
    | none =>
      rw [path, pathPairs] at hp
      cases hp
    | some q =>
      rw [path] at decoded hp
      obtain ⟨type, raws, spelled, _, levels⟩ := decoded
      simp only [pathPairs, List.mem_cons, List.not_mem_nil, or_false] at hp
      rcases hp with rfl | rfl
      · refine given (type_name q.scheme.type_valid).1.1 ?_
        rw [← type, length_toLower]
      · have text := path_length spelled
        rw [← levels, length_toLower] at text
        exact given (renderPath_token q.levels).1 text
  · refine optional ?_ hp
    rw [h.algorithm, length_toLower]
  · refine optional ?_ hp
    rw [h.format, length_toLower]
  · exact optional (by rw [h.addressPrefix]) hp
  · exact optional (by rw [h.addressSuffix]) hp
  · exact optional (by rw [h.walletType]) hp
  · exact optional (by rw [h.walletId]) hp

end Values

/-- What is printed is read back, and no shorter text is read as the same value. -/
def PrintsShortest {α : Type} (parse : Bytes → Except ParseError α) (print : α → Bytes) : Prop :=
  ∀ s a, parse s = .ok a → parse (print a) = .ok a ∧ (print a).length ≤ s.length

section Texts

theorem nss_length {ps : Components} {d : Descriptor} (formed : WellFormed ps) (h : Decodes (known ps) d) :
    d.nss.length ≤ (joinPairs (ch ':') ps).length := by
  have pairs : (emitPairs (ch ':') d.pairs).length ≤ (emitPairs (ch ':') ps).length := by
    refine emitPairs_length_le _ (pairs_keys_nodup d) fun p hp => ?_
    obtain ⟨v, held, longer⟩ := pairs_held h p hp
    exact ⟨v, (mem_known.mp ((lookup_eq_some_iff_mem formed.2).mp held)).1, longer⟩
  rw [Descriptor.nss, joinPairs_length, joinPairs_length]
  omega

theorem shortest_urn : PrintsShortest parseUrn Address.str := by
  intro s a h
  obtain ⟨ps, reads, formed, d, decodes, rfl⟩ := (parseUrn_iff s a).mp h
  obtain ⟨front, scheme, back, tail, rfl, _, spelled, _, _⟩ := reads
  rw [toAddress_str]
  refine ⟨parseUrn_render d, ?_⟩
  have body := nss_length formed decodes
  have namespace_ : scheme.length = prefixMhda.length := by
    rw [← length_toLower scheme, spelled]
  rw [Descriptor.render]
  simp only [List.length_append, namespace_]
  omega

theorem shortest_nss : PrintsShortest parseNss Address.nss := by
  intro s a h
  obtain ⟨ps, ⟨front, back, rfl, _, _⟩, formed, d, decodes, rfl⟩ := (parseNss_iff s a).mp h
  rw [toAddress_nss]
  refine ⟨parseNss_nss d, ?_⟩
  have body := nss_length formed decodes
  simp only [List.length_append]
  omega

theorem shortest_key : PrintsShortest Chain.fromKey Chain.key := by
  intro s c h
  obtain ⟨identified, coin, text⟩ := (fromKey_eq_ok s c).mp h
  constructor
  · exact (fromKey_eq_ok _ _).mpr ⟨identified, coin, str_trimmed identified⟩
  · rw [Chain.key, ← text]
    exact length_trim s

theorem shortest_path (dt : DerivationType) : PrintsShortest (DerivationPath.parse dt) DerivationPath.str := by
  intro s d h
  rcases valid_cases (parse_valid h) with rfl | ⟨scheme, rfl⟩
  · obtain ⟨rfl, rfl⟩ := (parse_root s d).mp h
    exact ⟨rfl, le_rfl⟩
  · obtain ⟨raws, spelled, valid, rfl⟩ := (parse_eq_ok scheme s d).mp h
    have fits := valid.fits (spells_inRange spelled)
    refine ⟨parse_str fits, ?_⟩
    rw [str_concrete fits]
    exact path_length spelled

end Texts

/-- Every printer prints a shortest text of the value: for URNs, also strict ones, for their NSS,
    for chain keys and for the paths of every derivation type. -/
theorem shortest_texts :
    PrintsShortest parseUrn Address.str ∧ PrintsShortest parseUrnStrict Address.str ∧
    PrintsShortest parseNss Address.nss ∧ PrintsShortest Chain.fromKey Chain.key ∧
    ∀ dt, PrintsShortest (DerivationPath.parse dt) DerivationPath.str := by
  refine ⟨shortest_urn, ?_, shortest_nss, shortest_key, shortest_path⟩
  intro s a h
  obtain ⟨read, valid⟩ := (parseUrnStrict_iff s a).mp h
  obtain ⟨back, short⟩ := shortest_urn s a read
  exact ⟨(parseUrnStrict_iff _ a).mpr ⟨back, valid⟩, short⟩

end Mhda.Shortest
