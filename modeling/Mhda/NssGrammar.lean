import Mhda.NssTokens

set_option autoImplicit false

namespace Mhda.NssGrammar
open Mhda.ByteString Mhda.Errors Mhda.Detail Mhda.DetailFacts Mhda.Nss Mhda.KeyValue Mhda.NssTokens

/-- `pair (":" pair)*`, a pair being two tokens with a colon between them. -/
inductive Pairs : Bytes → Components → Prop where
  | last {k v : Bytes} (hk : Token k) (hv : Token v) : Pairs (k ++ ch ':' :: v) [(k, v)]
  | more {k v rest : Bytes} {ps : Components} (hk : Token k) (hv : Token v) (h : Pairs rest ps) :
      Pairs (k ++ ch ':' :: v ++ ch ':' :: rest) ((k, v) :: ps)

def Miscased (k : Bytes) : Prop := ∃ c, Known c ∧ toLower k = toLower c ∧ k ≠ c

/-- The grammar: nothing or pairs, no known key in another case and none twice. -/
structure Spells (n : Bytes) (ps : Components) : Prop where
  text : (n = [] ∧ ps = []) ∨ Pairs n ps
  cased : ∀ p ∈ ps, ¬ Miscased p.1
  distinct : ((ps.map Prod.fst).filter fun k => decide (Known k)).Nodup

theorem not_miscased_iff (k : Bytes) : ¬ Miscased k ↔ (Known (toLower k) → Known k) := by
  constructor
  · intro h folded
    by_contra hk
    refine h ⟨toLower k, folded, (known_toLower folded).symm, ?_⟩
    intro same
    exact hk (same ▸ folded)
  · rintro h ⟨c, hc, same, ne⟩
    rw [known_toLower hc] at same
    have hk := h (same ▸ hc)
    rw [known_toLower hk] at same
    exact ne same

theorem known_keys (ps : Components) :
    (ps.map Prod.fst).filter (fun k => decide (Known k)) = (known ps).map Prod.fst := by
  rw [List.filter_map]
  rfl

theorem pairs_iff (n : Bytes) (ps : Components) :
    Pairs n ps ↔ ps ≠ [] ∧ n = joinPairs (ch ':') ps ∧ ∀ p ∈ ps, Token p.1 ∧ Token p.2 := by
  constructor
  · intro h
    induction h with
    | last hk hv => exact ⟨by simp, by rw [joinPairs_cons]; simp, by simp [hk, hv]⟩
    | more hk hv h ih =>
      obtain ⟨nonempty, rfl, tokens⟩ := ih
      refine ⟨by simp, ?_, ?_⟩
      · rw [joinPairs_cons, emitPairs_eq _ nonempty]
      · intro p hp
        rcases List.mem_cons.mp hp with rfl | hp
        · exact ⟨hk, hv⟩
        · exact tokens p hp
  · rintro ⟨nonempty, rfl, tokens⟩
    induction ps with
    | nil => exact absurd rfl nonempty
    | cons p ps ih =>
      obtain ⟨hk, hv⟩ := tokens p (by simp)
      rw [joinPairs_cons]
      cases ps with
      | nil =>
        rw [emitPairs_nil, List.append_nil]
        exact .last hk hv
      | cons q ps =>
        rw [emitPairs_eq _ (by simp)]
        exact .more hk hv (ih (by simp) fun r hr => tokens r (List.mem_cons_of_mem _ hr))

theorem spells_iff (n : Bytes) (ps : Components) :
    Spells n ps ↔ n = joinPairs (ch ':') ps ∧ WellFormed ps := by
  have cased : (∀ p ∈ ps, ¬ Miscased p.1) ↔ ∀ p ∈ ps, Known (toLower p.1) → Known p.1 :=
    forall₂_congr fun p _ => not_miscased_iff p.1
  unfold WellFormed PairOk
  constructor
  · rintro ⟨text, hc, distinct⟩
    rw [known_keys] at distinct
    rcases text with ⟨rfl, rfl⟩ | pairs
    · exact ⟨rfl, by simp, distinct⟩
    · obtain ⟨_, rfl, tokens⟩ := (pairs_iff n ps).mp pairs
      exact ⟨rfl, fun p hp => ⟨(tokens p hp).1, (tokens p hp).2, cased.mp hc p hp⟩, distinct⟩
  · rintro ⟨rfl, ok, distinct⟩
    rw [← known_keys] at distinct
    refine ⟨?_, cased.mpr fun p hp => (ok p hp).2.2, distinct⟩
    cases ps with
    | nil => exact .inl ⟨rfl, rfl⟩
    | cons p ps =>
      exact .inr ((pairs_iff _ _).mpr ⟨by simp, rfl, fun q hq => ⟨(ok q hq).1, (ok q hq).2.1⟩⟩)

theorem spells_pairUp {n : Bytes} {ps : Components} (h : Spells n ps) : ps = pairUp (split n (ch ':')) := by
  obtain ⟨rfl, wf⟩ := (spells_iff n ps).mp h
  by_cases empty : ps = []
  · subst empty
    rfl
  · rw [split, splitOn_joinPairs (ch ':') ps empty wf.no_colon, pairUp_tokens]

theorem parseNssMap_spells {n : Bytes} {ps : Components} (h : Spells n ps) : parseNssMap n = .ok (known ps) := by
  obtain ⟨rfl, wf⟩ := (spells_iff n ps).mp h
  exact parseNssMap_wellFormed wf

theorem lookup_spells {n : Bytes} {ps m : Components} (h : Spells n ps) (hm : parseNssMap n = .ok m)
    (k v : Bytes) : m.lookup k = some v ↔ (k, v) ∈ ps ∧ Known k := by
  rw [parseNssMap_spells h] at hm
  obtain rfl := Except.ok.inj hm
  exact lookup_known ((spells_iff n ps).mp h).2 k v

/-- The tokeniser accepts exactly the grammar, and an entry of the map is a known key at an even
    position with the token behind it. -/
theorem parseNssMap_grammar (n : Bytes) :
    ((∃ m, parseNssMap n = .ok m) ↔ ∃ ps, Spells n ps) ∧
    (∀ e, parseNssMap n = .error e → e.code = .invalidNss) ∧
    (∀ m ps, parseNssMap n = .ok m → Spells n ps → ∀ k v, m.lookup k = some v ↔ (k, v) ∈ ps ∧ Known k) ∧
    (∀ m, parseNssMap n = .ok m → ∀ k v, m.lookup k = some v ↔
      Known k ∧ ∃ i, (split n (ch ':'))[2 * i]? = some k ∧ (split n (ch ':'))[2 * i + 1]? = some v) := by
  have accepted : ∀ m, parseNssMap n = .ok m → ∃ ps, Spells n ps := by
    intro m hm
    obtain ⟨ps, text, wf, _⟩ := (parseNssMap_eq_ok n m).mp hm
    exact ⟨ps, (spells_iff n ps).mpr ⟨text, wf⟩⟩
  refine ⟨⟨fun ⟨m, hm⟩ => accepted m hm, fun ⟨ps, h⟩ => ⟨_, parseNssMap_spells h⟩⟩,
    fun e he => parseNssMap_error n he, fun m ps hm h => lookup_spells h hm, ?_⟩
  intro m hm k v
  obtain ⟨ps, h⟩ := accepted m hm
  rw [lookup_spells h hm, spells_pairUp h, mem_pairUp, and_comm]

/-- A known name in value position, behind an unknown key, is not read as a key. -/
example : parseNssMap (lit "xx:nt:nt:evm:ci:1") = .ok [(lit "nt", lit "evm"), (lit "ci", lit "1")] := by
  decide +kernel

end Mhda.NssGrammar
