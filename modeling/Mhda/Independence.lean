import Mhda.Decoding

set_option autoImplicit false

namespace Mhda.Independence
open Mhda.ByteString Mhda.Errors Mhda.Detail Mhda.DetailFacts Mhda.Nss Mhda.KeyValue Mhda.NssTokens
open Mhda.Transition Mhda.Chains Mhda.Parser Mhda.Addresses Mhda.Decoding

theorem known_lower {k : Bytes} (h : Known k) : Known (toLower k) := by
  rw [known_toLower h]
  exact h

theorem parseAddressFromComponents_congr {m m' : Components} (h : ∀ k, m.lookup k = m'.lookup k) :
    parseAddressFromComponents m = parseAddressFromComponents m' := by
  have values : ∀ k, Parser.get m k = Parser.get m' k := by
    intro k
    rw [Parser.get, Parser.get, h]
  have chain : Chain.buildChain m = Chain.buildChain m' := by
    unfold Chain.buildChain
    rw [h, h, h]
  unfold parseAddressFromComponents
  simp only [values, chain]

def decodeMap (m : Components) : Except ParseError Address :=
  if (m.lookup compNetworkType).isNone then .error (.bare .missingNetworkType)
  else parseAddressFromComponents m

theorem decodeMap_congr {m m' : Components} (h : ∀ k, m.lookup k = m'.lookup k) :
    decodeMap m = decodeMap m' := by
  unfold decodeMap
  rw [h, parseAddressFromComponents_congr h]

section Runs
variable {ps : Components} (hc : ∀ t ∈ tokens ps, ch ':' ∉ t ∧ Trimmed t)
include hc

theorem parseNss_wellFormed (hw : WellFormed ps) :
    parseNss (joinPairs (ch ':') ps) = decodeMap (known ps) := by
  rw [parseNss, trim_eq_self (joinPairs_trimmed fun t ht => (hc t ht).2), parseAddressNss,
    parseNssMap_wellFormed hw, ok_bind]
  rfl

theorem parseNss_refused (hw : ¬ WellFormed ps) :
    outcome (parseNss (joinPairs (ch ':') ps)) = .error .invalidNss := by
  rw [parseNss, trim_eq_self (joinPairs_trimmed fun t ht => (hc t ht).2), parseAddressNss]
  cases hm : parseNssMap (joinPairs (ch ':') ps) with
  | error e =>
    rw [error_bind, outcome, parseNssMap_error _ hm]
  | ok m =>
    exact absurd ((parseNssMap_joinPairs ps m fun t ht => (hc t ht).1).mp hm).1 hw

end Runs

theorem wellFormed_perm {ps qs : Components} (h : qs.Perm ps) : WellFormed qs ↔ WellFormed ps := by
  unfold WellFormed
  rw [((known_perm h).map Prod.fst).nodup_iff]
  simp only [h.mem_iff]

/-- A pair that every reader skips. -/
def Skipped (p : Bytes × Bytes) : Prop := Token p.1 ∧ Token p.2 ∧ ¬ Known (toLower p.1)

instance (p : Bytes × Bytes) : Decidable (Skipped p) := inferInstanceAs (Decidable (_ ∧ _))

theorem known_skipped {extras : Components} (h : ∀ p ∈ extras, Skipped p) : known extras = [] := by
  rw [known, List.filter_eq_nil_iff]
  intro p hp hk
  exact (h p hp).2.2 (known_lower (decide_eq_true_iff.mp hk))

theorem wellFormed_append {ps extras : Components} (h : ∀ p ∈ extras, Skipped p) :
    WellFormed (ps ++ extras) ↔ WellFormed ps := by
  unfold WellFormed
  rw [known_append, known_skipped h, List.append_nil, List.forall_mem_append]
  have skipped : ∀ p ∈ extras, PairOk p := by
    intro p hp
    obtain ⟨key, value, notKnown⟩ := h p hp
    exact ⟨key, value, fun hk => absurd hk notKnown⟩
  rw [and_iff_left skipped]

/-- Any order of the pairs with any unknown pairs among them gives the same address or the same code. -/
theorem parseNss_order_independent (ps extras qs : Components)
    (hc : ∀ t ∈ tokens ps, ch ':' ∉ t ∧ Trimmed t) (he : ∀ p ∈ extras, Skipped p)
    (h : qs.Perm (ps ++ extras)) :
    outcome (parseNss (joinPairs (ch ':') qs)) = outcome (parseNss (joinPairs (ch ':') ps)) := by
  have hcq : ∀ t ∈ tokens qs, ch ':' ∉ t ∧ Trimmed t := by
    intro t ht
    obtain ⟨p, hp, ht'⟩ := mem_tokens.mp ht
    rcases List.mem_append.mp (h.mem_iff.mp hp) with hp | hp
    · exact hc t (mem_tokens.mpr ⟨p, hp, ht'⟩)
    · obtain ⟨key, value, _⟩ := he p hp
      rcases ht' with rfl | rfl
      · exact ⟨key.2.no_colon, key.2.trimmed⟩
      · exact ⟨value.2.no_colon, value.2.trimmed⟩
  have same : WellFormed qs ↔ WellFormed ps := (wellFormed_perm h).trans (wellFormed_append he)
  by_cases hw : WellFormed ps
  · have hq := same.mpr hw
    have perm : (known qs).Perm (known ps) := by
      have := known_perm h
      rw [known_append, known_skipped he, List.append_nil] at this
      exact this
    rw [parseNss_wellFormed hcq hq, parseNss_wellFormed hc hw,
      decodeMap_congr fun k => lookup_perm perm hq.2 k]
  · rw [parseNss_refused hcq (mt same.mp hw), parseNss_refused hc hw]

/-- A skipped pair whose value is a known key stands between two reordered components. -/
theorem reordered_evm :
    outcome (parseNss (joinPairs (ch ':') [(lit "ci", lit "1"), (lit "x", lit "dt"), (lit "nt", lit "evm")])) =
      outcome (parseNss (joinPairs (ch ':') [(lit "nt", lit "evm"), (lit "ci", lit "1")])) :=
  parseNss_order_independent [(lit "nt", lit "evm"), (lit "ci", lit "1")] [(lit "x", lit "dt")]
    [(lit "ci", lit "1"), (lit "x", lit "dt"), (lit "nt", lit "evm")]
    (by decide +kernel) (by decide +kernel) (by decide +kernel)

end Mhda.Independence
