import Mhda.DetailFacts
import Mhda.KeyValue
import Mhda.NssParser
import Mhda.Transition

set_option autoImplicit false

namespace Mhda.NssTokens
open Mhda.ByteString Mhda.Errors Mhda.Detail Mhda.DetailFacts Mhda.Nss Mhda.KeyValue Mhda.Transition

def Known (k : Bytes) : Prop := k ∈ knownComponents

instance (k : Bytes) : Decidable (Known k) := inferInstanceAs (Decidable (k ∈ knownComponents))

def known (ps : Components) : Components := ps.filter fun p => decide (Known p.1)

/-- A pair the tokeniser reads: two tokens, and a key that is not a known one in capitals. -/
def PairOk (p : Bytes × Bytes) : Prop :=
  Token p.1 ∧ Token p.2 ∧ (Known (toLower p.1) → Known p.1)

/-- The grammar of an NSS, apart from what the components mean. -/
def WellFormed (ps : Components) : Prop := (∀ p ∈ ps, PairOk p) ∧ ((known ps).map Prod.fst).Nodup

theorem isKnownComponent_iff (k : Bytes) : isKnownComponent k = true ↔ Known k := List.contains_iff_mem

theorem known_toLower {k : Bytes} (h : Known k) : toLower k = k := by
  have lower : ∀ c ∈ knownComponents, toLower c = c := by decide +kernel
  exact lower k h

theorem known_append (ps qs : Components) : known (ps ++ qs) = known ps ++ known qs := List.filter_append ..

theorem known_cons_pos {p : Bytes × Bytes} (h : Known p.1) (ps : Components) :
    known (p :: ps) = p :: known ps := List.filter_cons_of_pos (by simp [h])

theorem known_cons_neg {p : Bytes × Bytes} (h : ¬ Known p.1) (ps : Components) :
    known (p :: ps) = known ps := List.filter_cons_of_neg (by simp [h])

theorem known_perm {ps qs : Components} (h : ps.Perm qs) : (known ps).Perm (known qs) := h.filter _

theorem mem_known {ps : Components} {p : Bytes × Bytes} : p ∈ known ps ↔ p ∈ ps ∧ Known p.1 := by
  simp [known]

theorem lookup_known_key (ps : Components) {k : Bytes} (hk : Known k) : (known ps).lookup k = ps.lookup k := by
  induction ps with
  | nil => rfl
  | cons p ps ih =>
    obtain ⟨q, v⟩ := p
    by_cases hq : Known q
    · rw [known_cons_pos hq, lookup_cons_if, lookup_cons_if, ih]
    · have other : k ≠ q := fun same => hq (same ▸ hk)
      rw [known_cons_neg hq, lookup_cons_if, if_neg other, ih]

theorem known_token {k : Bytes} (h : Known k) : Token k := by
  have names : ∀ c ∈ knownComponents, Token c := by decide +kernel
  exact names k h

theorem knownComponents_nodup : knownComponents.Nodup := by
  decide +kernel

theorem known_eq_self {ps : Components} (keys : ∀ p ∈ ps, Known p.1) : known ps = ps := by
  rw [known, List.filter_eq_self]
  intro p hp
  exact decide_eq_true (keys p hp)

/-- Pairs under distinct known keys lack only the byte check of their values. -/
theorem wellFormed_iff_tokens {ps : Components} (keys : ∀ p ∈ ps, Known p.1) (distinct : (ps.map Prod.fst).Nodup) :
    WellFormed ps ↔ ∀ p ∈ ps, Token p.2 := by
  constructor
  · intro h p hp
    exact (h.1 p hp).2.1
  · intro values
    refine ⟨fun p hp => ⟨known_token (keys p hp), values p hp, fun _ => keys p hp⟩, ?_⟩
    rw [known_eq_self keys]
    exact distinct

theorem token_iff (t : Bytes) : Token t ↔ t.isEmpty = false ∧ t.all nssByte = true := by
  rw [nssText_iff_all, List.isEmpty_eq_false_iff]
  rfl

theorem parseNssLoop_cons (k v : Bytes) (parts : List Bytes) (out m : Components) :
    parseNssLoop (k :: v :: parts) out = .ok m ↔
      PairOk (k, v) ∧ (Known k → k ∉ out.map Prod.fst) ∧
        parseNssLoop parts (if Known k then out ++ [(k, v)] else out) = .ok m := by
  have dup := lookup_isSome_iff out k
  have folded := isKnownComponent_iff (toLower k)
  rw [parseNssLoop]
  unfold PairOk
  rw [token_iff k, token_iff v]
  by_cases hn : Known k
  · have isKnown := (isKnownComponent_iff k).mpr hn
    simp only [isKnown, hn, guard_eq_ok, dup, Bool.not_true, Bool.not_eq_true', Bool.not_eq_false, Bool.not_eq_true,
      Bool.false_eq_true, if_false, if_true, forall_const, implies_true, and_true, and_assoc]
  · have notKnown : isKnownComponent k = false := by
      rw [Bool.eq_false_iff]
      exact mt (isKnownComponent_iff k).mp hn
    simp only [notKnown, hn, guard_eq_ok, folded, Bool.not_false, Bool.not_eq_true', Bool.not_eq_false,
      Bool.not_eq_true, if_true, if_false, imp_false, false_implies, true_and, and_assoc]

theorem parseNssLoop_tokens (ps out m : Components) (hn : (out.map Prod.fst).Nodup) :
    parseNssLoop (tokens ps) out = .ok m ↔
      (∀ p ∈ ps, PairOk p) ∧ ((out ++ known ps).map Prod.fst).Nodup ∧ m = out ++ known ps := by
  induction ps generalizing out with
  | nil => simp [parseNssLoop, known, hn, eq_comm]
  | cons p ps ih =>
    obtain ⟨k, v⟩ := p
    rw [tokens_cons, parseNssLoop_cons, List.forall_mem_cons]
    by_cases hk : Known k
    · have assoc : out ++ (k, v) :: known ps = out ++ [(k, v)] ++ known ps := by simp
      rw [if_pos hk, known_cons_pos hk, assoc]
      simp only [hk, forall_const, and_assoc]
      by_cases hd : k ∈ out.map Prod.fst
      · have twice : ¬ ((out ++ [(k, v)] ++ known ps).map Prod.fst).Nodup := by
          intro h
          rw [List.map_append, List.map_append] at h
          exact (List.nodup_append.mp (List.nodup_append.mp h).1).2.2 k hd k (by simp) rfl
        exact iff_of_false (fun h => h.2.1 hd) (fun h => twice h.2.2.1)
      · have fresh : ((out ++ [(k, v)]).map Prod.fst).Nodup := by
          rw [List.map_append, List.nodup_append]
          refine ⟨hn, by simp, ?_⟩
          rintro a ha b hb rfl
          simp only [List.map_cons, List.map_nil, List.mem_singleton] at hb
          exact hd (hb ▸ ha)
        rw [ih _ fresh]
        simp only [hd, not_false_eq_true, true_and]
    · rw [if_neg hk, known_cons_neg hk, ih out hn]
      simp only [hk, false_implies, true_and, and_assoc]

theorem parseNssLoop_error (parts : List Bytes) (out : Components) {e : ParseError}
    (h : parseNssLoop parts out = .error e) : e.code = .invalidNss := by
  fun_induction parseNssLoop parts out with
  | case1 | case2 | case3 | case4 | case5 | case7 => rw [← Except.error.inj h]; rfl
  | case6 _ _ _ _ _ _ _ _ _ _ ih => exact ih h
  | case8 _ _ _ _ _ _ _ _ _ _ ih => exact ih h
  | case9 => cases h

theorem parseNssMap_error (nss : Bytes) {e : ParseError} (h : parseNssMap nss = .error e) :
    e.code = .invalidNss := by
  unfold parseNssMap at h
  split at h
  · cases h
  · split at h
    · rw [← Except.error.inj h]; rfl
    · simp only at h
      split at h
      · rw [← Except.error.inj h]; rfl
      · exact parseNssLoop_error _ _ h

theorem plain_of_tokens {ps : Components} (h : ∀ p ∈ ps, Token p.1 ∧ Token p.2) :
    ∀ c ∈ joinPairs (ch ':') ps, c = ch ':' ∨ nssByte c = true := by
  intro c hc
  rcases mem_joinPairs hc with rfl | ⟨t, ht, hct⟩
  · exact .inl rfl
  · obtain ⟨p, hp, rfl | rfl⟩ := mem_tokens.mp ht
    · exact .inr ((h p hp).1.2 c hct)
    · exact .inr ((h p hp).2.2 c hct)

theorem find_opensRqf_none {s : Bytes} (h : ∀ c ∈ s, c = ch ':' ∨ nssByte c = true) :
    s.find? opensRqf = none := by
  rw [List.find?_eq_none]
  intro c hc
  rcases h c hc with rfl | hn
  · decide
  · simp [(nssByte_plain c hn).2.2.1]

theorem joinPairs_eq_nil {ps : Components} (h : joinPairs (ch ':') ps = []) : ps = [] := by
  cases ps with
  | nil => rfl
  | cons p ps =>
    rw [joinPairs_cons] at h
    simp at h

/-- The text of any pair list whose tokens have no separator: only the pair list matters. -/
theorem parseNssMap_joinPairs (ps m : Components) (hc : ∀ t ∈ tokens ps, ch ':' ∉ t) :
    parseNssMap (joinPairs (ch ':') ps) = .ok m ↔ WellFormed ps ∧ m = known ps := by
  unfold parseNssMap
  by_cases hn : ps = []
  · subst hn
    simp [joinPairs, List.intercalate, WellFormed, known, eq_comm]
  · have nonempty : (joinPairs (ch ':') ps).isEmpty = false := by
      rw [List.isEmpty_eq_false_iff]
      exact fun h => hn (joinPairs_eq_nil h)
    have loop := parseNssLoop_tokens ps [] m (by simp)
    rw [List.nil_append] at loop
    have spec : parseNssLoop (tokens ps) [] = .ok m ↔ WellFormed ps ∧ m = known ps := by
      rw [loop, WellFormed, and_assoc]
    rw [nonempty, if_neg (by simp)]
    cases hf : (joinPairs (ch ':') ps).find? opensRqf with
    | some c =>
      -- a byte that opens a component is in no token of a well-formed list
      refine iff_of_false (by simp) fun h => ?_
      rw [find_opensRqf_none (plain_of_tokens fun p hp => ⟨(h.1.1 p hp).1, (h.1.1 p hp).2.1⟩)] at hf
      cases hf
    | none =>
      have even : (tokens ps).length % 2 = 0 := by
        rw [length_tokens]
        omega
      simp only [split, splitOn_joinPairs (ch ':') ps hn hc, even, ne_eq, not_true_eq_false, if_false]
      exact spec

theorem parseNssMap_text {nss : Bytes} {m : Components} (h : parseNssMap nss = .ok m) :
    nss = joinPairs (ch ':') (pairUp (split nss (ch ':'))) := by
  unfold parseNssMap at h
  split at h
  · rename_i he
    rw [List.isEmpty_iff.mp he]
    rfl
  · split at h
    · cases h
    · have even : (split nss (ch ':')).length % 2 = 0 := not_not.mp (guard_eq_ok.mp h).1
      rw [joinPairs, tokens_pairUp _ even]
      exact (List.intercalate_splitOn (ch ':')).symm

theorem split_no_colon (nss : Bytes) : ∀ t ∈ tokens (pairUp (split nss (ch ':'))), ch ':' ∉ t := by
  intro t ht
  exact not_mem_of_mem_splitOn (mem_of_mem_tokens_pairUp ht)

theorem WellFormed.no_colon {ps : Components} (h : WellFormed ps) : ∀ t ∈ tokens ps, ch ':' ∉ t := by
  intro t ht
  obtain ⟨p, hp, rfl | rfl⟩ := mem_tokens.mp ht
  · exact (h.1 p hp).1.2.no_colon
  · exact (h.1 p hp).2.1.2.no_colon

theorem parseNssMap_eq_ok (nss : Bytes) (m : Components) :
    parseNssMap nss = .ok m ↔
      ∃ ps, nss = joinPairs (ch ':') ps ∧ WellFormed ps ∧ m = known ps := by
  constructor
  · intro h
    have text := parseNssMap_text h
    rw [text, parseNssMap_joinPairs _ _ (split_no_colon nss)] at h
    exact ⟨_, text, h⟩
  · rintro ⟨ps, rfl, hw, hm⟩
    exact (parseNssMap_joinPairs ps m hw.no_colon).mpr ⟨hw, hm⟩

theorem WellFormed.plain {ps : Components} (h : WellFormed ps) :
    ∀ c ∈ joinPairs (ch ':') ps, c = ch ':' ∨ nssByte c = true :=
  plain_of_tokens fun p hp => ⟨(h.1 p hp).1, (h.1 p hp).2.1⟩

theorem parseNssMap_wellFormed {ps : Components} (h : WellFormed ps) :
    parseNssMap (joinPairs (ch ':') ps) = .ok (known ps) :=
  (parseNssMap_joinPairs ps _ h.no_colon).mpr ⟨h, rfl⟩

theorem lookup_known {ps : Components} (h : WellFormed ps) (k v : Bytes) :
    (known ps).lookup k = some v ↔ (k, v) ∈ ps ∧ Known k := by
  rw [lookup_eq_some_iff_mem h.2, mem_known]

theorem lookup_token {ps : Components} (h : WellFormed ps) {k v : Bytes}
    (hl : (known ps).lookup k = some v) : Token v := by
  obtain ⟨hm, _⟩ := (lookup_known h k v).mp hl
  exact (h.1 _ hm).2.1

theorem joinPairs_trimmed {ps : Components} (h : ∀ t ∈ tokens ps, Trimmed t) :
    Trimmed (joinPairs (ch ':') ps) := by
  have colon : isAsciiSpace (ch ':') = false := by decide
  constructor
  · intro c hc
    rcases head_joinPairs hc with rfl | ⟨t, ht, hct⟩
    · exact colon
    · exact (h t ht).1 c hct
  · intro c hc
    rcases getLast_joinPairs hc with rfl | ⟨t, ht, hct⟩
    · exact colon
    · exact (h t ht).2 c hct

theorem WellFormed.trimmed {ps : Components} (h : WellFormed ps) : Trimmed (joinPairs (ch ':') ps) := by
  apply joinPairs_trimmed
  intro t ht
  obtain ⟨p, hp, rfl | rfl⟩ := mem_tokens.mp ht
  · exact (h.1 p hp).1.2.trimmed
  · exact (h.1 p hp).2.1.2.trimmed

end Mhda.NssTokens
