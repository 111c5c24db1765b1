import Mhda.Stripping

set_option autoImplicit false

namespace Mhda.NssRoutes
open Mhda.ByteString Mhda.Errors Mhda.Detail Mhda.DetailFacts Mhda.Nss Mhda.NssTokens Mhda.Transition
open Mhda.Chains Mhda.Addresses Mhda.Parser Mhda.Setters Mhda.Decoding Mhda.Stripping

def Spaces (w : Bytes) : Prop := ∀ c ∈ w, isAsciiSpace c = true

def Flush (n : Bytes) : Prop := ∀ c ∈ n.head?, isAsciiSpace c = false

/-- The scheme and namespace in any ASCII case. -/
def SpellsMhda (q : Bytes) : Prop := toLower q = prefixMhda

instance (w : Bytes) : Decidable (Spaces w) := inferInstanceAs (Decidable (∀ c ∈ w, isAsciiSpace c = true))
instance (n : Bytes) : Decidable (Flush n) := inferInstanceAs (Decidable (∀ c ∈ n.head?, isAsciiSpace c = false))
instance (q : Bytes) : Decidable (SpellsMhda q) := inferInstanceAs (Decidable (toLower q = prefixMhda))

section Padding

theorem trimRight_spaces (t : Bytes) {w : Bytes} (h : Spaces w) : trimRight (t ++ w) = trimRight t := by
  unfold trimRight List.rdropWhile
  rw [List.reverse_append, List.dropWhile_append_of_pos]
  intro c hc
  exact h c (List.mem_reverse.mp hc)

theorem trim_padded {n w₁ w₂ : Bytes} (hn : Flush n) (h₁ : Spaces w₁) (h₂ : Spaces w₂) :
    trim (w₁ ++ n ++ w₂) = trimRight n := by
  have front : (w₁ ++ n ++ w₂).dropWhile isAsciiSpace = (n ++ w₂).dropWhile isAsciiSpace := by
    rw [List.append_assoc, List.dropWhile_append_of_pos h₁]
  cases n with
  | nil =>
    have all : w₂.dropWhile isAsciiSpace = [] := List.dropWhile_eq_nil_iff.mpr h₂
    rw [trim, front, List.nil_append, all]
    rfl
  | cons c n =>
    have stays : ((c :: n) ++ w₂).dropWhile isAsciiSpace = (c :: n) ++ w₂ := by
      apply dropWhile_eq_self_of_head
      intro d hd
      simp [hn d hd]
    rw [trim, front, stays]
    exact trimRight_spaces (c :: n) h₂

theorem lower_space (c : Byte) : isAsciiSpace (asciiLower c) = isAsciiSpace c := by
  revert c
  apply forall_byte
  decide +kernel

theorem SpellsMhda.visible {q : Bytes} (h : SpellsMhda q) : ∀ c ∈ q, isAsciiSpace c = false := by
  have visible : ∀ c ∈ prefixMhda, isAsciiSpace c = false := by decide +kernel
  intro c hc
  rw [← lower_space]
  apply visible
  rw [← h]
  exact List.mem_map_of_mem hc

theorem SpellsMhda.length {q : Bytes} (h : SpellsMhda q) : q.length = prefixMhda.length := by
  rw [← h, toLower, List.length_map]

theorem SpellsMhda.trimRight {q : Bytes} (h : SpellsMhda q) (n : Bytes) :
    Detail.trimRight (q ++ n) = q ++ Detail.trimRight n := by
  have nonempty : q ≠ [] := by
    rintro rfl
    cases h
  have last : q = q.dropLast ++ [q.getLast nonempty] := (List.dropLast_append_getLast nonempty).symm
  have stop : ¬ isAsciiSpace (q.getLast nonempty) = true := by
    simp [h.visible _ (List.getLast_mem nonempty)]
  rw [last]
  exact rdropWhile_append_of_last isAsciiSpace _ n _ stop

end Padding

section Prefix

theorem equalAsciiFold_iff (a b : Bytes) : equalAsciiFold a b = true ↔ toLower a = toLower b := by
  induction a generalizing b with
  | nil => cases b <;> simp [equalAsciiFold, toLower]
  | cons x a ih =>
    cases b with
    | nil => simp [equalAsciiFold, toLower]
    | cons y b =>
      have tail := ih b
      simp only [equalAsciiFold, toLower, List.length_cons, List.zip_cons_cons, List.all_cons, List.map_cons,
        List.cons.injEq, Bool.and_eq_true, beq_iff_eq, Nat.add_right_cancel_iff] at tail ⊢
      rw [← tail]
      tauto

theorem hasPrefixFold_iff (s : Bytes) :
    hasPrefixFold s prefixMhda = true ↔ ∃ q rest, s = q ++ rest ∧ SpellsMhda q := by
  have lower : toLower prefixMhda = prefixMhda := by decide +kernel
  unfold hasPrefixFold SpellsMhda
  constructor
  · intro h
    split at h
    · cases h
    · rw [equalAsciiFold_iff, lower] at h
      exact ⟨_, _, (List.take_append_drop prefixMhda.length s).symm, h⟩
  · rintro ⟨q, rest, rfl, hq⟩
    have len : q.length = prefixMhda.length := SpellsMhda.length hq
    rw [if_neg (by simp [len]), List.take_left' len, equalAsciiFold_iff, lower, hq]

end Prefix

theorem parseUrn_padded {n q w₁ w₂ : Bytes} (plain : ∀ c ∈ n, opensRqf c = false) (hq : SpellsMhda q)
    (h₁ : Spaces w₁) (h₂ : Spaces w₂) : parseUrn (w₁ ++ q ++ n ++ w₂) = parseAddressNss (trimRight n) := by
  have flush : Flush (q ++ n) := by
    intro c hc
    cases q with
    | nil => cases hq
    | cons d q =>
      obtain rfl := Option.some.inj hc
      exact hq.visible d (by simp)
  have trimmed : trim (w₁ ++ q ++ n ++ w₂) = q ++ trimRight n := by
    rw [List.append_assoc w₁ q n, trim_padded flush h₁ h₂, hq.trimRight]
  have spelled : hasPrefixFold (q ++ trimRight n) prefixMhda = true :=
    (hasPrefixFold_iff _).mpr ⟨q, _, rfl, hq⟩
  unfold parseUrn
  simp only [trimmed, spelled, Bool.not_true, Bool.false_eq_true, if_false]
  rw [List.drop_left' hq.length, stripRqf_plain fun c hc => plain c (trimRight_subset hc), trimRight_idem]

theorem parseNss_padded {n w₁ w₂ : Bytes} (hn : Flush n) (h₁ : Spaces w₁) (h₂ : Spaces w₂) :
    parseNss (w₁ ++ n ++ w₂) = parseAddressNss (trimRight n) := by
  rw [parseNss, trim_padded hn h₁ h₂]

section Chain

theorem fromNss_eq (n : Bytes) : Chain.fromNss n = parseNssMap (trim n) >>= fun m =>
    if (m.lookup compNetworkType).isNone then .error (.bare .missingNetworkType) else Chain.buildChain m := rfl

/-- The chain extractor is the first half of the address decoder. -/
theorem parseNss_chain {n : Bytes} {a : Address} (h : parseNss n = .ok a) : Chain.fromNss n = .ok a.chain := by
  unfold parseNss parseAddressNss at h
  rw [fromNss_eq, bind_eq_ok]
  obtain ⟨m, hm, hrest⟩ := bind_eq_ok.mp h
  obtain ⟨present, hdecode⟩ := guard_eq_ok.mp hrest
  obtain ⟨c, q, hc, _, _, _, _, _, _, _, rfl⟩ := (parseAddressFromComponents_eq_ok m a).mp hdecode
  refine ⟨m, hm, ?_⟩
  rw [if_neg present]
  exact hc

theorem parseNss_refuses {n : Bytes} {e : ParseError} (h : Chain.fromNss n = .error e) : parseNss n = .error e := by
  rw [fromNss_eq] at h
  unfold parseNss parseAddressNss
  cases hm : parseNssMap (trim n) with
  | error e' =>
    rw [hm, error_bind] at h
    rw [error_bind, Except.error.inj h]
  | ok m =>
    rw [hm, ok_bind] at h
    rw [ok_bind]
    split at h
    · rename_i absent
      rw [if_pos absent, Except.error.inj h]
    · rename_i present
      rw [if_neg present]
      unfold parseAddressFromComponents
      rw [h, error_bind]

end Chain

section Whitespace

theorem parseNssMap_whitespace {n : Bytes} (h : ∃ c ∈ n, isAsciiSpace c = true) :
    ∃ e, parseNssMap n = .error e ∧ e.code = .invalidNss := by
  obtain ⟨c, hc, space⟩ := h
  cases hm : parseNssMap n with
  | error e => exact ⟨e, rfl, parseNssMap_error n hm⟩
  | ok m =>
    obtain ⟨ps, rfl, wf, _⟩ := (parseNssMap_eq_ok n m).mp hm
    have visible : isAsciiSpace c = false := by
      rcases wf.plain c hc with rfl | hb
      · decide
      · exact (nssByte_plain c hb).1
    rw [visible] at space
    cases space

theorem parseNss_whitespace {n : Bytes} (h : ∃ c ∈ trim n, isAsciiSpace c = true) :
    outcome (parseNss n) = .error .invalidNss ∧ outcome (Chain.fromNss n) = .error .invalidNss := by
  obtain ⟨e, he, hcode⟩ := parseNssMap_whitespace h
  rw [fromNss_eq, parseNss, parseAddressNss, he, error_bind, error_bind, outcome, outcome, hcode]
  exact ⟨rfl, rfl⟩

end Whitespace

/-- A URN is its NSS behind the prefix, and the chain of an address is the chain of its NSS. -/
theorem nss_routes_agree (n : Bytes) (plain : ∀ c ∈ n, opensRqf c = false) (hn : Flush n)
    (q w₁ w₂ : Bytes) (hq : SpellsMhda q) (h₁ : Spaces w₁) (h₂ : Spaces w₂) :
    outcome (parseUrn (w₁ ++ q ++ n ++ w₂)) = outcome (parseNss (w₁ ++ n ++ w₂)) ∧
    (∀ m a, parseNss m = .ok a → Chain.fromNss m = .ok a.chain) ∧
    (∀ m e, Chain.fromNss m = .error e → ∃ e', parseNss m = .error e' ∧ e'.code = e.code) ∧
    ((∃ c ∈ trimRight n, isAsciiSpace c = true) →
      outcome (parseUrn (w₁ ++ q ++ n ++ w₂)) = .error .invalidNss) ∧
    (∀ m, (∃ c ∈ trim m, isAsciiSpace c = true) →
      outcome (parseNss m) = .error .invalidNss ∧ outcome (Chain.fromNss m) = .error .invalidNss) := by
  have same : parseUrn (w₁ ++ q ++ n ++ w₂) = parseNss (w₁ ++ n ++ w₂) := by
    rw [parseUrn_padded plain hq h₁ h₂, parseNss_padded hn h₁ h₂]
  refine ⟨by rw [same], fun m a h => parseNss_chain h,
    fun m e h => ⟨e, parseNss_refuses h, rfl⟩, ?_, fun m h => parseNss_whitespace h⟩
  intro inside
  rw [same]
  refine (parseNss_whitespace ?_).1
  rw [trim_padded hn h₁ h₂]
  exact inside

theorem nss_routes_agree_evm :
    outcome (parseUrn (lit " " ++ lit "URN:mhda:" ++ lit "nt:evm:ci:1" ++ lit " ")) =
      outcome (parseNss (lit " " ++ lit "nt:evm:ci:1" ++ lit " ")) ∧
    (∀ m a, parseNss m = .ok a → Chain.fromNss m = .ok a.chain) ∧
    (∀ m e, Chain.fromNss m = .error e → ∃ e', parseNss m = .error e' ∧ e'.code = e.code) ∧
    ((∃ c ∈ trimRight (lit "nt:evm:ci:1"), isAsciiSpace c = true) →
      outcome (parseUrn (lit " " ++ lit "URN:mhda:" ++ lit "nt:evm:ci:1" ++ lit " ")) = .error .invalidNss) ∧
    (∀ m, (∃ c ∈ trim m, isAsciiSpace c = true) →
      outcome (parseNss m) = .error .invalidNss ∧ outcome (Chain.fromNss m) = .error .invalidNss) :=
  nss_routes_agree (lit "nt:evm:ci:1") (by decide +kernel) (by decide +kernel) (lit "URN:mhda:") (lit " ") (lit " ")
    (by decide +kernel) (by decide +kernel) (by decide +kernel)

end Mhda.NssRoutes
