import Mhda.ErrorCodes

set_option autoImplicit false

/-!
# Stripping r-, q- and f-components

The three openers are stripped as documented. A question mark that opens
nothing is stripped as well, which decides when the documented rule holds.
-/
namespace Mhda.Stripping
open Mhda.ByteString Mhda.Errors Mhda.Detail Mhda.DetailFacts Mhda.Nss Mhda.KeyValue Mhda.NssTokens
open Mhda.Transition Mhda.Chains Mhda.Parser Mhda.Addresses Mhda.Decoding Mhda.ErrorCodes

def hasPrefix (s : Bytes) : Bool := hasPrefixFold (trim s) prefixMhda

def afterPrefix (s : Bytes) : Bytes := (trim s).drop prefixMhda.length

def nssPart (rest : Bytes) : Bytes := rest.takeWhile fun c => !opensRqf c
def rqfPart (rest : Bytes) : Bytes := rest.dropWhile fun c => !opensRqf c

/-- The openers of RFC 8141. -/
def Opener (t : Bytes) : Prop := lit "?+" <+: t ∨ lit "?=" <+: t ∨ lit "#" <+: t

/-- There is no "?" or "#", or the first one opens a component. -/
def OpensRight (rest : Bytes) : Prop := rqfPart rest = [] ∨ Opener (rqfPart rest)

instance (t : Bytes) : Decidable (Opener t) := inferInstanceAs (Decidable (_ ∨ _))
instance (rest : Bytes) : Decidable (OpensRight rest) := inferInstanceAs (Decidable (_ ∨ _))

/-- Only openers are stripped: an accepted text has none or a right one, and a bare "?" is refused. -/
def OpenersOnly (s : Bytes) : Prop :=
  (∀ a, parseUrn s = .ok a → OpensRight (afterPrefix s)) ∧
    (hasPrefix s = true → ¬ OpensRight (afterPrefix s) → outcome (parseUrn s) = .error .invalidNss)

def SpellsPairs (n : Bytes) : Prop := ∃ ps, WellFormed ps ∧ n = joinPairs (ch ':') ps

section Law

theorem trim_mhda (n : Bytes) : trim (prefixMhda ++ n) = prefixMhda ++ trimRight n := by
  have front : (prefixMhda ++ n).dropWhile isAsciiSpace = prefixMhda ++ n := rfl
  have last : prefixMhda = lit "urn:mhda" ++ [ch ':'] := rfl
  rw [trim, front, trimRight, last]
  exact rdropWhile_append_of_last isAsciiSpace _ _ _ (by decide)

theorem parseUrn_mhda (n : Bytes) :
    parseUrn (prefixMhda ++ n) = parseAddressNss (trimRight (stripRqf (trimRight n))) := by
  unfold parseUrn
  rw [trim_mhda]
  simp only [hasPrefixFold_mhda, List.drop_left, Bool.not_true, Bool.false_eq_true, if_false]

theorem stripRqf_plain {n : Bytes} (h : ∀ c ∈ n, opensRqf c = false) : stripRqf n = n := by
  unfold stripRqf
  rw [List.takeWhile_eq_self_iff]
  intro c hc
  simp [h c hc]

theorem stripRqf_open {n t : Bytes} {c : Byte} (h : ∀ c ∈ n, opensRqf c = false) (hc : opensRqf c = true) :
    stripRqf (n ++ c :: t) = n := by
  unfold stripRqf
  rw [List.takeWhile_append_of_pos (by simpa using h), List.takeWhile_cons_of_neg (by simp [hc]), List.append_nil]

theorem trimRight_open {n t : Bytes} {c : Byte} (hc : opensRqf c = true) :
    trimRight (n ++ c :: t) = n ++ c :: trimRight t := by
  have visible : ¬ isAsciiSpace c = true := by simp [opensRqf_not_space c hc]
  have assoc : ∀ u : Bytes, n ++ c :: u = (n ++ [c]) ++ u := by simp
  rw [assoc t, assoc (trimRight t), trimRight, rdropWhile_append_of_last isAsciiSpace n t c visible]
  rfl

theorem trimRight_subset {n : Bytes} {c : Byte} (h : c ∈ trimRight n) : c ∈ n :=
  (List.rdropWhile_prefix isAsciiSpace n).subset h

theorem parseUrn_tail {n t : Bytes} {c : Byte} (h : ∀ c ∈ n, opensRqf c = false) (hc : opensRqf c = true) :
    parseUrn (prefixMhda ++ (n ++ c :: t)) = parseUrn (prefixMhda ++ n) := by
  have plain : ∀ c ∈ trimRight n, opensRqf c = false := fun c hc => h c (trimRight_subset hc)
  rw [parseUrn_mhda, parseUrn_mhda, trimRight_open hc, stripRqf_open h hc, stripRqf_plain plain,
    trimRight_idem]

theorem opener_cons {t : Bytes} (h : Opener t) : ∃ c rest, t = c :: rest ∧ opensRqf c = true := by
  rcases h with ⟨rest, rfl⟩ | ⟨rest, rfl⟩ | ⟨rest, rfl⟩
  · exact ⟨ch '?', ch '+' :: rest, rfl, rfl⟩
  · exact ⟨ch '?', ch '=' :: rest, rfl, rfl⟩
  · exact ⟨ch '#', rest, rfl, rfl⟩

end Law

theorem parseAddressNss_invalidNss (n : Bytes) :
    outcome (parseAddressNss n) = .error .invalidNss ↔ ¬ SpellsPairs n := by
  unfold parseAddressNss
  cases hm : parseNssMap n with
  | error e =>
    have refused : ¬ SpellsPairs n := by
      rintro ⟨ps, hw, rfl⟩
      rw [parseNssMap_wellFormed hw] at hm
      cases hm
    rw [error_bind, outcome, parseNssMap_error _ hm]
    simp [refused]
  | ok m =>
    obtain ⟨ps, text, hw, _⟩ := (parseNssMap_eq_ok _ _).mp hm
    have spells : SpellsPairs n := ⟨ps, hw, text⟩
    rw [ok_bind]
    refine iff_of_false ?_ (not_not.mpr spells)
    intro h
    split at h
    · cases h
    · cases hp : parseAddressFromComponents m with
      | ok a =>
        rw [hp] at h
        cases h
      | error e =>
        have code := (parseAddressFromComponents_fails m e hp).1
        rw [hp, outcome, Except.error.injEq] at h
        rw [CodeIn, h] at code
        revert code
        decide

/-- The law of the openers, and exactly when nothing else is stripped. -/
theorem openers_stripped (n t s : Bytes) :
    ((∀ c ∈ n, opensRqf c = false) → Opener t →
      parseUrn (prefixMhda ++ (n ++ t)) = parseUrn (prefixMhda ++ n)) ∧
    (OpenersOnly s ↔
      (hasPrefix s = true → OpensRight (afterPrefix s) ∨ ¬ SpellsPairs (trimRight (nssPart (afterPrefix s))))) := by
  refine ⟨?_, ?_⟩
  · intro hn ht
    obtain ⟨c, rest, rfl, hc⟩ := opener_cons ht
    exact parseUrn_tail hn hc
  · have unfolded : hasPrefix s = true →
        parseUrn s = parseAddressNss (trimRight (nssPart (afterPrefix s))) := by
      intro h
      unfold parseUrn
      simp only [show hasPrefixFold (trim s) prefixMhda = true from h, Bool.not_true, Bool.false_eq_true, if_false]
      rfl
    constructor
    · rintro ⟨_, refused⟩ hp
      by_cases hr : OpensRight (afterPrefix s)
      · exact .inl hr
      · have code := refused hp hr
        rw [unfolded hp] at code
        exact .inr ((parseAddressNss_invalidNss _).mp code)
    · intro h
      have bare : hasPrefix s = true → ¬ OpensRight (afterPrefix s) →
          outcome (parseUrn s) = .error .invalidNss := by
        intro hp hr
        rw [unfolded hp]
        exact (parseAddressNss_invalidNss _).mpr ((h hp).resolve_left hr)
      refine ⟨?_, bare⟩
      intro a ha
      have hp : hasPrefix s = true := ((parseUrn_eq_ok _ _).mp ha).1
      by_contra hr
      have code := bare hp hr
      rw [ha] at code
      cases code

/-- A bare question mark cuts the text it stands in, and what is left is accepted. -/
theorem bare_question_truncates :
    parseUrn (lit "urn:mhda:nt:evm:ci:1?x") = parseUrn (lit "urn:mhda:nt:evm:ci:1") ∧
    (parseUrn (lit "urn:mhda:nt:evm:ci:1?x")).toOption.isSome = true ∧
    ¬ OpenersOnly (lit "urn:mhda:nt:evm:ci:1?x") := by
  have truncated : parseUrn (lit "urn:mhda:nt:evm:ci:1?x") =
      .ok ⟨⟨.ethereumVm, lit "1", none⟩, some (Path.DerivationPath.fresh .root), .unset, .unset, [], [], [], []⟩ := rfl
  have whole : parseUrn (lit "urn:mhda:nt:evm:ci:1") =
      .ok ⟨⟨.ethereumVm, lit "1", none⟩, some (Path.DerivationPath.fresh .root), .unset, .unset, [], [], [], []⟩ := rfl
  refine ⟨truncated.trans whole.symm, by rw [truncated]; rfl, ?_⟩
  rintro ⟨accepted, _⟩
  have right := accepted _ truncated
  revert right
  decide

end Mhda.Stripping
