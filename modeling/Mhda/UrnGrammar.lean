import Mhda.NssRoutes

set_option autoImplicit false

namespace Mhda.UrnGrammar
open Mhda.ByteString Mhda.Errors Mhda.Detail Mhda.DetailFacts Mhda.Nss Mhda.KeyValue Mhda.NssTokens
open Mhda.Transition Mhda.Addresses Mhda.Parser Mhda.Setters Mhda.Descriptors Mhda.Decoding
open Mhda.Stripping Mhda.NssRoutes

/-- The pairs are well formed, and the known ones mean the address. -/
structure Means (ps : Components) (a : Address) : Prop where
  formed : WellFormed ps
  decoded : ∃ d, Decodes (known ps) d ∧ a = d.toAddress

/-- What stands behind the NSS: nothing, or anything from a "?" or "#" on. -/
def Tail (t : Bytes) : Prop := ∀ c ∈ t.head?, opensRqf c = true

def Reads (s : Bytes) (ps : Components) : Prop :=
  ∃ front scheme back tail, s = front ++ scheme ++ joinPairs (ch ':') ps ++ back ++ tail ∧
    Spaces front ∧ SpellsMhda scheme ∧ Spaces back ∧ Tail tail

def ReadsNss (s : Bytes) (ps : Components) : Prop :=
  ∃ front back, s = front ++ joinPairs (ch ':') ps ++ back ∧ Spaces front ∧ Spaces back

section Padding

theorem trim_between (s : Bytes) : ∃ front back, s = front ++ trim s ++ back ∧ Spaces front ∧ Spaces back := by
  refine ⟨s.takeWhile isAsciiSpace, (s.dropWhile isAsciiSpace).rtakeWhile isAsciiSpace, ?_, ?_, ?_⟩
  · rw [List.append_assoc, trim, List.rdropWhile_append_rtakeWhile, List.takeWhile_append_dropWhile]
  · exact fun c hc => List.mem_takeWhile_imp hc
  · exact fun c hc => List.mem_rtakeWhile_imp hc

theorem trimRight_before (s : Bytes) : ∃ back, s = trimRight s ++ back ∧ Spaces back := by
  refine ⟨s.rtakeWhile isAsciiSpace, ?_, fun c hc => List.mem_rtakeWhile_imp hc⟩
  rw [trimRight, List.rdropWhile_append_rtakeWhile]

theorem spaces_plain {w : Bytes} (h : Spaces w) : ∀ c ∈ w, opensRqf c = false := by
  intro c hc
  cases opens : opensRqf c with
  | false => rfl
  | true =>
    have visible := opensRqf_not_space c opens
    rw [h c hc] at visible
    cases visible

theorem spaces_append {v w : Bytes} (hv : Spaces v) (hw : Spaces w) : Spaces (v ++ w) := by
  intro c hc
  rcases List.mem_append.mp hc with h | h
  · exact hv c h
  · exact hw c h

theorem formed_plain {ps : Components} (h : WellFormed ps) : ∀ c ∈ joinPairs (ch ':') ps, opensRqf c = false := by
  intro c hc
  rcases h.plain c hc with rfl | plain
  · decide
  · exact (nssByte_plain c plain).2.2.1

theorem formed_trimRight {ps : Components} (h : WellFormed ps) :
    trimRight (joinPairs (ch ':') ps) = joinPairs (ch ':') ps := by
  apply rdropWhile_eq_self_of_last
  intro c hc
  simp [h.trimmed.2 c hc]

end Padding

section Text

def cut (s : Bytes) : Bytes := trimRight (stripRqf ((trim s).drop prefixMhda.length))

theorem spelled_flush {scheme : Bytes} (h : SpellsMhda scheme) (n : Bytes) : Flush (scheme ++ n) := by
  intro c hc
  cases scheme with
  | nil => cases h
  | cons d scheme =>
    obtain rfl := Option.some.inj hc
    exact h.visible d (by simp)

theorem cut_reads {s : Bytes} {ps : Components} (formed : WellFormed ps) (h : Reads s ps) :
    hasPrefixFold (trim s) prefixMhda = true ∧ cut s = joinPairs (ch ':') ps := by
  obtain ⟨front, scheme, back, tail, rfl, frontSpaces, spelled, backSpaces, opens⟩ := h
  have plain := formed_plain formed
  unfold cut
  cases tail with
  | nil =>
    have trimmed : trim (front ++ scheme ++ joinPairs (ch ':') ps ++ back ++ []) = scheme ++ joinPairs (ch ':') ps := by
      have padded := trim_padded (spelled_flush spelled (joinPairs (ch ':') ps)) frontSpaces backSpaces
      rw [spelled.trimRight, formed_trimRight formed] at padded
      rw [← padded]
      simp only [List.append_assoc, List.append_nil]
    rw [trimmed, List.drop_left' spelled.length, stripRqf_plain plain, formed_trimRight formed]
    exact ⟨(hasPrefixFold_iff _).mpr ⟨scheme, _, rfl, spelled⟩, rfl⟩
  | cons c rest =>
    have hc : opensRqf c = true := opens c rfl
    have before : ∀ c ∈ joinPairs (ch ':') ps ++ back, opensRqf c = false := by
      intro c hc
      rcases List.mem_append.mp hc with hp | hb
      · exact plain c hp
      · exact spaces_plain backSpaces c hb
    have trimmed : trim (front ++ scheme ++ joinPairs (ch ':') ps ++ back ++ c :: rest) =
        scheme ++ (joinPairs (ch ':') ps ++ back ++ c :: trimRight rest) := by
      have flush := spelled_flush spelled (joinPairs (ch ':') ps ++ back ++ c :: rest)
      have nothing : Spaces [] := by simp [Spaces]
      have padded := trim_padded flush frontSpaces nothing
      rw [spelled.trimRight, trimRight_open hc, List.append_nil] at padded
      rw [← padded]
      simp only [List.append_assoc]
    rw [trimmed, List.drop_left' spelled.length, stripRqf_open before hc, trimRight_spaces _ backSpaces,
      formed_trimRight formed]
    exact ⟨(hasPrefixFold_iff _).mpr ⟨scheme, _, rfl, spelled⟩, rfl⟩

theorem trim_readsNss {s : Bytes} {ps : Components} (formed : WellFormed ps) (h : ReadsNss s ps) :
    trim s = joinPairs (ch ':') ps := by
  obtain ⟨front, back, rfl, frontSpaces, backSpaces⟩ := h
  rw [trim_padded formed.trimmed.1 frontSpaces backSpaces, formed_trimRight formed]

theorem reads_cut {s : Bytes} {ps : Components} (spelled : hasPrefixFold (trim s) prefixMhda = true)
    (text : cut s = joinPairs (ch ':') ps) : Reads s ps := by
  obtain ⟨scheme, rest, whole, hq⟩ := (hasPrefixFold_iff _).mp spelled
  rw [cut, whole, List.drop_left' hq.length] at text
  obtain ⟨front, back, outer, frontSpaces, backSpaces⟩ := trim_between s
  obtain ⟨pad, inner, padSpaces⟩ := trimRight_before (stripRqf rest)
  have rejoined : rest = stripRqf rest ++ rqfPart rest := (List.takeWhile_append_dropWhile ..).symm
  rw [text] at inner
  cases tail : rqfPart rest with
  | nil =>
    refine ⟨front, scheme, pad ++ back, [], ?_, frontSpaces, hq, spaces_append padSpaces backSpaces, by simp [Tail]⟩
    rw [outer, whole, rejoined, tail, inner]
    simp only [List.append_assoc, List.append_nil]
  | cons c more =>
    have opens : opensRqf c = true := by
      have head := List.head?_dropWhile_not (fun c => !opensRqf c) rest
      have first : (rest.dropWhile fun c => !opensRqf c) = c :: more := tail
      rw [first] at head
      simpa using head
    refine ⟨front, scheme, pad, c :: more ++ back, ?_, frontSpaces, hq, padSpaces, ?_⟩
    · rw [outer, whole, rejoined, tail, inner]
      simp only [List.append_assoc]
    · intro d hd
      obtain rfl := Option.some.inj hd
      exact opens

end Text

section Reading
variable {ps qs : Components} {a b : Address}

theorem means_iff (a : Address) (n : Bytes) :
    parseAddressNss n = .ok a ↔ ∃ ps, n = joinPairs (ch ':') ps ∧ Means ps a := by
  rw [parseAddressNss_eq_ok]
  constructor
  · rintro ⟨ps, d, rfl, formed, hd, rfl⟩
    exact ⟨ps, rfl, formed, d, hd, rfl⟩
  · rintro ⟨ps, rfl, formed, d, hd, rfl⟩
    exact ⟨ps, d, rfl, formed, hd, rfl⟩

theorem parseUrn_iff (s : Bytes) (a : Address) : parseUrn s = .ok a ↔ ∃ ps, Reads s ps ∧ Means ps a := by
  constructor
  · intro h
    obtain ⟨spelled, decoded⟩ := (parseUrn_eq_ok s a).mp h
    obtain ⟨ps, text, means⟩ := (means_iff a _).mp decoded
    exact ⟨ps, reads_cut spelled text, means⟩
  · rintro ⟨ps, reads, means⟩
    obtain ⟨spelled, text⟩ := cut_reads means.formed reads
    exact (parseUrn_eq_ok s a).mpr ⟨spelled, (means_iff a _).mpr ⟨ps, text, means⟩⟩

theorem parseNss_iff (s : Bytes) (a : Address) : parseNss s = .ok a ↔ ∃ ps, ReadsNss s ps ∧ Means ps a := by
  constructor
  · intro h
    obtain ⟨ps, text, means⟩ := (means_iff a _).mp h
    obtain ⟨front, back, outer, frontSpaces, backSpaces⟩ := trim_between s
    rw [text] at outer
    exact ⟨ps, ⟨front, back, outer, frontSpaces, backSpaces⟩, means⟩
  · rintro ⟨ps, reads, means⟩
    exact (means_iff a _).mpr ⟨ps, trim_readsNss means.formed reads, means⟩

theorem reading_unique (means : Means ps a) (means' : Means qs b)
    (same : joinPairs (ch ':') ps = joinPairs (ch ':') qs) : ps = qs ∧ a = b := by
  obtain rfl := joinPairs_injective (ch ':') means.formed.no_colon means'.formed.no_colon same
  have first := (means_iff a _).mpr ⟨ps, rfl, means⟩
  have second := (means_iff b _).mpr ⟨ps, rfl, means'⟩
  exact ⟨rfl, Except.ok.inj (first.symm.trans second)⟩

end Reading

/-- The parsers accept the texts of the grammar and return what their pairs mean; no text is read
    as two lists of pairs, and no list of pairs means two addresses. -/
theorem urn_grammar (s : Bytes) (a : Address) :
    (parseUrn s = .ok a ↔ ∃ ps, Reads s ps ∧ Means ps a) ∧
    (parseUrnStrict s = .ok a ↔ (∃ ps, Reads s ps ∧ Means ps a) ∧ a.validate = .ok ()) ∧
    (parseNss s = .ok a ↔ ∃ ps, ReadsNss s ps ∧ Means ps a) ∧
    (∀ ps qs b, Reads s ps → Means ps a → Reads s qs → Means qs b → ps = qs ∧ a = b) ∧
    (∀ ps qs b, ReadsNss s ps → Means ps a → ReadsNss s qs → Means qs b → ps = qs ∧ a = b) := by
  refine ⟨parseUrn_iff s a, ?_, parseNss_iff s a, ?_, ?_⟩
  · rw [parseUrnStrict_iff, parseUrn_iff]
  · intro ps qs b reads means reads' means'
    have one := (cut_reads means.formed reads).2
    exact reading_unique means means' (one.symm.trans (cut_reads means'.formed reads').2)
  · intro ps qs b reads means reads' means'
    have one := trim_readsNss means.formed reads
    exact reading_unique means means' (one.symm.trans (trim_readsNss means'.formed reads'))

end Mhda.UrnGrammar
