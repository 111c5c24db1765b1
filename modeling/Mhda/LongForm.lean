import Mhda.Classification

set_option autoImplicit false

namespace Mhda.LongForm
open Mhda.ByteString Mhda.Errors Mhda.Detail Mhda.DetailFacts Mhda.Catalogue Mhda.Transition Mhda.Compatibility
open Mhda.Addresses Mhda.Parser Mhda.Setters Mhda.Validation Mhda.Descriptors Mhda.Decoding

def long (a : Address) : Address := { a with algorithm := a.resolvedAlgorithm, format := a.resolvedFormat }

section Resolution
variable (a : Address)

theorem long_resolvedAlgorithm : (long a).resolvedAlgorithm = a.resolvedAlgorithm := by
  unfold long Address.resolvedAlgorithm
  by_cases unset : a.algorithm.isEmpty = true
  · simp only [unset, Bool.not_true, Bool.false_eq_true, if_false, ite_self]
  · simp only [unset, Bool.not_false, if_true]

theorem long_resolvedFormat : (long a).resolvedFormat = a.resolvedFormat := by
  unfold long Address.resolvedFormat
  by_cases unset : a.format.isEmpty = true
  · simp only [unset, Bool.not_true, Bool.false_eq_true, if_false, ite_self]
  · simp only [unset, Bool.not_false, if_true]

theorem long_long : long (long a) = long a := by
  have algorithm := long_resolvedAlgorithm a
  have format := long_resolvedFormat a
  unfold long at algorithm format ⊢
  rw [algorithm, format]

theorem long_validate : (long a).validate = a.validate := by
  have path : (long a).checkPathSet = a.checkPathSet := rfl
  unfold Address.validate
  rw [long_resolvedAlgorithm, long_resolvedFormat, path]
  rfl

end Resolution

section Text
variable (d : Descriptor)

def longDescriptor : Descriptor :=
  { d with
    algorithm := d.toAddress.resolvedAlgorithm
    format := d.toAddress.resolvedFormat
    algorithm_ok := (resolved_ok (a := d.toAddress) d.algorithm_ok d.format_ok).1
    format_ok := (resolved_ok (a := d.toAddress) d.algorithm_ok d.format_ok).2 }

theorem long_toAddress : long d.toAddress = (longDescriptor d).toAddress := rfl

theorem long_set :
    ((d.toAddress.setAddressAlgorithm d.toAddress.resolvedAlgorithm.value).state.setAddressFormat
      d.toAddress.resolvedFormat.value).result = .ok (long d.toAddress) := by
  obtain ⟨algorithm, format⟩ := resolved_ok (a := d.toAddress) d.algorithm_ok d.format_ok
  have aa : normalize d.toAddress.resolvedAlgorithm.value = d.toAddress.resolvedAlgorithm.value := by
    rw [(algorithmOk_text algorithm).1.normalize, (algorithmOk_text algorithm).2]
  have af : normalize d.toAddress.resolvedFormat.value = d.toAddress.resolvedFormat.value := by
    rw [(formatOk_text format).1.normalize, (formatOk_text format).2]
  rw [setAddressAlgorithm_eq, aa, if_pos algorithm, After.done_state, setAddressFormat_eq, af, if_pos format]
  rfl

end Text

/-- A short URN is validated as if it were rewritten in long form, and the long form is an address
    of its own, with its own text. -/
theorem long_form {s : Bytes} {a : Address} (parsed : parseUrn s = .ok a) :
    parseUrn (long a).str = .ok (long a) ∧
    (parseUrnStrict s = .ok a ↔ parseUrnStrict (long a).str = .ok (long a)) ∧
    (∀ e, parseUrnStrict s = .error e ↔ parseUrnStrict (long a).str = .error e) ∧
    ((a.setAddressAlgorithm a.resolvedAlgorithm.value).state.setAddressFormat a.resolvedFormat.value).result =
      .ok (long a) ∧
    long (long a) = long a ∧ ((long a).str = a.str ↔ long a = a) := by
  have reparsed : parseUrn (long a).str = .ok (long a) := by
    obtain ⟨d, rfl⟩ := parseUrn_descriptor parsed
    rw [long_toAddress, toAddress_str]
    exact parseUrn_render _
  have short := parseUrnStrict_eq parsed
  have written := parseUrnStrict_eq reparsed
  rw [long_validate] at written
  refine ⟨reparsed, ?_, ?_, ?_, long_long a, ?_, congrArg Address.str⟩
  · rw [short, written]
    cases a.validate with
    | ok u => exact iff_of_true rfl rfl
    | error e => exact iff_of_false (fun h => nomatch h) (fun h => nomatch h)
  · intro e
    rw [short, written]
    cases a.validate with
    | ok u => exact iff_of_false (fun h => nomatch h) (fun h => nomatch h)
    | error e => exact Iff.rfl
  · obtain ⟨d, rfl⟩ := parseUrn_descriptor parsed
    exact long_set d
  · intro same
    obtain ⟨d, rfl⟩ := parseUrn_descriptor parsed
    have original : parseUrn d.toAddress.str = .ok d.toAddress := by
      rw [toAddress_str]
      exact parseUrn_render d
    rw [same, original] at reparsed
    exact (Except.ok.inj reparsed).symm

/-- Defaults that the network does not allow together with the path stay refused when written out. -/
theorem long_form_near :
    let s := lit "urn:mhda:nt:near:ci:mainnet:dt:bip44:dp:m/44'/397'/0'/0/0"
    let a : Address := ⟨⟨.nearProtocol, lit "mainnet", none⟩,
      some ⟨.bip44, 397, 0, 0, ⟨0, false⟩, true, [⟨44, true⟩, ⟨397, true⟩, ⟨0, true⟩, ⟨0, false⟩, ⟨0, false⟩]⟩,
      .unset, .unset, [], [], [], []⟩
    parseUrn (long a).str = .ok (long a) ∧
    (parseUrnStrict s = .ok a ↔ parseUrnStrict (long a).str = .ok (long a)) ∧
    (∀ e, parseUrnStrict s = .error e ↔ parseUrnStrict (long a).str = .error e) ∧
    ((a.setAddressAlgorithm a.resolvedAlgorithm.value).state.setAddressFormat a.resolvedFormat.value).result =
      .ok (long a) ∧
    long (long a) = long a ∧ ((long a).str = a.str ↔ long a = a) := by
  intro s a
  have parsed : parseUrn s = .ok a := by decide +kernel
  exact long_form parsed

end Mhda.LongForm
