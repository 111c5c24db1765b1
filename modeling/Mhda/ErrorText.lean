import Mhda.Atomicity
import Mhda.ErrorCodes
import Mhda.IterationOrder
import Mhda.Marshalling

set_option autoImplicit false

namespace Mhda.ErrorText
open Mhda.ByteString Mhda.Errors Mhda.Detail Mhda.DetailFacts Mhda.Numeral Mhda.Catalogue Mhda.Nss Mhda.Transition
open Mhda.Chains Mhda.Path Mhda.Addresses Mhda.Parser Mhda.Compatibility Mhda.Template Mhda.PathParse
open Mhda.PathHistory Mhda.Setters Mhda.Descriptors Mhda.AddressHistory Mhda.Atomicity Mhda.Marshalling
open Mhda.Validation Mhda.Quoting Mhda.IterationOrder Mhda.ErrorCodes

def Clean (e : ParseError) : Prop := Printable e.what

section Sites

theorem clean_of_raised {α : Type} {codes : List ErrorCode} {x : Except ParseError α}
    (h : Fails (Raised codes) x) : Fails Clean x := fun e he => (h e he).2

theorem clean (code : ErrorCode) {detail : Bytes} (h : Printable detail) : Clean ⟨code, detail⟩ :=
  printable_what code h

theorem clean_bare (code : ErrorCode) : Clean (.bare code) := clean code printable_nil

theorem clean_quote (code : ErrorCode) (s : Bytes) : Clean ⟨code, quote s⟩ := clean code (printable_quote s)

theorem clean_about (code : ErrorCode) {said : Bytes} (h : Printable said) (s : Bytes) :
    Clean ⟨code, said ++ quote s⟩ := clean code (h.append (printable_quote s))

theorem clean_between (code : ErrorCode) {said after : Bytes} (h : Printable said) (h' : Printable after)
    (s : Bytes) : Clean ⟨code, said ++ quote s ++ after⟩ :=
  clean code ((h.append (printable_quote s)).append h')

end Sites

section Tokens

/-- The tokeniser names the opener it met as it is: a question mark or a number sign. -/
theorem opener_printable (c : Byte) : opensRqf c = true → Printable [c] := by
  revert c
  apply forall_byte
  decide +kernel

theorem parseNssLoop_clean (parts : List Bytes) (out : Components) : Fails Clean (parseNssLoop parts out) := by
  fun_induction parseNssLoop parts out
  -- the loop goes on, stops, or throws a fixed text around a quoted key
  all_goals first
    | assumption
    | exact fails_ok _ _
    | exact fails_error (clean _ (by decide +kernel))
    | exact fails_error (clean_about _ (by decide +kernel) _)
    | exact fails_error (clean_between _ (by decide +kernel) (by decide +kernel) _)

theorem parseNssMap_clean (nss : Bytes) : Fails Clean (parseNssMap nss) := by
  unfold parseNssMap
  split
  · exact fails_ok _ _
  · split
    · rename_i c found
      have quoteMark : Printable (lit "'") := by decide +kernel
      have inside : Printable (lit "' inside the NSS") := by decide +kernel
      have opener := opener_printable c (List.find?_some found)
      exact fails_error (clean _ ((quoteMark.append opener).append inside))
    · exact fails_guard (clean_about _ (by decide +kernel) _) (parseNssLoop_clean _ _)

end Tokens

section Chains

theorem buildChain_clean (m : Components) : Fails Clean (Chain.buildChain m) :=
  clean_of_raised (buildChain_fails m)

theorem fromNss_clean (nss : Bytes) : Fails Clean (Chain.fromNss nss) := by
  unfold Chain.fromNss
  refine (parseNssMap_clean _).bind fun m => ?_
  exact fails_guard (clean_bare _) (buildChain_clean m)

theorem fromKey_clean (key : Bytes) : Fails Clean (Chain.fromKey key) := by
  unfold Chain.fromKey
  refine fails_guard (clean_about _ (by decide +kernel) _) ?_
  refine (parseNssMap_clean _).bind fun m => fails_guard (clean_bare _) ?_
  split
  · exact fails_error (clean_about _ (by decide +kernel) _)
  · refine fails_guard (clean_bare _) ((buildChain_clean m).bind fun out => ?_)
    split
    · exact fails_error (clean_about _ (by decide +kernel) _)
    · exact fails_ok _ _

/-- In whatever order the map is visited, the message quotes the component it blames. -/
theorem fromKeyIn_clean {order : Components → Components} (arranges : Arranges order) (key : Bytes) :
    Fails Clean (fromKeyIn order key) := by
  rcases fromKeyIn_cases arranges key with same | ⟨_, p, q, blamed, _⟩
  · rw [same]
    exact fromKey_clean key
  · rw [blamed]
    exact fails_error (clean_about _ (by decide +kernel) _)

theorem chainCall_clean (call : ChainCall) (c : Chain) : Fails Clean (call.run c).result := by
  cases call with
  | setNetwork nt => exact clean_of_raised (setNetwork_fails c nt)
  | setChainId ci => exact clean_of_raised (setChainId_fails c ci)

end Chains

section Paths

theorem parse_clean (dt : DerivationType) (path : Bytes) : Fails Clean (DerivationPath.parse dt path) :=
  clean_of_raised (parse_fails dt path)

theorem reparsed_clean {dp : DerivationPath} (hv : dp.type.isValid = true) (levels : List AddressIndex) :
    Fails Clean (dp.reparsed levels) := by
  have before : Printable (lit "levels do not form a ") := by decide +kernel
  have after : Printable (lit " path") := by decide +kernel
  have type := printable_nssText (type_name hv).1.2
  unfold DerivationPath.reparsed
  refine (parse_clean _ _).bind fun out => ?_
  split
  · exact fails_error (clean _ ((before.append type).append after))
  · exact fails_ok _ _

theorem fromLevels_clean (dt : DerivationType) (levels : List AddressIndex) :
    Fails Clean (DerivationPath.fromLevels dt levels) := by
  unfold DerivationPath.fromLevels
  split
  · exact fails_error (clean_quote _ _)
  · rename_i hv
    refine reparsed_clean ?_ _
    rw [(populate_frame _).2]
    simpa [DerivationPath.fresh] using hv

theorem rebuildLevels_type (dp : DerivationPath) : dp.rebuildLevels.type = dp.type := by
  unfold DerivationPath.rebuildLevels
  split_ifs
  · rfl
  · rfl
  · rfl
  all_goals
    cases dp.fixedPrefix with
    | none => rfl
    | some front => rfl

theorem constructPath_clean {dt : DerivationType} {coin account charge : UInt32} {index : AddressIndex}
    {e : ParseError} (h : DerivationPath.construct dt coin account charge index = .error (.parseError e)) :
    Clean e := by
  unfold DerivationPath.construct at h
  split at h
  · cases h
    exact clean_quote _ _
  · rename_i hv
    split at h
    · cases h
    · simp only at h
      generalize hr : DerivationPath.reparsed _ _ = r at h
      cases r with
      | ok out => cases h
      | error e' =>
        cases h
        refine reparsed_clean ?_ _ _ hr
        rw [rebuildLevels_type]
        simpa using hv

theorem pathCall_clean (call : PathCall) (d : DerivationPath) : Fails Clean (call.run d).result := by
  cases call with
  | setType dt => exact clean_of_raised (setType_fails d dt)
  | parsePath path => exact clean_of_raised (parsePath_fails d path)

end Paths

section Addresses

theorem setCoinType_clean (a : Address) (ct : Bytes) : Fails Clean (a.setCoinType ct).result := by
  unfold Address.setCoinType
  simp only
  split
  · exact fails_ok _ _
  · split
    · exact fails_error (clean_quote _ _)
    · exact fails_ok _ _

theorem parseAddressNss_clean (nss : Bytes) : Fails Clean (parseAddressNss nss) := by
  unfold parseAddressNss
  refine (parseNssMap_clean nss).bind fun m => ?_
  exact fails_guard (clean_bare _) (clean_of_raised (parseAddressFromComponents_fails m))

theorem parseUrn_clean (src : Bytes) : Fails Clean (parseUrn src) :=
  fails_guard (clean_bare _) (parseAddressNss_clean _)

theorem parseNss_clean (nss : Bytes) : Fails Clean (parseNss nss) := parseAddressNss_clean _

theorem addressCall_clean (call : AddressCall) (a : Address) : Fails Clean (call.run a).result := by
  have freeForm : ∀ component put v, Fails Clean (Address.setFreeForm component put a v).result :=
    fun component put v => clean_of_raised (setFreeForm_fails component put a v)
  cases call with
  | setDerivationType dt => exact clean_of_raised (setDerivationType_fails a dt)
  | setDerivationPath dp => exact clean_of_raised (setDerivationPath_fails a dp)
  | setDerivation dt dp => exact clean_of_raised (setDerivation_fails a dt dp)
  | setCoinType ct => exact setCoinType_clean a ct
  | setAddressAlgorithm aa => exact clean_of_raised (setAddressAlgorithm_fails a aa)
  | setAddressFormat af => exact clean_of_raised (setAddressFormat_fails a af)
  | setAddressPrefix ap => exact freeForm compAddressPrefix (fun v => { a with addressPrefix := v }) ap
  | setAddressSuffix as_ => exact freeForm compAddressSuffix (fun v => { a with addressSuffix := v }) as_
  | setWalletType wt => exact freeForm compWalletType (fun v => { a with walletType := v }) wt
  | setWalletId wi => exact freeForm compWalletId (fun v => { a with walletId := v }) wi
  | unmarshalText data =>
    change Fails Clean (unmarshalText a data).result
    rw [unmarshalText, After.result_commit]
    exact parseUrn_clean data

theorem ifGiven_clean {a : Address} {v : Bytes} {call : After Address ParseError}
    (h : Fails Clean call.result) : Fails Clean (a.ifGiven v call) := by
  unfold Address.ifGiven
  split
  · exact h
  · exact fails_ok _ _

theorem constructAddress_clean (c : Chain) (path : Option DerivationPath) (aa af ap as_ : Bytes) :
    Fails Clean (Address.construct c path aa af ap as_) := by
  unfold Address.construct
  refine (ifGiven_clean (addressCall_clean (.setAddressAlgorithm aa) _)).bind fun a => ?_
  refine (ifGiven_clean (addressCall_clean (.setAddressFormat af) _)).bind fun a => ?_
  refine (ifGiven_clean (addressCall_clean (.setAddressPrefix ap) _)).bind fun a => ?_
  exact ifGiven_clean (addressCall_clean (.setAddressSuffix as_) _)

end Addresses

section Guards

/-- The guards name stored values as they are: each is empty or comes from a register. -/
structure Shown (a : Address) : Prop where
  network : Printable a.chain.network.value
  type : ∀ p ∈ a.path, Printable p.type.value
  str : ∀ p ∈ a.path, Printable p.str
  algorithm : Printable a.resolvedAlgorithm.value
  format : Printable a.resolvedFormat.value

theorem derivationAlgorithm_ok (nt : NetworkType) (dt : DerivationType) :
    AlgorithmOk (derivationAlgorithm nt dt) := by
  have rows : ∀ p ∈ matrix, ∀ entry ∈ p.2.derivationAlgorithm, AlgorithmOk entry.2 := by decide +kernel
  unfold derivationAlgorithm
  split
  · exact .inl rfl
  · rename_i c row
    cases entry : c.derivationAlgorithm.lookup dt with
    | none => exact .inl rfl
    | some algo =>
      obtain ⟨before, after, split, _⟩ := List.lookup_eq_some_iff.mp entry
      exact rows _ (row_mem row) (dt, algo) (by simp [split])

theorem sound_type_text {d : DerivationPath} (h : Sound d) : NssText d.type.value := by
  rcases h with ⟨dt, empty | valid, rfl⟩ | ⟨s, levels, _, rfl⟩
  · have blank : (DerivationPath.fresh dt).type.value = [] := List.isEmpty_iff.mp empty
    rw [blank]
    simp [NssText]
  · exact (type_name valid).1.2
  · rw [concrete_type]
    exact (type_name s.type_valid).1.2

theorem sound_str_text {d : DerivationPath} (h : Sound d) : NssText d.str := by
  rcases h with ⟨dt, _, rfl⟩ | ⟨s, levels, fits, rfl⟩
  · have blank : (DerivationPath.fresh dt).str = [] := (fresh_blank dt).2.1
    rw [blank]
    simp [NssText]
  · rw [str_concrete fits]
    exact (renderPath_token levels).2

theorem sound_shown {a : Address} (h : AddressSound a) : Shown a := by
  obtain ⟨algorithm, format⟩ := resolved_ok h.algorithm h.format
  refine ⟨?_, fun p hp => printable_nssText (sound_type_text (path_sound h p hp)),
    fun p hp => printable_nssText (sound_str_text (path_sound h p hp)),
    printable_nssText (algorithmOk_text algorithm).1, printable_nssText (formatOk_text format).1⟩
  rcases (reachable_chain_sound h.chain).network with empty | valid
  · rw [empty]
    exact printable_nil
  · exact printable_nssText (network_name valid).1.2

theorem checkPathSet_clean {a : Address} (h : Shown a) : Fails Clean a.checkPathSet := by
  unfold Address.checkPathSet
  split
  · exact fails_ok _ _
  · rename_i p hp
    have type := h.type p hp
    refine fails_guard (clean _ ?_) (fails_ok _ _)
    exact (Printable.append (by decide +kernel) type).append (by decide +kernel)

theorem marshalText_clean {a : Address} (h : Shown a) : Fails Clean a.marshalText := by
  unfold Address.marshalText
  exact fails_guard (clean_bare _) ((checkPathSet_clean h).bind fun _ => fails_ok _ _)

theorem validatePath_clean {nt : NetworkType} {algo : Algorithm} {fmt : Format} {path : DerivationPath}
    (network : Printable nt.value) (algorithm : Printable algo.value) (format : Printable fmt.value)
    (type : Printable path.type.value) (str : Printable path.str) :
    Fails Clean (Address.validatePath nt algo fmt path) := by
  have want := printable_nssText (algorithmOk_text (derivationAlgorithm_ok nt path.type)).1
  have level : ∀ i, Printable (decimal i) := fun i => printable_nssText (decimal_token i).2
  unfold Address.validatePath
  refine fails_guard (clean _ ?_) (fails_guard (clean _ ?_) (fails_guard (clean _ ?_) ?_))
  case refine_4 =>
    split
    · rename_i i _
      have position : Printable (lit "ed25519 derives hardened levels only, level " ++ decimal i) :=
        .append (by decide +kernel) (level i)
      exact fails_error (clean _ (((position.append (by decide +kernel)).append str).append (by decide +kernel)))
    · exact fails_guard (clean _ (by decide +kernel)) (fails_ok _ _)
  -- the other messages are fixed texts around the values
  all_goals repeat' apply Printable.append
  all_goals first
    | assumption
    | decide +kernel

theorem validate_clean {a : Address} (h : Shown a) : Fails Clean a.validate := by
  have ⟨network, type, str, algorithm, format⟩ := h
  unfold Address.validate
  refine fails_guard (clean_bare _) ((checkPathSet_clean h).bind fun _ => ?_)
  refine fails_guard (clean_about _ (by decide +kernel) _) (fails_guard (clean_about _ (by decide +kernel) _) ?_)
  refine fails_guard (clean _ ?_) (fails_guard (clean _ ?_) ?_)
  case refine_3 =>
    split
    · exact fails_ok _ _
    · rename_i p hp
      split
      · exact fails_ok _ _
      · exact validatePath_clean network algorithm format (type p hp) (str p hp)
  all_goals repeat' apply Printable.append
  all_goals first
    | assumption
    | decide +kernel

theorem parseUrnStrict_clean (src : Bytes) : Fails Clean (parseUrnStrict src) := by
  unfold parseUrnStrict
  refine (parseUrn_clean src).bind_ok fun a parsed => ?_
  exact (validate_clean (sound_shown (parseUrn_sound parsed))).bind fun _ => fails_ok _ _

theorem derivationTypeFromString_clean (s : Bytes) : Fails Clean (derivationTypeFromString s) := by
  unfold derivationTypeFromString
  split
  · exact fails_ok _ _
  · exact fails_error (clean_quote _ _)

end Guards

section EntryPoints

/-- The exceptions a caller can meet, with any arguments and on any object a program can make. -/
inductive Thrown : ParseError → Prop where
  | parseUrn {src : Bytes} {e : ParseError} (h : parseUrn src = .error e) : Thrown e
  | parseUrnStrict {src : Bytes} {e : ParseError} (h : parseUrnStrict src = .error e) : Thrown e
  | parseNss {nss : Bytes} {e : ParseError} (h : parseNss nss = .error e) : Thrown e
  | chainConstruct {nt : NetworkType} {ci : Bytes} {e : ParseError}
      (h : Chain.construct nt ci = .error e) : Thrown e
  | chainFromKey {key : Bytes} {e : ParseError} (h : Chain.fromKey key = .error e) : Thrown e
  -- the loop over the component map may visit it in any order
  | chainFromKeyIn {order : Components → Components} {key : Bytes} {e : ParseError} (arranges : Arranges order)
      (h : fromKeyIn order key = .error e) : Thrown e
  | chainFromNss {nss : Bytes} {e : ParseError} (h : Chain.fromNss nss = .error e) : Thrown e
  | chainCall {c : Chain} {call : ChainCall} {e : ParseError} (hc : chains.Reachable c)
      (h : (call.run c).thrown = some e) : Thrown e
  | pathConstruct {dt : DerivationType} {coin account charge : UInt32} {index : AddressIndex} {e : ParseError}
      (h : DerivationPath.construct dt coin account charge index = .error (.parseError e)) : Thrown e
  | pathParse {dt : DerivationType} {path : Bytes} {e : ParseError}
      (h : DerivationPath.parse dt path = .error e) : Thrown e
  | pathFromLevels {dt : DerivationType} {levels : List AddressIndex} {e : ParseError}
      (h : DerivationPath.fromLevels dt levels = .error e) : Thrown e
  | pathCall {d : DerivationPath} {call : PathCall} {e : ParseError} (hd : paths.Reachable d)
      (h : (call.run d).thrown = some e) : Thrown e
  | addressConstruct {c : Chain} {path : Option DerivationPath} {aa af ap as_ : Bytes} {e : ParseError}
      (hc : chains.Reachable c) (hp : ∀ p ∈ path, paths.Reachable p)
      (h : Address.construct c path aa af ap as_ = .error e) : Thrown e
  | addressCall {a : Address} {call : AddressCall} {e : ParseError} (ha : addresses.Reachable a)
      (h : (call.run a).thrown = some e) : Thrown e
  | validate {a : Address} {e : ParseError} (ha : addresses.Reachable a) (h : a.validate = .error e) : Thrown e
  | marshalText {a : Address} {e : ParseError} (ha : addresses.Reachable a)
      (h : a.marshalText = .error e) : Thrown e
  | derivationTypeFromString {s : Bytes} {e : ParseError}
      (h : derivationTypeFromString s = .error e) : Thrown e

theorem thrown_clean {e : ParseError} (h : Thrown e) : Clean e := by
  cases h with
  | parseUrn h => exact parseUrn_clean _ e h
  | parseUrnStrict h => exact parseUrnStrict_clean _ e h
  | parseNss h => exact parseNss_clean _ e h
  | chainConstruct h => exact clean_of_raised (construct_fails _ _) e h
  | chainFromKey h => exact fromKey_clean _ e h
  | chainFromKeyIn arranges h => exact fromKeyIn_clean arranges _ e h
  | chainFromNss h => exact fromNss_clean _ e h
  | chainCall _ h => exact chainCall_clean _ _ e (After.result_eq_error.mpr h)
  | pathConstruct h => exact constructPath_clean h
  | pathParse h => exact parse_clean _ _ e h
  | pathFromLevels h => exact fromLevels_clean _ _ e h
  | pathCall _ h => exact pathCall_clean _ _ e (After.result_eq_error.mpr h)
  | addressConstruct _ _ h => exact constructAddress_clean _ _ _ _ _ _ e h
  | addressCall _ h => exact addressCall_clean _ _ e (After.result_eq_error.mpr h)
  | validate ha h => exact validate_clean (sound_shown (reachable_address_sound ha)) e h
  | marshalText ha h => exact marshalText_clean (sound_shown (reachable_address_sound ha)) e h
  | derivationTypeFromString h => exact derivationTypeFromString_clean _ e h

/-- No input shows in a message other than as printable bytes, and a quotation shows exactly one input. -/
theorem error_text_not_forged :
    (∀ e, Thrown e → Printable e.what) ∧
      (∀ s, ∃ body, quote s = ch '"' :: body ++ [ch '"'] ∧ escaped body = true) ∧
      Function.Injective quote ∧ ∀ s rest, unquote (quote s ++ rest) = some (s, rest) :=
  ⟨fun _ => thrown_clean, quote_body, quote_injective, unquote_quote⟩

end EntryPoints

end Mhda.ErrorText
