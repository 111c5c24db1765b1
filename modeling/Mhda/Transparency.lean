import Mhda.AddressMachine
import Mhda.ChainScan
import Mhda.Hash
import Mhda.Marshalling

set_option autoImplicit false

/-!
# What a client can tell

The text of an address is all that its methods show, now or after any calls: two
addresses are the same to every client that leaves the path object alone exactly
when they are written the same.
-/
namespace Mhda.Transparency
open Mhda.ByteString Mhda.Errors Mhda.Detail Mhda.DetailFacts Mhda.Catalogue Mhda.Nss Mhda.KeyValue Mhda.Numeral
open Mhda.Hash Mhda.Transition Mhda.Transition.After Mhda.Interleaving Mhda.Refinement
open Mhda.Chains Mhda.Path Mhda.Addresses Mhda.Template Mhda.PathParse Mhda.Setters Mhda.PathHistory Mhda.AddressHistory
open Mhda.Descriptors Mhda.Decoding Mhda.Marshalling Mhda.ChainScan Mhda.DerivationSetters Mhda.PathMachine Mhda.Cells Mhda.AddressMachine

/-- The calls of a client that does not look at the path object. -/
inductive ClientCall where
  | cell (call : Call) (blind : ∀ pathCall, call ≠ .onPath pathCall)
  | unmarshalText (data : Bytes)
  | assignChain (c : Chain)
  | assign (b : Address)

def ClientCall.run : ClientCall → Address → After Address ParseError
  | cell call _, a => call.run a
  | unmarshalText data, a => Parser.unmarshalText a data
  | assignChain c, a => .done { a with chain := c }
  | assign b, _ => .done b

structure View where
  chain : Chain
  key : Bytes
  derivationType : DerivationType
  resolvedAlgorithm : Algorithm
  resolvedFormat : Format
  explicitAlgorithm : Algorithm
  explicitFormat : Format
  addressPrefix : Bytes
  addressSuffix : Bytes
  walletType : Bytes
  walletId : Bytes
  nss : Bytes
  str : Bytes
  marshalText : Except ParseError Bytes
  validate : Except ParseError Unit
  hash : Bytes
  nssHash : Bytes
  hash256 : Bytes
  nssHash256 : Bytes

def view (a : Address) : View where
  chain := a.chain
  key := a.chain.key
  derivationType := a.getDerivationType
  resolvedAlgorithm := a.resolvedAlgorithm
  resolvedFormat := a.resolvedFormat
  explicitAlgorithm := a.algorithm
  explicitFormat := a.format
  addressPrefix := a.addressPrefix
  addressSuffix := a.addressSuffix
  walletType := a.walletType
  walletId := a.walletId
  nss := a.nss
  str := a.str
  marshalText := a.marshalText
  validate := a.validate
  hash := Address.hash a
  nssHash := Address.nssHash a
  hash256 := Address.hash256 a
  nssHash256 := Address.nssHash256 a

def shows (d : DerivationPath) : Bool := !d.type.isEmpty && d.type != .root

/-- The address without a path object that says nothing. -/
def plain (a : Address) : Address := { a with path := a.path.filter shows }

section Silent
variable {a : Address} {d : DerivationPath}

theorem silent_type (silent : shows d = false) : d.type.isEmpty = true ∨ d.type = .root := by
  unfold shows at silent
  by_cases root : d.type = .root
  · exact .inr root
  · exact .inl (by simpa [root] using silent)

theorem filter_silent (silent : shows d = false) : (some d).filter shows = none :=
  Option.filter_some_neg (by simp [silent])

theorem emittedPath_silent (silent : shows d = false) : emittedPath (some d) = [] := by
  rw [emittedPath, show (!d.type.isEmpty && d.type != .root) = false from silent]
  rfl

theorem checkPathSet_silent (path : a.path = some d) (silent : shows d = false) : a.checkPathSet = .ok () := by
  rw [Address.checkPathSet, path]
  simp [show (!d.type.isEmpty && d.type != .root) = false from silent]

/-- A path object that says nothing is seen nowhere. -/
theorem view_silent (path : a.path = some d) (silent : shows d = false) : view { a with path := none } = view a := by
  have type := silent_type silent
  have derivationType : Address.getDerivationType { a with path := none } = a.getDerivationType := by
    rw [Address.getDerivationType, Address.getDerivationType, path]
    rcases type with empty | root
    · simp [empty]
    · simp [root]
  have nss : Address.nss { a with path := none } = a.nss := by
    rw [nss_eq, nss_eq, emitted, emitted, path, emittedPath_silent silent]
    rfl
  have str : Address.str { a with path := none } = a.str := by rw [Address.str, Address.str, nss]
  have set : Address.checkPathSet { a with path := none } = a.checkPathSet := by
    rw [checkPathSet_silent path silent]
    rfl
  have marshalText : Address.marshalText { a with path := none } = a.marshalText := by
    rw [Address.marshalText, Address.marshalText, set, str]
  have validate : Address.validate { a with path := none } = a.validate := by
    rw [Address.validate, Address.validate, set, path]
    simp [type]
    rfl
  simp only [view, derivationType, nss, str, marshalText, validate, Address.hash, Address.nssHash, Address.hash256,
    Address.nssHash256]
  rfl

end Silent

section Plain
variable (a : Address)

theorem plain_cases : plain a = a ∨ ∃ d, a.path = some d ∧ shows d = false ∧ plain a = { a with path := none } := by
  obtain ⟨chain, path, algorithm, format, addressPrefix, addressSuffix, walletType, walletId⟩ := a
  cases path with
  | none => exact .inl rfl
  | some d =>
    cases shown : shows d with
    | true => exact .inl (by simp [plain, shown])
    | false => exact .inr ⟨d, rfl, shown, by rw [plain, filter_silent shown]⟩

theorem view_plain : view (plain a) = view a := by
  rcases plain_cases a with same | ⟨d, path, silent, same⟩
  · rw [same]
  · rw [same, view_silent path silent]

@[simp] theorem plain_plain : plain (plain a) = plain a := by
  rcases plain_cases a with same | ⟨d, _, _, same⟩
  · rw [same, same]
  · rw [same]
    rfl

theorem get_plain {i : Part} (other : i ≠ .path) : i.get (plain a) = i.get a := by
  cases i with
  | path => exact absurd rfl other
  | _ => rfl

theorem put_plain {i : Part} (other : i ≠ .path) (v : i.Value) : i.put (plain a) v = plain (i.put a v) := by
  cases i with
  | path => exact absurd rfl other
  | _ => rfl

end Plain

section Calls

/-- What a call answers and what it leaves behind, up to a path object that says nothing. -/
def Agree (x y : After Address ParseError) : Prop := x.thrown = y.thrown ∧ plain x.state = plain y.state

theorem cell_other (call : Call) (other : call.part ≠ .path) (a : Address) :
    Agree (call.run (plain a)) (call.run a) := by
  rw [run_local call (plain a), run_local call a, get_plain a other]
  exact ⟨rfl, by rw [lift_state, lift_state, put_plain a other, plain_plain]⟩

theorem setType_silent {d : DerivationPath} (silent : shows d = false) {dt : DerivationType} (valid : dt.isValid = true) :
    (some (DerivationPath.init.setType dt).state).filter shows = (some (d.setType dt).state).filter shows := by
  have named : dt ≠ DerivationPath.init.type := by
    rintro rfl
    exact absurd (valid_ne_empty valid) (by decide)
  unfold DerivationPath.setType
  rw [if_neg (by simp [valid]), if_neg named, if_neg (by simp [valid])]
  by_cases same : dt = d.type
  · have root : dt = .root := by
      rcases silent_type silent with empty | root
      · rw [← same, valid_ne_empty valid] at empty
        cases empty
      · rw [same, root]
    rw [if_pos same, root, done_state, done_state, filter_silent silent, filter_silent rfl]
  · rw [if_neg same]

theorem setDerivationType_plain (dt : Bytes) (a : Address) :
    Agree ((plain a).setDerivationType dt) (a.setDerivationType dt) := by
  rcases plain_cases a with same | ⟨d, path, silent, same⟩
  · rw [same]
    exact ⟨rfl, rfl⟩
  · rw [same, setDerivationType_eq, setDerivationType_eq, path]
    by_cases valid : (chosenType dt).isValid = true
    · rw [if_pos valid, if_pos valid]
      refine ⟨rfl, ?_⟩
      simp only [plain, done_state, Option.getD_none, Option.getD_some, setType_silent silent valid]
    · rw [if_neg valid, if_neg valid]
      refine ⟨rfl, ?_⟩
      rw [throw_state, throw_state, ← same, plain_plain]

theorem setDerivationPath_plain (dp : Bytes) (a : Address) :
    Agree ((plain a).setDerivationPath dp) (a.setDerivationPath dp) := by
  rcases plain_cases a with same | ⟨d, path, silent, same⟩
  · rw [same]
    exact ⟨rfl, rfl⟩
  · have missing : DerivationPath.init.type = .root ∨ DerivationPath.init.type.isEmpty = true := .inr rfl
    have blank : plain { a with path := some .init } = plain { a with path := some d } := by
      rw [plain, plain, filter_silent silent, filter_silent rfl]
    rw [same]
    unfold Address.setDerivationPath
    simp only [path, Option.getD_none, Option.getD_some, if_pos missing, if_pos (silent_type silent).symm]
    by_cases full : (!(trim dp).isEmpty) = true
    · rw [if_pos full, if_pos full]
      exact ⟨rfl, blank⟩
    · rw [if_neg full, if_neg full]
      exact ⟨rfl, blank⟩

theorem setDerivation_plain (dt dp : Bytes) (a : Address) :
    Agree ((plain a).setDerivation dt dp) (a.setDerivation dt dp) := by
  have refused : ∀ e, Agree (.throw (plain a) e) (.throw a e) := fun e => ⟨rfl, plain_plain a⟩
  rw [setDerivation_commit, setDerivation_commit a, setDerivation_eq, setDerivation_eq]
  by_cases valid : (chosenType dt).isValid = true
  · rw [if_pos valid, if_pos valid]
    cases pathFor (chosenType dt) dp with
    | error e => exact refused e
    | ok q => exact ⟨rfl, rfl⟩
  · rw [if_neg valid, if_neg valid]
    exact refused _

theorem cell_plain (call : Call) (blind : ∀ pathCall, call ≠ .onPath pathCall) (a : Address) :
    Agree (call.run (plain a)) (call.run a) := by
  by_cases own : call.part = .path
  · cases call with
    | setDerivationType dt => exact setDerivationType_plain dt a
    | setDerivationPath dp => exact setDerivationPath_plain dp a
    | setDerivation dt dp => exact setDerivation_plain dt dp a
    | assignPath path => exact ⟨rfl, rfl⟩
    | onPath pathCall => exact absurd rfl (blind pathCall)
    | chain call => cases call <;> cases own
    | setCoin _ | clearCoin => cases own
    | set x v => cases x <;> cases own
  · exact cell_other call own a

theorem clientCall_plain (call : ClientCall) (a : Address) : Agree (call.run (plain a)) (call.run a) := by
  cases call with
  | cell call blind => exact cell_plain call blind a
  | unmarshalText data =>
    simp only [ClientCall.run, Parser.unmarshalText]
    cases Parser.parseUrn data with
    | ok b => exact ⟨rfl, rfl⟩
    | error e => exact ⟨rfl, plain_plain a⟩
  | assignChain c => exact ⟨rfl, congrArg (fun x : Address => { x with chain := c }) (plain_plain a)⟩
  | assign b => exact ⟨rfl, rfl⟩

theorem plain_normal : NormalForm ClientCall.run view plain where
  observe a := view_plain a
  thrown call a := (clientCall_plain call a).1
  state call a := (clientCall_plain call a).2

end Calls

section Texts
variable {a b : Address}

theorem optText_injective : Function.Injective optText := by
  intro v w h
  unfold optText at h
  split at h <;> split at h
  · rename_i hv hw
    rw [hv, hw]
  · cases h
  · cases h
  · exact Option.some.inj h

theorem decimal_injective : Function.Injective fun v : UInt32 => decimal v.toNat := by
  intro v w h
  have same := congrArg (value decDigit 10) h
  rw [value_decimal, value_decimal] at same
  exact UInt32.toNat_inj.mp (Option.some.inj same)

theorem sound_ext {d e : DerivationPath} (hd : Sound d) (he : Sound e) (type : d.type = e.type) (str : d.str = e.str) :
    d = e := by
  have blank : ∀ dt, (DerivationPath.fresh dt).str = [] := fun dt => (fresh_blank dt).2.1
  have written : ∀ {s : Scheme} {levels : List AddressIndex}, s.Fits levels → (concrete s levels).str ≠ [] := by
    intro s levels fits
    rw [str_concrete fits]
    exact (renderPath_token levels).1
  rcases hd with ⟨dt, _, rfl⟩ | ⟨s, levels, fits, rfl⟩ <;> rcases he with ⟨dt', _, rfl⟩ | ⟨s', levels', fits', rfl⟩
  · exact congrArg DerivationPath.fresh type
  · exact absurd (str.symm.trans (blank dt)) (written fits')
  · exact absurd (str.trans (blank dt')) (written fits)
  · obtain rfl : s = s' := Scheme.type_injective (by rwa [concrete_type, concrete_type] at type)
    have parsed := parse_str fits
    rw [str, parse_str fits', Except.ok.injEq] at parsed
    exact parsed.symm

theorem lookup_emittedPath (path : Option DerivationPath) :
    (emittedPath path).lookup compDerivationType = (path.filter shows).map (·.type.value) ∧
    (emittedPath path).lookup compDerivationPath = (path.filter shows).bind fun d => optText d.str := by
  cases path with
  | none => exact ⟨rfl, rfl⟩
  | some d =>
    cases shown : shows d with
    | false =>
      rw [filter_silent shown, emittedPath_silent shown]
      exact ⟨rfl, rfl⟩
    | true =>
      have written : emittedPath (some d) =
          (compDerivationType, d.type.value) :: optPair compDerivationPath (optText d.str) := if_pos shown
      rw [Option.filter_some_pos shown, written, lookup_cons_if, lookup_cons_if, if_pos rfl, if_neg (by decide),
        lookup_optPair, if_pos rfl]
      exact ⟨rfl, rfl⟩

theorem path_of_lookups {p q : Option DerivationPath} (hp : ∀ d ∈ p, Sound d) (hq : ∀ d ∈ q, Sound d)
    (types : (emittedPath p).lookup compDerivationType = (emittedPath q).lookup compDerivationType)
    (texts : (emittedPath p).lookup compDerivationPath = (emittedPath q).lookup compDerivationPath) :
    p.filter shows = q.filter shows := by
  rw [(lookup_emittedPath p).1, (lookup_emittedPath q).1] at types
  rw [(lookup_emittedPath p).2, (lookup_emittedPath q).2] at texts
  cases hd : p.filter shows with
  | none =>
    rw [hd] at types
    exact (Option.map_eq_none_iff.mp types.symm).symm
  | some d =>
    rw [hd] at types texts
    obtain ⟨e, he, type⟩ := Option.map_eq_some_iff.mp types.symm
    rw [he] at texts
    have found : d ∈ p ∧ e ∈ q := ⟨(Option.mem_filter_iff.mp hd).1, (Option.mem_filter_iff.mp he).1⟩
    have typed : d.type = e.type := congrArg DerivationType.mk type.symm
    rw [he, sound_ext (hp d found.1) (hq e found.2) typed (optText_injective texts)]

theorem lookup_emitted_metadata (a : Address) :
    (emitted a).lookup compAddressAlgorithm = optText a.algorithm.value ∧
    (emitted a).lookup compAddressFormat = optText a.format.value ∧
    (emitted a).lookup compAddressPrefix = optText a.addressPrefix ∧
    (emitted a).lookup compAddressSuffix = optText a.addressSuffix ∧
    (emitted a).lookup compWalletType = optText a.walletType ∧
    (emitted a).lookup compWalletId = optText a.walletId := by
  have path : ∀ k, k ≠ compDerivationType ∧ k ≠ compDerivationPath → (emittedPath a.path).lookup k = none := by
    intro k other
    cases a.path with
    | none => rfl
    | some d =>
      simp only [emittedPath]
      split_ifs
      · rw [lookup_cons_if, if_neg other.1, lookup_optPair, if_neg other.2]
      · rfl
  unfold emitted
  simp only [lookup_cons_if, List.lookup_append, lookup_optPair, path compAddressAlgorithm (by decide),
    path compAddressFormat (by decide), path compAddressPrefix (by decide), path compAddressSuffix (by decide),
    path compWalletType (by decide), path compWalletId (by decide)]
  simp +decide only [if_true, if_false, Option.none_or, Option.or_none, and_self]

/-- The text tells everything but a path object that says nothing. -/
theorem plain_of_str (ha : AddressSound a) (hb : AddressSound b) (h : a.str = b.str) : plain a = plain b := by
  have text : joinPairs (ch ':') (emitted a) = joinPairs (ch ':') (emitted b) := by
    rw [← nss_eq, ← nss_eq]
    exact List.append_cancel_left h
  have same := joinPairs_injective (ch ':') (emitted_no_colon ha) (emitted_no_colon hb) text
  obtain ⟨ant, aci, act⟩ := lookup_emitted_chain a
  obtain ⟨bnt, bci, bct⟩ := lookup_emitted_chain b
  obtain ⟨aaa, aaf, aap, aas, awt, awi⟩ := lookup_emitted_metadata a
  obtain ⟨baa, baf, bap, bas, bwt, bwi⟩ := lookup_emitted_metadata b
  have types := lookup_emitted_path a (.inl rfl)
  have texts := lookup_emitted_path a (.inr rfl)
  rw [same, lookup_emitted_path b (.inl rfl)] at types
  rw [same, lookup_emitted_path b (.inr rfl)] at texts
  rw [same] at ant aci act aaa aaf aap aas awt awi
  refine Cells.Part.ext fun i => ?_
  cases i with
  | network => exact congrArg NetworkType.mk (Option.some.inj (ant.symm.trans bnt))
  | chainId => exact Option.some.inj (aci.symm.trans bci)
  | coin => exact Option.map_injective decimal_injective (act.symm.trans bct)
  | path => exact path_of_lookups (path_sound ha) (path_sound hb) types.symm texts.symm
  | algorithm => exact congrArg Algorithm.mk (optText_injective (aaa.symm.trans baa))
  | format => exact congrArg Format.mk (optText_injective (aaf.symm.trans baf))
  | addressPrefix => exact optText_injective (aap.symm.trans bap)
  | addressSuffix => exact optText_injective (aas.symm.trans bas)
  | walletType => exact optText_injective (awt.symm.trans bwt)
  | walletId => exact optText_injective (awi.symm.trans bwi)

end Texts

section Clients
variable {a b : Address}

def nameNetwork : ClientCall := .cell (.chain (.setNetwork .ethereumVm)) fun _ => nofun

def dropPath : ClientCall := .cell (.setDerivation [] []) fun _ => nofun

theorem nameNetwork_state (a : Address) :
    (nameNetwork.run a).state = { a with chain := { a.chain with network := .ethereumVm } } := rfl

theorem dropPath_state (a : Address) : (dropPath.run a).state = { a with path := some (.fresh .root) } := by
  change (a.setDerivation [] []).state = _
  rw [setDerivation_commit, setDerivation_eq]
  rfl

theorem marshalText_unnamed (unnamed : a.chain.network.isEmpty = true) :
    a.marshalText = .error (.bare .uninitializedAddress) := by
  rw [Address.marshalText, if_pos unnamed]

theorem marshalText_named (named : a.chain.network.isEmpty = false) :
    a.marshalText = a.checkPathSet.map fun _ => a.str := by
  rw [Address.marshalText, if_neg (by simp [named])]
  cases a.checkPathSet <;> rfl

theorem parts_of_dropped (ha : addresses.Reachable a) (hb : addresses.Reachable b)
    (namedA : a.chain.network.isEmpty = false) (namedB : b.chain.network.isEmpty = false)
    (same : (dropPath.run a).state.marshalText = (dropPath.run b).state.marshalText) {i : Part} (other : i ≠ .path) :
    i.get a = i.get b := by
  have sound : ∀ {c : Address}, addresses.Reachable c → AddressSound (dropPath.run c).state :=
    fun hc => reachable_address_sound (call_reachable hc (.setDerivation [] []))
  have written : ∀ {c : Address}, c.chain.network.isEmpty = false →
      (dropPath.run c).state.marshalText = .ok (dropPath.run c).state.str := by
    intro c named
    rw [dropPath_state, marshalText_named (a := { c with path := some (.fresh .root) }) named]
    rfl
  have kept : ∀ c : Address, i.get (plain (dropPath.run c).state) = i.get c := by
    intro c
    rw [get_plain _ other, dropPath_state]
    exact Part.get_put_other (j := .path) other c _
  rw [written namedA, written namedB, Except.ok.injEq] at same
  rw [← kept a, ← kept b, plain_of_str (sound ha) (sound hb) same]

theorem unset_path (h : AddressSound a) {e : ParseError} (refused : a.checkPathSet = .error e) :
    ∃ dt : DerivationType, a.path = some (.fresh dt) ∧ e = ⟨.invalidDerivationPath,
      lit "derivation type \"" ++ dt.value ++ lit "\" is set without a path"⟩ := by
  unfold Address.checkPathSet at refused
  cases path : a.path with
  | none =>
    rw [path] at refused
    cases refused
  | some d =>
    simp only [path] at refused
    split at refused
    · rename_i unset
      obtain rfl := Except.error.inj refused
      rcases path_sound h d path with ⟨dt, _, rfl⟩ | ⟨s, levels, fits, rfl⟩
      · exact ⟨dt, rfl, rfl⟩
      · simp [concrete_levels, fits.ne_nil] at unset
    · cases refused

theorem unnamed_iff (h : AddressSound a) :
    a.marshalText = .error (.bare .uninitializedAddress) ↔ a.chain.network.isEmpty = true := by
  refine ⟨fun refused => ?_, marshalText_unnamed⟩
  cases named : a.chain.network.isEmpty with
  | true => rfl
  | false =>
    rw [marshalText_named named] at refused
    cases set : a.checkPathSet with
    | ok _ =>
      rw [set] at refused
      cases refused
    | error e =>
      obtain ⟨dt, _, rfl⟩ := unset_path h set
      rw [set] at refused
      cases Except.error.inj refused

theorem path_of_named (ha : AddressSound a) (hb : AddressSound b) (namedA : a.chain.network.isEmpty = false)
    (namedB : b.chain.network.isEmpty = false) (same : a.marshalText = b.marshalText) :
    (plain a).path = (plain b).path := by
  rw [marshalText_named namedA, marshalText_named namedB] at same
  cases setA : a.checkPathSet with
  | ok _ =>
    cases setB : b.checkPathSet with
    | ok _ =>
      rw [setA, setB] at same
      rw [plain_of_str ha hb (Except.ok.inj same)]
    | error e =>
      rw [setA, setB] at same
      cases same
  | error e =>
    cases setB : b.checkPathSet with
    | ok _ =>
      rw [setA, setB] at same
      cases same
    | error e' =>
      rw [setA, setB] at same
      obtain rfl := Except.error.inj same
      obtain ⟨⟨name⟩, pathA, rfl⟩ := unset_path ha setA
      obtain ⟨⟨name'⟩, pathB, detail⟩ := unset_path hb setB
      obtain rfl : name = name' :=
        List.append_cancel_left (List.append_cancel_right (ParseError.mk.inj detail).2)
      rw [plain, plain, pathA, pathB]

/-- What `marshal_text` shows after any calls tells two addresses apart that are written differently. -/
theorem plain_of_clients (ha : addresses.Reachable a) (hb : addresses.Reachable b)
    (h : ∀ calls, (replay ClientCall.run calls a).marshalText = (replay ClientCall.run calls b).marshalText) :
    plain a = plain b := by
  have reach : ∀ {c : Address}, addresses.Reachable c → addresses.Reachable (nameNetwork.run c).state :=
    fun hc => call_reachable hc (.chain (.setNetwork .ethereumVm))
  have named : ∀ c : Address, (nameNetwork.run c).state.chain.network.isEmpty = false := by
    intro c
    rw [nameNetwork_state]
    rfl
  have others : ∀ i : Part, i ≠ .path → i ≠ .network → i.get a = i.get b := by
    intro i path network
    have same := parts_of_dropped (reach ha) (reach hb) (named a) (named b) (h [nameNetwork, dropPath]) path
    rw [nameNetwork_state, nameNetwork_state] at same
    have kept : ∀ c : Address, i.get { c with chain := { c.chain with network := .ethereumVm } } = i.get c :=
      fun c => Part.get_put_other (j := .network) network c _
    rwa [kept, kept] at same
  have network : a.chain.network = b.chain.network := by
    have both := unnamed_iff (reachable_address_sound ha)
    rw [show a.marshalText = b.marshalText from h [], unnamed_iff (reachable_address_sound hb)] at both
    cases unnamed : a.chain.network.isEmpty with
    | true =>
      have blank : ∀ nt : NetworkType, nt.isEmpty = true → nt = ⟨[]⟩ := by
        rintro ⟨name⟩ empty
        exact congrArg NetworkType.mk (List.isEmpty_iff.mp empty)
      rw [blank _ unnamed, blank _ (both.mpr unnamed)]
    | false =>
      have named' : b.chain.network.isEmpty = false := by
        rw [← Bool.not_eq_true, both, unnamed]
        decide
      exact parts_of_dropped ha hb unnamed named' (h [dropPath]) (i := .network) (by decide)
  have path : (plain a).path = (plain b).path := by
    have same := path_of_named (reachable_address_sound (reach ha)) (reachable_address_sound (reach hb)) (named a)
      (named b) (h [nameNetwork])
    rw [nameNetwork_state, nameNetwork_state] at same
    exact same
  refine Cells.Part.ext fun i => ?_
  by_cases own : i = .path
  · subst own
    exact path
  · rw [get_plain a own, get_plain b own]
    by_cases net : i = .network
    · subst net
      exact network
    · exact others i own net

end Clients

/-- Two addresses that are written the same are the same to every client, also to one that sees everything
    but the path object; written differently, they are told apart by one that sees nothing but
    `marshal_text`. So an address can be stored as its text and read again. -/
theorem text_is_all {a b : Address} (ha : addresses.Reachable a) (hb : addresses.Reachable b) :
    (a.str = b.str ↔ plain a = plain b) ∧
    (a.str = b.str ↔ Indistinguishable ClientCall.run view a b) ∧
    (a.str = b.str ↔
      ∀ calls, (replay ClientCall.run calls a).marshalText = (replay ClientCall.run calls b).marshalText) ∧
    ∀ c, Parser.parseUrn a.str = .ok c → Indistinguishable ClientCall.run view a c := by
  have alike : ∀ {c : Address}, plain a = plain c → Indistinguishable ClientCall.run view a c :=
    fun same => plain_normal.bisimulation.indistinguishable same
  have written : ∀ {c : Address}, addresses.Reachable c → a.str = c.str → plain a = plain c :=
    fun hc => plain_of_str (reachable_address_sound ha) (reachable_address_sound hc)
  have text : plain a = plain b → a.str = b.str := fun same => congrArg View.str ((alike same) []).2
  refine ⟨⟨written hb, text⟩, ⟨fun same => alike (written hb same), fun h => congrArg View.str (h []).2⟩, ⟨?_, ?_⟩, ?_⟩
  · exact fun same calls => congrArg View.marshalText ((alike (written hb same)) calls).2
  · exact fun h => text (plain_of_clients ha hb h)
  · intro c parsed
    have sound := reachable_address_sound ha
    obtain ⟨network, chainId, path⟩ := (parseUrn_str_iff sound).mp ⟨c, parsed⟩
    obtain ⟨d, describes⟩ := describe sound network chainId path
    have text := str_of_describes describes
    rw [text, parseUrn_render, Except.ok.injEq] at parsed
    refine alike (written ?_ ?_)
    · rw [← parsed]
      exact .created (.parseUrn (parseUrn_render d))
    · rw [text, ← parsed, toAddress_str]

def onEvm (path : Option DerivationPath) : Address := .ofChain ⟨.ethereumVm, lit "1", none⟩ path

/-- A missing path and a root path make two addresses that no client tells apart. -/
theorem text_is_all_root : onEvm none ≠ onEvm (some (.fresh .root)) ∧
    Indistinguishable ClientCall.run view (onEvm none) (onEvm (some (.fresh .root))) := by
  have made : Chain.construct .ethereumVm (lit "1") = .ok ⟨.ethereumVm, lit "1", none⟩ := by decide +kernel
  have chain : chains.Reachable ⟨.ethereumVm, lit "1", none⟩ := .created (.construct made)
  have bare : addresses.Reachable (onEvm none) := .created (.ofChain chain (by simp))
  have rooted : addresses.Reachable (onEvm (some (.fresh .root))) := by
    refine .created (.ofChain chain fun d hd => ?_)
    obtain rfl := Option.some.inj hd
    exact object_reachable .root
  exact ⟨by decide +kernel, (text_is_all bare rooted).2.1.mp rfl⟩

end Mhda.Transparency
