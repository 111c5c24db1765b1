import Mhda.Cells
import Mhda.DerivationSetters

set_option autoImplicit false

namespace Mhda.AddressMachine
open Mhda.ByteString Mhda.Errors Mhda.Detail Mhda.DetailFacts Mhda.Catalogue Mhda.Transition Mhda.Transition.After
open Mhda.Chains Mhda.Path Mhda.Addresses Mhda.Template Mhda.PathParse Mhda.PathHistory Mhda.PathGrammar Mhda.Setters
open Mhda.Descriptors Mhda.AddressHistory Mhda.Atomicity Mhda.DerivationSetters Mhda.Interleaving Mhda.Refinement
open Mhda.PathMachine Mhda.Cells

structure AddressState where
  network : Option {nt : NetworkType // nt.isValid = true}
  chainId : Option {ci : Bytes // Token ci}
  coin : Option UInt32
  path : Option PathState
  algorithm : {x : Algorithm // AlgorithmOk x}
  format : {x : Format // FormatOk x}
  addressPrefix : {v : Bytes // NssText v}
  addressSuffix : {v : Bytes // NssText v}
  walletType : {v : Bytes // NssText v}
  walletId : {v : Bytes // NssText v}

namespace AddressState

def object (st : AddressState) : Address :=
  ⟨⟨st.network.elim ⟨[]⟩ (·.1), st.chainId.elim [] (·.1), st.coin⟩, st.path.map PathState.object, st.algorithm.1,
    st.format.1, st.addressPrefix.1, st.addressSuffix.1, st.walletType.1, st.walletId.1⟩

theorem network_injective {x y : Option {nt : NetworkType // nt.isValid = true}}
    (h : x.elim ⟨[]⟩ (·.1) = y.elim ⟨[]⟩ (·.1)) : x = y := by
  have unnamed : ∀ nt : {nt : NetworkType // nt.isValid = true}, nt.1 ≠ ⟨[]⟩ := by
    intro nt empty
    have full := network_nonempty nt.2
    rw [empty] at full
    cases full
  cases x with
  | none =>
    cases y with
    | none => rfl
    | some nt => exact absurd h.symm (unnamed nt)
  | some nt =>
    cases y with
    | none => exact absurd h (unnamed nt)
    | some nt' => exact congrArg some (Subtype.ext h)

theorem chainId_injective {x y : Option {ci : Bytes // Token ci}} (h : x.elim [] (·.1) = y.elim [] (·.1)) :
    x = y := by
  cases x with
  | none =>
    cases y with
    | none => rfl
    | some ci => exact absurd h.symm ci.2.1
  | some ci =>
    cases y with
    | none => exact absurd h ci.2.1
    | some ci' => exact congrArg some (Subtype.ext h)

theorem object_injective : Function.Injective object := by
  intro st st' h
  obtain ⟨network, chainId, coin, path, algorithm, format, addressPrefix, addressSuffix, walletType, walletId⟩ := st
  obtain rfl : network = st'.network := network_injective (congrArg (fun a => a.chain.network) h)
  obtain rfl : chainId = st'.chainId := chainId_injective (congrArg (fun a => a.chain.chainId) h)
  obtain rfl : coin = st'.coin := congrArg (fun a => a.chain.coin) h
  obtain rfl : path = st'.path := Option.map_injective PathState.object_injective (congrArg Address.path h)
  obtain rfl : algorithm = st'.algorithm := Subtype.ext (congrArg Address.algorithm h)
  obtain rfl : format = st'.format := Subtype.ext (congrArg Address.format h)
  obtain rfl : addressPrefix = st'.addressPrefix := Subtype.ext (congrArg Address.addressPrefix h)
  obtain rfl : addressSuffix = st'.addressSuffix := Subtype.ext (congrArg Address.addressSuffix h)
  obtain rfl : walletType = st'.walletType := Subtype.ext (congrArg Address.walletType h)
  obtain rfl : walletId = st'.walletId := Subtype.ext (congrArg Address.walletId h)
  rfl

/-- The path state a derivation call starts from: a missing path is attached first. -/
def attached (st : AddressState) : PathState := st.path.getD .typeless

@[simp] theorem attached_object (st : AddressState) : st.object.path.getD .init = st.attached.object := by
  obtain ⟨network, chainId, coin, path⟩ := st
  cases path <;> rfl

end AddressState

/-- Where each call leads, and the code it reports when it is refused. -/
inductive Moves : Call → AddressState → AddressState → Option ErrorCode → Prop where
  | network {st : AddressState} {nt : NetworkType} (h : nt.isValid = true) :
      Moves (.chain (.setNetwork nt)) st { st with network := some ⟨nt, h⟩ } none
  | unknownNetwork {st : AddressState} {nt : NetworkType} (h : nt.isValid = false) :
      Moves (.chain (.setNetwork nt)) st st (some .invalidNetworkType)
  | chainId {st : AddressState} {ci : Bytes} (h : Token (trim ci)) :
      Moves (.chain (.setChainId ci)) st { st with chainId := some ⟨trim ci, h⟩ } none
  | blankChainId {st : AddressState} {ci : Bytes} (h : trim ci = []) :
      Moves (.chain (.setChainId ci)) st st (some .missingChainId)
  | badChainId {st : AddressState} {ci : Bytes} (full : trim ci ≠ []) (h : ¬ NssText (trim ci)) :
      Moves (.chain (.setChainId ci)) st st (some .invalidValue)
  | coin {st : AddressState} {ct : UInt32} : Moves (.setCoin ct) st { st with coin := some ct } none
  | noCoin {st : AddressState} : Moves .clearCoin st { st with coin := none } none
  | coinText {st : AddressState} {ct : Bytes} {n : UInt32} (h : SpellsNumber (trim ct) n.toNat) :
      Moves (.set .coinType ct) st { st with coin := some n } none
  | blankCoin {st : AddressState} {ct : Bytes} (h : trim ct = []) :
      Moves (.set .coinType ct) st { st with coin := none } none
  | badCoin {st : AddressState} {ct : Bytes} (full : trim ct ≠ []) (h : ∀ n : UInt32, ¬ SpellsNumber (trim ct) n.toNat) :
      Moves (.set .coinType ct) st st (some .invalidCoinType)
  | noPath {st : AddressState} {call : PathCall} (h : st.path = none) : Moves (.onPath call) st st none
  | onPath {st : AddressState} {call : PathCall} {p p' : PathState} {r : Option ErrorCode} (h : st.path = some p)
      (move : PathMachine.Moves call p p' r) : Moves (.onPath call) st { st with path := some p' } r
  | assignPath {st : AddressState} {path : Option PathState} : Moves (.assignPath path) st { st with path := path } none
  | type {st : AddressState} {dt : Bytes} {p' : PathState}
      (move : PathMachine.Moves (.setType (chosenType dt)) st.attached p' none) :
      Moves (.setDerivationType dt) st { st with path := some p' } none
  | unknownType {st : AddressState} {dt : Bytes} (h : (chosenType dt).isValid = false) :
      Moves (.setDerivationType dt) st st (some .invalidDerivationType)
  | emptyPath {st : AddressState} {dp : Bytes} (h : st.attached = .typeless ∨ st.attached = .root) (blank : trim dp = []) :
      Moves (.setDerivationPath dp) st { st with path := some st.attached } none
  /- The path stays attached. -/
  | rootedPath {st : AddressState} {dp : Bytes} (h : st.attached = .typeless ∨ st.attached = .root) (full : trim dp ≠ []) :
      Moves (.setDerivationPath dp) st { st with path := some st.attached } (some .invalidDerivationPath)
  | pathText {st : AddressState} {dp : Bytes} {p' : PathState} {r : Option ErrorCode}
      (typed : st.attached ≠ .typeless) (scheme : st.attached ≠ .root)
      (move : PathMachine.Moves (.parsePath (normalize dp)) st.attached p' r) :
      Moves (.setDerivationPath dp) st { st with path := some p' } r
  | root {st : AddressState} {dt dp : Bytes} (h : chosenType dt = .root) (blank : trim dp = []) :
      Moves (.setDerivation dt dp) st { st with path := some .root } none
  | derivation {st : AddressState} {dt dp : Bytes} {p : HdPath} (h : chosenType dt = p.scheme.type)
      (spelled : Grammar (chosenType dt) (normalize dp) p.levels) :
      Moves (.setDerivation dt dp) st { st with path := some (.held p) } none
  | unknownDerivation {st : AddressState} {dt dp : Bytes} (h : (chosenType dt).isValid = false) :
      Moves (.setDerivation dt dp) st st (some .invalidDerivationType)
  | badDerivation {st : AddressState} {dt dp : Bytes} (valid : (chosenType dt).isValid = true)
      (h : ∀ levels, ¬ Grammar (chosenType dt) (normalize dp) levels) :
      Moves (.setDerivation dt dp) st st (some .invalidDerivationPath)
  | algorithm {st : AddressState} {aa : Bytes} (h : AlgorithmOk ⟨normalize aa⟩) :
      Moves (.set .addressAlgorithm aa) st { st with algorithm := ⟨_, h⟩ } none
  | badAlgorithm {st : AddressState} {aa : Bytes} (h : ¬ AlgorithmOk ⟨normalize aa⟩) :
      Moves (.set .addressAlgorithm aa) st st (some .invalidAlgorithm)
  | format {st : AddressState} {af : Bytes} (h : FormatOk ⟨normalize af⟩) :
      Moves (.set .addressFormat af) st { st with format := ⟨_, h⟩ } none
  | badFormat {st : AddressState} {af : Bytes} (h : ¬ FormatOk ⟨normalize af⟩) :
      Moves (.set .addressFormat af) st st (some .invalidFormat)
  | addressPrefix {st : AddressState} {v : Bytes} (h : NssText (trim v)) :
      Moves (.set .addressPrefix v) st { st with addressPrefix := ⟨_, h⟩ } none
  | addressSuffix {st : AddressState} {v : Bytes} (h : NssText (trim v)) :
      Moves (.set .addressSuffix v) st { st with addressSuffix := ⟨_, h⟩ } none
  | walletType {st : AddressState} {v : Bytes} (h : NssText (trim v)) :
      Moves (.set .walletType v) st { st with walletType := ⟨_, h⟩ } none
  | walletId {st : AddressState} {v : Bytes} (h : NssText (trim v)) :
      Moves (.set .walletId v) st { st with walletId := ⟨_, h⟩ } none
  | badText {st : AddressState} {x : UrnEditing.Component} {v : Bytes}
      (free : x ∈ [.addressPrefix, .addressSuffix, .walletType, .walletId]) (h : ¬ NssText (trim v)) :
      Moves (.set x v) st st (some .invalidValue)

section Total

theorem root_blank {p : Bytes} {levels : List AddressIndex} (h : Grammar .root p levels) : p = [] := by
  generalize hr : DerivationType.root = dt at h
  cases h <;> first | rfl | cases hr

theorem setType_none {dt : DerivationType} {p p' : PathState} {r : Option ErrorCode} (valid : dt.isValid = true)
    (move : PathMachine.Moves (.setType dt) p p' r) : r = none := by
  cases move with
  | unknownType invalid => rw [valid] at invalid; cases invalid
  | _ => rfl

theorem chain_total (call : ChainCall) (st : AddressState) : ∃ st' r, Moves (.chain call) st st' r := by
  cases call with
  | setNetwork nt =>
    cases valid : nt.isValid with
    | true => exact ⟨_, _, .network valid⟩
    | false => exact ⟨_, _, .unknownNetwork valid⟩
  | setChainId ci =>
    by_cases blank : trim ci = []
    · exact ⟨_, _, .blankChainId blank⟩
    · by_cases text : NssText (trim ci)
      · exact ⟨_, _, .chainId ⟨blank, text⟩⟩
      · exact ⟨_, _, .badChainId blank text⟩

theorem set_total (x : UrnEditing.Component) (v : Bytes) (st : AddressState) : ∃ st' r, Moves (.set x v) st st' r := by
  cases x with
  | coinType =>
    by_cases blank : trim v = []
    · exact ⟨_, _, .blankCoin blank⟩
    · by_cases number : ∃ n : UInt32, SpellsNumber (trim v) n.toNat
      · obtain ⟨n, hn⟩ := number
        exact ⟨_, _, .coinText hn⟩
      · exact ⟨_, _, .badCoin blank fun n hn => number ⟨n, hn⟩⟩
  | addressAlgorithm =>
    by_cases ok : AlgorithmOk ⟨normalize v⟩
    · exact ⟨_, _, .algorithm ok⟩
    · exact ⟨_, _, .badAlgorithm ok⟩
  | addressFormat =>
    by_cases ok : FormatOk ⟨normalize v⟩
    · exact ⟨_, _, .format ok⟩
    · exact ⟨_, _, .badFormat ok⟩
  | addressPrefix =>
    by_cases text : NssText (trim v)
    · exact ⟨_, _, .addressPrefix text⟩
    · exact ⟨_, _, .badText (by decide) text⟩
  | addressSuffix =>
    by_cases text : NssText (trim v)
    · exact ⟨_, _, .addressSuffix text⟩
    · exact ⟨_, _, .badText (by decide) text⟩
  | walletType =>
    by_cases text : NssText (trim v)
    · exact ⟨_, _, .walletType text⟩
    · exact ⟨_, _, .badText (by decide) text⟩
  | walletId =>
    by_cases text : NssText (trim v)
    · exact ⟨_, _, .walletId text⟩
    · exact ⟨_, _, .badText (by decide) text⟩

theorem setDerivation_total (dt dp : Bytes) (st : AddressState) : ∃ st' r, Moves (.setDerivation dt dp) st st' r := by
  cases valid : (chosenType dt).isValid with
  | false => exact ⟨_, _, .unknownDerivation valid⟩
  | true =>
    by_cases spelled : ∃ levels, Grammar (chosenType dt) (normalize dp) levels
    · obtain ⟨levels, hl⟩ := spelled
      rcases valid_cases valid with root | ⟨s, scheme⟩
      · rw [root] at hl
        have blank := root_blank hl
        exact ⟨_, _, .root root ((normalize_eq_nil dp).mp blank)⟩
      · have hs := hl
        rw [scheme] at hs
        obtain ⟨d, parsed, rfl⟩ := (parse_grammar _ _ _).mpr hs
        exact ⟨_, _, .derivation (p := ⟨s, d.levels, (parse_fits parsed).1⟩) scheme hl⟩
    · exact ⟨_, _, .badDerivation valid fun levels hl => spelled ⟨levels, hl⟩⟩

theorem moves_total (call : Call) (st : AddressState) : ∃ st' r, Moves call st st' r := by
  cases call with
  | chain call => exact chain_total call st
  | setCoin ct => exact ⟨_, _, .coin⟩
  | clearCoin => exact ⟨_, _, .noCoin⟩
  | onPath call =>
    cases h : st.path with
    | none => exact ⟨_, _, .noPath h⟩
    | some p =>
      obtain ⟨p', r, move⟩ := PathMachine.moves_total call p
      exact ⟨_, _, .onPath h move⟩
  | assignPath path => exact ⟨_, _, .assignPath⟩
  | setDerivationType dt =>
    cases valid : (chosenType dt).isValid with
    | false => exact ⟨_, _, .unknownType valid⟩
    | true =>
      obtain ⟨p', r, move⟩ := PathMachine.moves_total (.setType (chosenType dt)) st.attached
      have finished : r = none := setType_none valid move
      subst finished
      exact ⟨_, _, .type move⟩
  | setDerivationPath dp =>
    by_cases rooted : st.attached = .typeless ∨ st.attached = .root
    · by_cases blank : trim dp = []
      · exact ⟨_, _, .emptyPath rooted blank⟩
      · exact ⟨_, _, .rootedPath rooted blank⟩
    · obtain ⟨typed, scheme⟩ := not_or.mp rooted
      obtain ⟨p', r, move⟩ := PathMachine.moves_total (.parsePath (normalize dp)) st.attached
      exact ⟨_, _, .pathText typed scheme move⟩
  | setDerivation dt dp => exact setDerivation_total dt dp st
  | set x v => exact set_total x v st

end Total

section Steps

theorem setChainId_text (c : Chain) {ci : Bytes} (full : trim ci ≠ []) (h : ¬ NssText (trim ci)) :
    c.setChainId ci = .throw c ⟨.invalidValue, quote (trim ci) ++ lit " for " ++ quote Nss.compChainId⟩ := by
  unfold Chain.setChainId validateFreeFormValue
  simp only [List.isEmpty_eq_false_iff.mpr full, Bool.false_eq_true, if_false, mt (nssText_iff_all _).mp h]

def Follows (call : Call) (st st' : AddressState) (r : Option ErrorCode) : Prop :=
  (call.run st.object).state = st'.object ∧ (call.run st.object).thrown.map ParseError.code = r

variable {st st' : AddressState} {r : Option ErrorCode}

theorem follows_done {call : Call} (h : call.run st.object = .done st'.object) : Follows call st st' none := by
  rw [Follows, h]
  exact ⟨rfl, rfl⟩

theorem follows_throw {call : Call} {e : ParseError} (h : call.run st.object = .throw st'.object e) :
    Follows call st st' (some e.code) := by
  rw [Follows, h]
  exact ⟨rfl, rfl⟩

theorem chain_follows {call : ChainCall} (h : Moves (.chain call) st st' r) : Follows (.chain call) st st' r := by
  cases h with
  | network valid =>
    refine follows_done ?_
    rw [Call.run, ChainCall.run, setNetwork_eq, if_pos valid]
    rfl
  | @unknownNetwork _ nt invalid =>
    refine follows_throw (e := ⟨.invalidNetworkType, quote nt.value⟩) ?_
    rw [Call.run, ChainCall.run, setNetwork_eq, if_neg (by simp [invalid])]
    rfl
  | chainId token =>
    refine follows_done ?_
    rw [Call.run, ChainCall.run, setChainId_eq_done _ token]
    rfl
  | blankChainId blank =>
    refine follows_throw (e := .bare .missingChainId) ?_
    rw [Call.run, ChainCall.run, Chain.setChainId, blank]
    rfl
  | @badChainId _ ci full text =>
    refine follows_throw (e := ⟨.invalidValue, quote (trim ci) ++ lit " for " ++ quote Nss.compChainId⟩) ?_
    rw [Call.run, ChainCall.run, setChainId_text _ full text]
    rfl

theorem coin_follows {ct : Bytes} (h : Moves (.set .coinType ct) st st' r) : Follows (.set .coinType ct) st st' r := by
  cases h with
  | coinText number =>
    have full : (trim ct).isEmpty = false := by
      rw [List.isEmpty_eq_false_iff]
      intro blank
      have read := (parseUint32_eq_some _ _).mpr number
      rw [blank] at read
      cases read
    refine follows_done ?_
    simp only [Call.run, UrnEditing.Component.set, Address.setCoinType, full, Bool.false_eq_true, if_false,
      (parseUint32_eq_some _ _).mpr number]
    rfl
  | blankCoin blank =>
    refine follows_done ?_
    simp only [Call.run, UrnEditing.Component.set, Address.setCoinType, blank]
    rfl
  | badCoin full number =>
    have unread : parseUint32 (trim ct) = none := by
      cases read : parseUint32 (trim ct) with
      | none => rfl
      | some n => exact absurd ((parseUint32_eq_some _ _).mp read) (number n)
    refine follows_throw (e := ⟨.invalidCoinType, quote (trim ct)⟩) ?_
    simp only [Call.run, UrnEditing.Component.set, Address.setCoinType, List.isEmpty_eq_false_iff.mpr full,
      Bool.false_eq_true, if_false, unread]
  | badText free => exact absurd free (by decide)

theorem text_follows {call : Call} {component v : Bytes} {put : Bytes → Address}
    (free : call.run st.object = Address.setFreeForm component put st.object v) (text : NssText (trim v))
    (stored : put (trim v) = st'.object) : Follows call st st' none := by
  refine follows_done ?_
  rw [free, setFreeForm_eq, if_pos text, stored]

theorem badText_follows {call : Call} {component v : Bytes} {put : Bytes → Address}
    (free : call.run st.object = Address.setFreeForm component put st.object v) (bad : ¬ NssText (trim v)) :
    Follows call st st (some .invalidValue) := by
  refine follows_throw (e := ⟨.invalidValue, quote (trim v) ++ lit " for " ++ quote component⟩) ?_
  rw [free, setFreeForm_eq, if_neg bad]

theorem set_follows {x : UrnEditing.Component} {v : Bytes} (h : Moves (.set x v) st st' r) :
    Follows (.set x v) st st' r := by
  cases x with
  | coinType => exact coin_follows h
  | addressAlgorithm =>
    cases h with
    | algorithm ok =>
      refine follows_done ?_
      rw [Call.run, UrnEditing.Component.set, setAddressAlgorithm_eq, if_pos ok]
      rfl
    | badAlgorithm bad =>
      refine follows_throw (e := ⟨.invalidAlgorithm, quote (normalize v)⟩) ?_
      rw [Call.run, UrnEditing.Component.set, setAddressAlgorithm_eq, if_neg bad]
    | badText free => exact absurd free (by decide)
  | addressFormat =>
    cases h with
    | format ok =>
      refine follows_done ?_
      rw [Call.run, UrnEditing.Component.set, setAddressFormat_eq, if_pos ok]
      rfl
    | badFormat bad =>
      refine follows_throw (e := ⟨.invalidFormat, quote (normalize v)⟩) ?_
      rw [Call.run, UrnEditing.Component.set, setAddressFormat_eq, if_neg bad]
    | badText free => exact absurd free (by decide)
  | addressPrefix =>
    have free : (Call.set .addressPrefix v).run st.object =
        Address.setFreeForm Nss.compAddressPrefix (fun t => { st.object with addressPrefix := t }) st.object v := rfl
    cases h with
    | addressPrefix text => exact text_follows free text rfl
    | badText _ bad => exact badText_follows free bad
  | addressSuffix =>
    have free : (Call.set .addressSuffix v).run st.object =
        Address.setFreeForm Nss.compAddressSuffix (fun t => { st.object with addressSuffix := t }) st.object v := rfl
    cases h with
    | addressSuffix text => exact text_follows free text rfl
    | badText _ bad => exact badText_follows free bad
  | walletType =>
    have free : (Call.set .walletType v).run st.object =
        Address.setFreeForm Nss.compWalletType (fun t => { st.object with walletType := t }) st.object v := rfl
    cases h with
    | walletType text => exact text_follows free text rfl
    | badText _ bad => exact badText_follows free bad
  | walletId =>
    have free : (Call.set .walletId v).run st.object =
        Address.setFreeForm Nss.compWalletId (fun t => { st.object with walletId := t }) st.object v := rfl
    cases h with
    | walletId text => exact text_follows free text rfl
    | badText _ bad => exact badText_follows free bad

/-- A move of the path machine is a call on the path object that is put back. -/
theorem path_follows {call : Call} {pathCall : PathCall} {p p' : PathState}
    (h : call.run st.object = (pathCall.run p.object).lift fun q => { st.object with path := some q })
    (move : PathMachine.Moves pathCall p p' r) : Follows call st { st with path := some p' } r := by
  obtain ⟨state, thrown⟩ := PathMachine.moves_step pathCall p p' r move
  rw [Follows, h, lift_state, lift_thrown, state]
  exact ⟨rfl, thrown⟩

theorem setDerivationType_follows {dt : Bytes} (h : Moves (.setDerivationType dt) st st' r) :
    Follows (.setDerivationType dt) st st' r := by
  cases h with
  | @type _ _ p' move =>
    obtain ⟨state, thrown⟩ := PathMachine.moves_step _ _ _ _ move
    have valid : (chosenType dt).isValid = true := by
      by_contra invalid
      rw [PathCall.run, DerivationPath.setType, if_pos (by simp [invalid])] at thrown
      cases thrown
    refine follows_done ?_
    rw [Call.run, setDerivationType_eq, if_pos valid, AddressState.attached_object]
    rw [PathCall.run] at state
    rw [state]
    rfl
  | unknownType invalid =>
    refine follows_throw (e := ⟨.invalidDerivationType, quote (normalize dt)⟩) ?_
    rw [Call.run, setDerivationType_eq, if_neg (by simp [invalid])]

theorem rooted_type {p : PathState} (h : p = .typeless ∨ p = .root) :
    p.object.type = .root ∨ p.object.type.isEmpty = true := by
  rcases h with rfl | rfl
  · exact .inr rfl
  · exact .inl rfl

theorem scheme_type {p : PathState} (typed : p ≠ .typeless) (scheme : p ≠ .root) :
    ¬ (p.object.type = .root ∨ p.object.type.isEmpty = true) := by
  rw [PathState.object_type]
  cases p with
  | typeless => exact absurd rfl typed
  | root => exact absurd rfl scheme
  | pending s => simp [PathState.type, s.type_ne_root, s.type_ne_empty]
  | held p => simp [PathState.type, p.scheme.type_ne_root, p.scheme.type_ne_empty]

theorem setDerivationPath_follows {dp : Bytes} (h : Moves (.setDerivationPath dp) st st' r) :
    Follows (.setDerivationPath dp) st st' r := by
  cases h with
  | emptyPath rooted blank =>
    refine follows_done ?_
    simp only [Call.run, Address.setDerivationPath, AddressState.attached_object, if_pos (rooted_type rooted), blank]
    rfl
  | rootedPath rooted full =>
    refine follows_throw (e := ⟨.invalidDerivationPath,
      lit "root derivation must have empty path, got " ++ quote (trim dp)⟩) ?_
    simp only [Call.run, Address.setDerivationPath, AddressState.attached_object, if_pos (rooted_type rooted)]
    rw [if_pos (by simpa using full)]
    rfl
  | pathText typed scheme move =>
    refine path_follows ?_ move
    simp only [Call.run, Address.setDerivationPath, AddressState.attached_object, if_neg (scheme_type typed scheme)]
    rfl

theorem setDerivation_commit (a : Address) (dt dp : Bytes) :
    a.setDerivation dt dp = .commit a (a.setDerivation dt dp).result := by
  rw [Address.setDerivation, result_commit]

theorem pathFor_error {dt : DerivationType} {dp : Bytes} {e : ParseError} (valid : dt.isValid = true)
    (h : pathFor dt dp = .error e) : e.code = .invalidDerivationPath := by
  unfold pathFor at h
  split at h
  · split at h
    · cases h
      rfl
    · cases h
  · exact parse_valid_error valid _ h

theorem setDerivation_follows {dt dp : Bytes} (h : Moves (.setDerivation dt dp) st st' r) :
    Follows (.setDerivation dt dp) st st' r := by
  cases h with
  | root named blank =>
    have read : (st.object.setDerivation dt dp).result = .ok { st.object with path := some (.fresh .root) } := by
      refine (setDerivation_eq_ok _ _ _ _).mpr ⟨_, ?_, rfl⟩
      rw [named, (normalize_eq_nil dp).mpr blank]
      rfl
    refine follows_done ?_
    rw [Call.run, setDerivation_commit, read]
    rfl
  | @derivation _ _ _ p scheme spelled =>
    have read : (st.object.setDerivation dt dp).result = .ok { st.object with path := some (PathState.held p).object } := by
      refine (setDerivation_eq_ok _ _ _ _).mpr ⟨_, ?_, rfl⟩
      rw [scheme] at spelled ⊢
      exact parse_held spelled
    refine follows_done ?_
    rw [Call.run, setDerivation_commit, read]
    rfl
  | unknownDerivation invalid =>
    refine follows_throw (e := ⟨.invalidDerivationType, quote (normalize dt)⟩) ?_
    rw [Call.run, setDerivation_commit, setDerivation_eq, if_neg (by simp [invalid])]
    rfl
  | badDerivation valid misspelled =>
    cases read : (st.object.setDerivation dt dp).result with
    | ok b =>
      obtain ⟨q, parsed, _⟩ := (setDerivation_eq_ok _ _ _ _).mp read
      exact absurd ((parse_grammar _ _ _).mp ⟨q, parsed, rfl⟩) (misspelled _)
    | error e =>
      have code : e.code = .invalidDerivationPath := by
        rw [setDerivation_eq, if_pos valid] at read
        cases named : pathFor (chosenType dt) dp with
        | ok q => rw [named] at read; cases read
        | error e' =>
          rw [named] at read
          cases read
          exact pathFor_error valid named
      rw [← code]
      refine follows_throw ?_
      rw [Call.run, setDerivation_commit, read]
      rfl

theorem moves_step (call : Call) (st st' : AddressState) (r : Option ErrorCode) (h : Moves call st st' r) :
    (call.run st.object).state = st'.object ∧ (call.run st.object).thrown.map ParseError.code = r := by
  cases call with
  | chain call => exact chain_follows h
  | setCoin ct => cases h; exact ⟨rfl, rfl⟩
  | clearCoin => cases h; exact ⟨rfl, rfl⟩
  | onPath call =>
    cases h with
    | noPath missing =>
      refine follows_done ?_
      simp only [Call.run, AddressState.object, missing, Option.map_none]
    | onPath present move =>
      refine path_follows ?_ move
      simp only [Call.run, AddressState.object, present, Option.map_some]
  | assignPath path => cases h; exact ⟨rfl, rfl⟩
  | setDerivationType dt => exact setDerivationType_follows h
  | setDerivationPath dp => exact setDerivationPath_follows h
  | setDerivation dt dp => exact setDerivation_follows h
  | set x v => exact set_follows h

theorem address_implements : Implements Call.run AddressState.object ParseError.code Moves :=
  ⟨AddressState.object_injective, moves_total, moves_step⟩

end Steps

section Objects

theorem sound_object {a : Address} (h : AddressSound a) : ∃ st : AddressState, st.object = a := by
  obtain ⟨⟨network, chainId, coin⟩, path, algorithm, format, addressPrefix, addressSuffix, walletType, walletId⟩ := a
  obtain ⟨chain, paths, aa, af, ap, as_, wt, wi⟩ := h
  obtain ⟨named, identified⟩ := reachable_chain_sound chain
  have networkState : ∃ x : Option {nt : NetworkType // nt.isValid = true}, x.elim ⟨[]⟩ (·.1) = network := by
    rcases named with empty | valid
    · exact ⟨none, congrArg NetworkType.mk empty.symm⟩
    · exact ⟨some ⟨network, valid⟩, rfl⟩
  have chainIdState : ∃ x : Option {ci : Bytes // Token ci}, x.elim [] (·.1) = chainId := by
    rcases identified with empty | token
    · exact ⟨none, empty.symm⟩
    · exact ⟨some ⟨chainId, token⟩, rfl⟩
  have pathState : ∃ x : Option PathState, x.map PathState.object = path := by
    cases path with
    | none => exact ⟨none, rfl⟩
    | some p =>
      obtain ⟨st, rfl⟩ := PathMachine.sound_object (reachable_sound (paths p rfl))
      exact ⟨some st, rfl⟩
  obtain ⟨x, rfl⟩ := networkState
  obtain ⟨y, rfl⟩ := chainIdState
  obtain ⟨z, rfl⟩ := pathState
  exact ⟨⟨x, y, coin, z, ⟨_, aa⟩, ⟨_, af⟩, ⟨_, ap⟩, ⟨_, as_⟩, ⟨_, wt⟩, ⟨_, wi⟩⟩, rfl⟩

def script (st : AddressState) : Part → List Call
  | .network => st.network.toList.map fun nt => .chain (.setNetwork nt.1)
  | .chainId => st.chainId.toList.map fun ci => .chain (.setChainId ci.1)
  | .coin => st.coin.toList.map .setCoin
  | .path => st.path.toList.flatMap fun p => .setDerivationPath [] :: (callsFor p).map .onPath
  | .algorithm => [.set .addressAlgorithm st.algorithm.1.value]
  | .format => [.set .addressFormat st.format.1.value]
  | .addressPrefix => [.set .addressPrefix st.addressPrefix.1]
  | .addressSuffix => [.set .addressSuffix st.addressSuffix.1]
  | .walletType => [.set .walletType st.walletType.1]
  | .walletId => [.set .walletId st.walletId.1]

theorem script_part (st : AddressState) (i : Part) : ∀ call ∈ script st i, call.part = i := by
  intro call hc
  cases i with
  | network | chainId | coin =>
    obtain ⟨v, _, rfl⟩ := List.mem_map.mp hc
    rfl
  | path =>
    obtain ⟨p, _, hp⟩ := List.mem_flatMap.mp hc
    rcases List.mem_cons.mp hp with rfl | hp
    · rfl
    · obtain ⟨pathCall, _, rfl⟩ := List.mem_map.mp hp
      rfl
  | algorithm | format | addressPrefix | addressSuffix | walletType | walletId =>
    obtain rfl := List.mem_singleton.mp hc
    rfl

theorem replay_onPath (calls : List PathCall) {a : Address} {p : DerivationPath} (h : a.path = some p) :
    (replay Call.run (calls.map .onPath) a).path = some (replay PathCall.run calls p) := by
  induction calls generalizing a p with
  | nil => exact h
  | cons call calls ih =>
    refine ih ?_
    simp only [Call.run, h]
    rfl

theorem script_made (st : AddressState) (i : Part) :
    i.get (replay Call.run (script st i) .init) = i.get st.object := by
  obtain ⟨network, chainId, coin, path, ⟨aa, algorithmOk⟩, ⟨af, formatOk⟩, ⟨ap, prefixText⟩, ⟨as_, suffixText⟩,
    ⟨wt, typeText⟩, ⟨wi, idText⟩⟩ := st
  have stored : ∀ {v : Bytes}, NssText v → NssText (trim v) ∧ trim v = v := by
    intro v text
    rw [text.trim]
    exact ⟨text, rfl⟩
  cases i with
  | network =>
    cases network with
    | none => rfl
    | some nt =>
      change ((Call.chain (.setNetwork nt.1)).run .init).state.chain.network = nt.1
      rw [Call.run, ChainCall.run, setNetwork_eq, if_pos nt.2]
      rfl
  | chainId =>
    cases chainId with
    | none => rfl
    | some ci =>
      have same : trim ci.1 = ci.1 := ci.2.2.trim
      have token : Token (trim ci.1) := by
        rw [same]
        exact ci.2
      change ((Call.chain (.setChainId ci.1)).run .init).state.chain.chainId = ci.1
      rw [Call.run, ChainCall.run, setChainId_eq_done _ token]
      exact same
  | coin => cases coin <;> rfl
  | path =>
    cases path with
    | none => rfl
    | some p =>
      change (replay Call.run ((callsFor p).map .onPath ++ []) { Address.init with path := some .init }).path = _
      rw [List.append_nil, replay_onPath _ rfl, callsFor_object]
      rfl
  | algorithm =>
    have same : normalize aa.value = aa.value := by
      rw [(algorithmOk_text algorithmOk).1.normalize, (algorithmOk_text algorithmOk).2]
    change (Address.init.setAddressAlgorithm aa.value).state.algorithm = aa
    rw [setAddressAlgorithm_eq, same, if_pos algorithmOk]
    rfl
  | format =>
    have same : normalize af.value = af.value := by
      rw [(formatOk_text formatOk).1.normalize, (formatOk_text formatOk).2]
    change (Address.init.setAddressFormat af.value).state.format = af
    rw [setAddressFormat_eq, same, if_pos formatOk]
    rfl
  | addressPrefix =>
    change (Address.setFreeForm _ _ _ ap).state.addressPrefix = ap
    rw [setFreeForm_eq, if_pos (stored prefixText).1]
    exact (stored prefixText).2
  | addressSuffix =>
    change (Address.setFreeForm _ _ _ as_).state.addressSuffix = as_
    rw [setFreeForm_eq, if_pos (stored suffixText).1]
    exact (stored suffixText).2
  | walletType =>
    change (Address.setFreeForm _ _ _ wt).state.walletType = wt
    rw [setFreeForm_eq, if_pos (stored typeText).1]
    exact (stored typeText).2
  | walletId =>
    change (Address.setFreeForm _ _ _ wi).state.walletId = wi
    rw [setFreeForm_eq, if_pos (stored idText).1]
    exact (stored idText).2

theorem call_reachable {a : Address} (h : addresses.Reachable a) (call : Call) :
    addresses.Reachable (call.run a).state := by
  cases call with
  | chain call =>
    refine .step h (.callChain a ?_)
    cases call with
    | setNetwork nt => exact .setNetwork a.chain nt
    | setChainId ci => exact .setChainId a.chain ci
  | setCoin ct => exact .step h (.callChain a (.setCoin a.chain ct))
  | clearCoin => exact .step h (.callChain a (.clearCoin a.chain))
  | onPath call =>
    cases present : a.path with
    | none =>
      have missing : ((Call.onPath call).run a).state = a := by simp only [Call.run, present, done_state]
      rw [missing]
      exact h
    | some p =>
      have called : ((Call.onPath call).run a).state = { a with path := some (call.run p).state } := by
        simp only [Call.run, present, lift_state]
      rw [called]
      refine .step h (.callPath a present ?_)
      cases call with
      | setType dt => exact .setType p dt
      | parsePath path => exact .parsePath p path
  | assignPath path =>
    refine .step h (.assignPath a ?_)
    intro p hp
    obtain ⟨st, _, rfl⟩ := Option.mem_map.mp hp
    exact object_reachable st
  | setDerivationType dt => exact .step h (.setDerivationType a dt)
  | setDerivationPath dp => exact .step h (.setDerivationPath a dp)
  | setDerivation dt dp => exact .step h (.setDerivation a dt dp)
  | set x v =>
    cases x with
    | coinType => exact .step h (.setCoinType a v)
    | addressAlgorithm => exact .step h (.setAddressAlgorithm a v)
    | addressFormat => exact .step h (.setAddressFormat a v)
    | addressPrefix => exact .step h (.setAddressPrefix a v)
    | addressSuffix => exact .step h (.setAddressSuffix a v)
    | walletType => exact .step h (.setWalletType a v)
    | walletId => exact .step h (.setWalletId a v)

theorem replay_addresses {a : Address} (h : addresses.Reachable a) (calls : List Call) :
    addresses.Reachable (replay Call.run calls a) := by
  induction calls generalizing a with
  | nil => exact h
  | cons call calls ih => exact ih (call_reachable h call)

/-- An address object is a state of the machine, calls on its parts make every one of them out of
    the default-constructed address, and every run of calls is a run of the machine. -/
theorem address_object_machine (a : Address) :
    (addresses.Reachable a ↔ ∃! st : AddressState, st.object = a) ∧
    (addresses.Reachable a ↔ ∃ calls, replay Call.run calls .init = a) ∧
    ∀ (st st' : AddressState) (calls : List Call) (rs : List (Option ErrorCode)),
      Runs Moves calls st st' rs ↔ replay Call.run calls st.object = st'.object ∧
        reports Call.run ParseError.code calls st.object = rs := by
  have reached : (∃ calls, replay Call.run calls .init = a) → addresses.Reachable a := by
    rintro ⟨calls, rfl⟩
    exact replay_addresses (.created .init) calls
  have built : (∃ st : AddressState, st.object = a) → ∃ calls, replay Call.run calls .init = a := by
    rintro ⟨st, rfl⟩
    exact ⟨_, address_parts.assemble Part.all_nodup Part.mem_all (script_part st) (script_made st)⟩
  refine ⟨⟨?_, ?_⟩, ⟨?_, reached⟩, fun st st' calls rs => address_implements.runs_iff calls st st' rs⟩
  · intro h
    obtain ⟨st, rfl⟩ := sound_object (reachable_address_sound h)
    exact ⟨st, rfl, fun st' same => AddressState.object_injective same⟩
  · rintro ⟨st, object, _⟩
    exact reached (built ⟨st, object⟩)
  · exact fun h => built (sound_object (reachable_address_sound h))

end Objects

end Mhda.AddressMachine
