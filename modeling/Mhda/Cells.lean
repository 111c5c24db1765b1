import Mhda.PathMachine
import Mhda.UrnEditing

set_option autoImplicit false

namespace Mhda.Cells
open Mhda.ByteString Mhda.Errors Mhda.Detail Mhda.DetailFacts Mhda.Catalogue Mhda.Transition Mhda.Transition.After
open Mhda.Chains Mhda.Path Mhda.Addresses Mhda.Template Mhda.Setters Mhda.PathHistory Mhda.AddressHistory
open Mhda.Atomicity Mhda.Interleaving Mhda.PathMachine Mhda.Descriptors
open Mhda.UrnEditing (Component)

inductive Part where
  | network | chainId | coin | path | algorithm | format | addressPrefix | addressSuffix | walletType | walletId
  deriving DecidableEq

namespace Part

def Value : Part → Type
  | network => NetworkType
  | coin => Option UInt32
  | path => Option DerivationPath
  | algorithm => Algorithm
  | format => Format
  | chainId | addressPrefix | addressSuffix | walletType | walletId => Bytes

def get : (i : Part) → Address → i.Value
  | network, a => a.chain.network
  | chainId, a => a.chain.chainId
  | coin, a => a.chain.coin
  | path, a => a.path
  | algorithm, a => a.algorithm
  | format, a => a.format
  | addressPrefix, a => a.addressPrefix
  | addressSuffix, a => a.addressSuffix
  | walletType, a => a.walletType
  | walletId, a => a.walletId

def put : (i : Part) → Address → i.Value → Address
  | network, a, v => { a with chain := { a.chain with network := v } }
  | chainId, a, v => { a with chain := { a.chain with chainId := v } }
  | coin, a, v => { a with chain := { a.chain with coin := v } }
  | path, a, v => { a with path := v }
  | algorithm, a, v => { a with algorithm := v }
  | format, a, v => { a with format := v }
  | addressPrefix, a, v => { a with addressPrefix := v }
  | addressSuffix, a, v => { a with addressSuffix := v }
  | walletType, a, v => { a with walletType := v }
  | walletId, a, v => { a with walletId := v }

def all : List Part :=
  [network, chainId, coin, path, algorithm, format, addressPrefix, addressSuffix, walletType, walletId]

theorem all_nodup : all.Nodup := by decide

theorem mem_all (i : Part) : i ∈ all := by
  cases i <;> decide

@[simp] theorem get_put (i : Part) (a : Address) (v : i.Value) : i.get (i.put a v) = v := by
  cases i <;> rfl

theorem get_put_other {i j : Part} (h : i ≠ j) (a : Address) (v : j.Value) : i.get (j.put a v) = i.get a := by
  cases i <;> cases j <;> first | rfl | exact absurd rfl h

theorem ext {a b : Address} (h : ∀ i : Part, i.get a = i.get b) : a = b := by
  obtain ⟨⟨network, chainId, coin⟩, path, algorithm, format, addressPrefix, addressSuffix, walletType, walletId⟩ := a
  obtain rfl : network = b.chain.network := h .network
  obtain rfl : chainId = b.chain.chainId := h .chainId
  obtain rfl : coin = b.chain.coin := h .coin
  obtain rfl : path = b.path := h .path
  obtain rfl : algorithm = b.algorithm := h .algorithm
  obtain rfl : format = b.format := h .format
  obtain rfl : addressPrefix = b.addressPrefix := h .addressPrefix
  obtain rfl : addressSuffix = b.addressSuffix := h .addressSuffix
  obtain rfl : walletType = b.walletType := h .walletType
  obtain rfl : walletId = b.walletId := h .walletId
  rfl

end Part

/-- The calls on an address, and through the references `get_chain` and `path` hand out, that are
    not the assignment of a whole address or chain. -/
inductive Call where
  | chain (call : ChainCall)
  | setCoin (ct : UInt32)
  | clearCoin
  | onPath (call : PathCall)
  | assignPath (path : Option PathState)
  | setDerivationType (dt : Bytes)
  | setDerivationPath (dp : Bytes)
  | setDerivation (dt dp : Bytes)
  | set (x : Component) (v : Bytes)

namespace Call

def part : Call → Part
  | chain (.setNetwork _) => .network
  | chain (.setChainId _) => .chainId
  | setCoin _ | clearCoin | set .coinType _ => .coin
  | onPath _ | assignPath _ | setDerivationType _ | setDerivationPath _ | setDerivation _ _ => .path
  | set .addressAlgorithm _ => .algorithm
  | set .addressFormat _ => .format
  | set .addressPrefix _ => .addressPrefix
  | set .addressSuffix _ => .addressSuffix
  | set .walletType _ => .walletType
  | set .walletId _ => .walletId

/-- Without a path there is no object to call. -/
def run : Call → Address → After Address ParseError
  | chain call, a => (call.run a.chain).lift fun c => { a with chain := c }
  | setCoin ct, a => .done { a with chain := a.chain.setCoin ct }
  | clearCoin, a => .done { a with chain := a.chain.clearCoin }
  | onPath call, a =>
    match a.path with
    | none => .done a
    | some p => (call.run p).lift fun q => { a with path := some q }
  | assignPath path, a => .done { a with path := path.map PathState.object }
  | setDerivationType dt, a => a.setDerivationType dt
  | setDerivationPath dp, a => a.setDerivationPath dp
  | setDerivation dt dp, a => a.setDerivation dt dp
  | set x v, a => x.set a v

def effect (call : Call) (v : call.part.Value) : After call.part.Value ParseError :=
  (call.run (call.part.put .init v)).lift call.part.get

end Call

section Locality

theorem chain_local (call : ChainCall) (a : Address) :
    (Call.chain call).run a = ((Call.chain call).effect ((Call.chain call).part.get a)).lift
      ((Call.chain call).part.put a) := by
  cases call with
  | setNetwork nt =>
    simp only [Call.effect, Call.run, ChainCall.run, setNetwork_eq]
    split <;> rfl
  | setChainId ci =>
    simp only [Call.effect, Call.run, ChainCall.run, Chain.setChainId]
    split
    · rfl
    · split <;> rfl

theorem set_local (x : Component) (v : Bytes) (a : Address) :
    (Call.set x v).run a = ((Call.set x v).effect ((Call.set x v).part.get a)).lift ((Call.set x v).part.put a) := by
  cases x with
  | coinType =>
    simp only [Call.effect, Call.run, Component.set, Address.setCoinType]
    split
    · rfl
    · split <;> rfl
  | addressAlgorithm =>
    simp only [Call.effect, Call.run, Component.set, setAddressAlgorithm_eq]
    split <;> rfl
  | addressFormat =>
    simp only [Call.effect, Call.run, Component.set, setAddressFormat_eq]
    split <;> rfl
  | addressPrefix | addressSuffix | walletType | walletId =>
    simp only [Call.effect, Call.run, Component.set, Address.setAddressPrefix, Address.setAddressSuffix,
      Address.setWalletType, Address.setWalletId, setFreeForm_eq]
    split <;> rfl

theorem path_local (call : Call) (own : call.part = .path) (a : Address) :
    call.run a = (call.run { Address.init with path := a.path }).lift fun b => { a with path := b.path } := by
  obtain ⟨chain, path, algorithm, format, addressPrefix, addressSuffix, walletType, walletId⟩ := a
  cases call with
  | onPath call => cases path <;> rfl
  | assignPath path => rfl
  | setDerivationType dt =>
    simp only [Call.run, Address.setDerivationType]
    split
    · rfl
    · split <;> rfl
  | setDerivationPath dp =>
    simp only [Call.run, Address.setDerivationPath]
    split
    · split <;> rfl
    · rfl
  | setDerivation dt dp =>
    simp only [Call.run, Address.setDerivation]
    cases (Address.init.setDerivationType dt).result with
    | error e => rfl
    | ok scratch =>
      simp only [ok_bind]
      cases (scratch.setDerivationPath dp).result <;> rfl
  | chain call => cases call <;> cases own
  | setCoin _ | clearCoin => cases own
  | set x v => cases x <;> cases own

/-- Every call works on its part: it reads this part only and leaves the others. -/
theorem run_local (call : Call) (a : Address) :
    call.run a = (call.effect (call.part.get a)).lift (call.part.put a) := by
  cases call with
  | chain call => exact chain_local call a
  | set x v => exact set_local x v a
  | setCoin ct => rfl
  | clearCoin => rfl
  | onPath call => exact path_local _ rfl a
  | assignPath path => exact path_local _ rfl a
  | setDerivationType dt => exact path_local _ rfl a
  | setDerivationPath dp => exact path_local _ rfl a
  | setDerivation dt dp => exact path_local _ rfl a

theorem address_parts : Parts Call.run Call.part Part.get where
  ext _ _ := Part.ext
  frame call a i other := by
    rw [run_local, lift_state, Part.get_put_other other]
  state call a b alike := by
    rw [run_local, run_local call b, lift_state, lift_state, Part.get_put, Part.get_put, alike]
  thrown call a b alike := by
    rw [run_local, run_local call b, lift_thrown, lift_thrown, alike]

end Locality

section Orders

/-- Calls made from several places end in one address, in whatever order they arrive, as long as
    the calls to each part keep their order; and each part throws what it throws alone. -/
theorem orders_agree {calls calls' : List Call}
    (same : ∀ i, callsTo Call.part (· = i) calls = callsTo Call.part (· = i) calls') (a : Address) :
    replay Call.run calls a = replay Call.run calls' a ∧
    ∀ i, (outcomes Call.run calls a).filter (fun o => o.1.part = i) =
      outcomes Call.run (callsTo Call.part (· = i) calls') a := by
  obtain ⟨state, thrown⟩ := address_parts.interleave same a
  refine ⟨state, fun i => ?_⟩
  rw [thrown i]
  exact address_parts.outcomes_callsTo (P := (· = i)) calls' fun _ _ => rfl

theorem orders_agree_interleaved :
    let first := [Call.set .addressAlgorithm (lit "ed25519"), .set .addressAlgorithm (lit "rsa")]
    let second := [Call.setDerivationType (lit "slip10"), .setDerivationPath (lit "m/44'/501'")]
    replay Call.run (first ++ second) .init =
      replay Call.run [second[0], first[0], second[1], first[1]] .init ∧
    ∀ i, (outcomes Call.run (first ++ second) .init).filter (fun o => o.1.part = i) =
      outcomes Call.run (callsTo Call.part (· = i) [second[0], first[0], second[1], first[1]]) .init := by
  refine orders_agree ?_ .init
  intro i
  cases i <;> rfl

end Orders

section Observers

variable {a b : Address}

theorem getDerivationType_reads : ReadsOnly Part.get (· ∈ [Part.path]) Address.getDerivationType := by
  intro a b alike
  have path : a.path = b.path := alike .path (by decide)
  rw [Address.getDerivationType, Address.getDerivationType, path]

theorem resolvedAlgorithm_reads :
    ReadsOnly Part.get (· ∈ [Part.network, .algorithm]) Address.resolvedAlgorithm := by
  intro a b alike
  have network : a.chain.network = b.chain.network := alike .network (by decide)
  have algorithm : a.algorithm = b.algorithm := alike .algorithm (by decide)
  rw [Address.resolvedAlgorithm, Address.resolvedAlgorithm, network, algorithm]

theorem resolvedFormat_reads : ReadsOnly Part.get (· ∈ [Part.network, .format]) Address.resolvedFormat := by
  intro a b alike
  have network : a.chain.network = b.chain.network := alike .network (by decide)
  have format : a.format = b.format := alike .format (by decide)
  rw [Address.resolvedFormat, Address.resolvedFormat, network, format]

theorem validate_reads :
    ReadsOnly Part.get (· ∈ [Part.network, .path, .algorithm, .format]) Address.validate := by
  intro a b alike
  have network : a.chain.network = b.chain.network := alike .network (by decide)
  have path : a.path = b.path := alike .path (by decide)
  have set : a.checkPathSet = b.checkPathSet := by
    rw [Address.checkPathSet, Address.checkPathSet, path]
  have algorithm : a.resolvedAlgorithm = b.resolvedAlgorithm :=
    resolvedAlgorithm_reads a b fun i hi => alike i (by revert hi; cases i <;> decide)
  have format : a.resolvedFormat = b.resolvedFormat :=
    resolvedFormat_reads a b fun i hi => alike i (by revert hi; cases i <;> decide)
  rw [Address.validate, Address.validate, network, path, set, algorithm, format]

theorem chain_str_reads : ReadsOnly Part.get (· ∈ [Part.network, .chainId]) fun a => a.chain.str := by
  intro a b alike
  have network : a.chain.network = b.chain.network := alike .network (by decide)
  have chainId : a.chain.chainId = b.chain.chainId := alike .chainId (by decide)
  simp only [Chain.str, network, chainId]

def refusal (a : Address) : Option ParseError :=
  match a.marshalText with
  | .ok _ => none
  | .error e => some e

theorem refusal_reads : ReadsOnly Part.get (· ∈ [Part.network, .path]) refusal := by
  intro a b alike
  have network : a.chain.network = b.chain.network := alike .network (by decide)
  have path : a.path = b.path := alike .path (by decide)
  have set : a.checkPathSet = b.checkPathSet := by
    rw [Address.checkPathSet, Address.checkPathSet, path]
  unfold refusal Address.marshalText
  rw [network, set]
  split_ifs
  · rfl
  · cases b.checkPathSet <;> rfl

/-- After any run of calls, what an observer shows is what it shows when only the calls to the
    parts it reads are made: wallet, prefix, suffix, coin and chain id calls never change what
    `validate` answers, and nothing but the calls that name a chain changes a chain key. -/
theorem observed_parts (calls : List Call) (a : Address) :
    let only (parts : List Part) := replay Call.run (callsTo Call.part (· ∈ parts) calls) a
    (replay Call.run calls a).validate = (only [.network, .path, .algorithm, .format]).validate ∧
    (replay Call.run calls a).resolvedAlgorithm = (only [.network, .algorithm]).resolvedAlgorithm ∧
    (replay Call.run calls a).resolvedFormat = (only [.network, .format]).resolvedFormat ∧
    (replay Call.run calls a).getDerivationType = (only [.path]).getDerivationType ∧
    (replay Call.run calls a).chain.key = (only [.network, .chainId]).chain.key ∧
    refusal (replay Call.run calls a) = refusal (only [.network, .path]) :=
  ⟨address_parts.observe validate_reads calls a, address_parts.observe resolvedAlgorithm_reads calls a,
    address_parts.observe resolvedFormat_reads calls a, address_parts.observe getDerivationType_reads calls a,
    address_parts.observe chain_str_reads calls a, address_parts.observe refusal_reads calls a⟩

end Observers

end Mhda.Cells
