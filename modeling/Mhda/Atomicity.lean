import Mhda.AddressHistory

set_option autoImplicit false

namespace Mhda.Atomicity
open Mhda.ByteString Mhda.Errors Mhda.Detail Mhda.DetailFacts Mhda.Catalogue Mhda.Transition Mhda.Transition.After
open Mhda.Chains Mhda.Path Mhda.Addresses Mhda.Template Mhda.Setters Mhda.PathHistory Mhda.AddressHistory

inductive AddressCall where
  | setDerivationType (dt : Bytes)
  | setDerivationPath (dp : Bytes)
  | setDerivation (dt dp : Bytes)
  | setCoinType (ct : Bytes)
  | setAddressAlgorithm (aa : Bytes)
  | setAddressFormat (af : Bytes)
  | setAddressPrefix (ap : Bytes)
  | setAddressSuffix (as_ : Bytes)
  | setWalletType (wt : Bytes)
  | setWalletId (wi : Bytes)
  | unmarshalText (data : Bytes)

def AddressCall.run : AddressCall → Address → After Address ParseError
  | .setDerivationType dt, a => a.setDerivationType dt
  | .setDerivationPath dp, a => a.setDerivationPath dp
  | .setDerivation dt dp, a => a.setDerivation dt dp
  | .setCoinType ct, a => a.setCoinType ct
  | .setAddressAlgorithm aa, a => a.setAddressAlgorithm aa
  | .setAddressFormat af, a => a.setAddressFormat af
  | .setAddressPrefix ap, a => a.setAddressPrefix ap
  | .setAddressSuffix as_, a => a.setAddressSuffix as_
  | .setWalletType wt, a => a.setWalletType wt
  | .setWalletId wi, a => a.setWalletId wi
  | .unmarshalText data, a => Parser.unmarshalText a data

inductive ChainCall where
  | setNetwork (nt : NetworkType)
  | setChainId (ci : Bytes)

def ChainCall.run : ChainCall → Chain → After Chain ParseError
  | .setNetwork nt, c => c.setNetwork nt
  | .setChainId ci, c => c.setChainId ci

inductive PathCall where
  | setType (dt : DerivationType)
  | parsePath (path : Bytes)

def PathCall.run : PathCall → DerivationPath → After DerivationPath ParseError
  | .setType dt, d => d.setType dt
  | .parsePath path, d => d.parsePath path

section Parts

theorem setType_keeps (d : DerivationPath) (dt : DerivationType) : Keeps d (d.setType dt) := by
  unfold DerivationPath.setType
  split_ifs
  · exact keeps_throw d _
  · exact keeps_done d d
  · exact keeps_done d _

theorem setType_finishes (d : DerivationPath) {dt : DerivationType} (hv : dt.isValid = true) :
    (d.setType dt).thrown = none := by
  unfold DerivationPath.setType
  rw [if_neg (by simp [hv])]
  split <;> rfl

theorem pathCall_keeps (call : PathCall) (d : DerivationPath) : Keeps d (call.run d) := by
  cases call with
  | setType dt => exact setType_keeps d dt
  | parsePath path => exact keeps_commit d _

theorem chainCall_keeps (call : ChainCall) (c : Chain) : Keeps c (call.run c) := by
  cases call with
  | setNetwork nt =>
    change Keeps c (c.setNetwork nt)
    unfold Chain.setNetwork
    split
    · exact keeps_throw c _
    · exact keeps_done c _
  | setChainId ci =>
    change Keeps c (c.setChainId ci)
    by_cases ht : Token (trim ci)
    · rw [setChainId_eq_done c ht]
      exact keeps_done c _
    · obtain ⟨e, he⟩ := setChainId_refuses c ht
      rw [he]
      exact keeps_throw c e

end Parts

section Setters
variable (a : Address)

/-- The type is checked before a path is attached. -/
theorem setDerivationType_keeps (dt : Bytes) : Keeps a (a.setDerivationType dt) := by
  unfold Address.setDerivationType
  simp only
  split
  · exact keeps_throw a _
  · rename_i registered
    have valid : (if (toLower (trim dt)).isEmpty = true then DerivationType.root
        else ⟨toLower (trim dt)⟩).isValid = true := by
      split
      · decide
      · simp_all
    intro thrown
    exact absurd (setType_finishes _ valid) thrown

theorem setCoinType_keeps (ct : Bytes) : Keeps a (a.setCoinType ct) := by
  unfold Address.setCoinType
  simp only
  split
  · exact keeps_done a _
  · split
    · exact keeps_throw a _
    · exact keeps_done a _

theorem guarded_keeps (P : Prop) [Decidable P] (b : Address) (e : ParseError) :
    Keeps a (if P then done b else throw a e) := by
  split
  · exact keeps_done a b
  · exact keeps_throw a e

theorem setFreeForm_keeps (component : Bytes) (put : Bytes → Address) (v : Bytes) :
    Keeps a (Address.setFreeForm component put a v) := by
  rw [setFreeForm_eq]
  exact guarded_keeps a _ _ _

/-- A missing path that the call attached before it threw. -/
def Attaches (a : Address) : AddressCall → Prop
  | .setDerivationPath dp => a.path = none ∧ trim dp ≠ []
  | _ => False

instance (call : AddressCall) : Decidable (Attaches a call) := by
  cases call <;> unfold Attaches <;> infer_instance

theorem setDerivationPath_held {p : DerivationPath} (hp : a.path = some p) (dp : Bytes) :
    Keeps a (a.setDerivationPath dp) := by
  obtain ⟨chain, path, algorithm, format, addressPrefix, addressSuffix, walletType, walletId⟩ := a
  obtain rfl : path = some p := hp
  unfold Address.setDerivationPath
  simp only [Option.getD_some]
  split
  · split
    · exact keeps_throw _ _
    · exact keeps_done _ _
  · exact (pathCall_keeps (.parsePath _) p).lift rfl

theorem setDerivationPath_missing (hp : a.path = none) (dp : Bytes) :
    Keeps a (a.setDerivationPath dp) ↔ trim dp = [] := by
  have typeless : DerivationPath.init.type = .root ∨ DerivationPath.init.type.isEmpty = true := .inr rfl
  unfold Address.setDerivationPath
  simp only [hp, Option.getD_none, if_pos typeless]
  by_cases blank : trim dp = []
  · rw [blank]
    exact iff_of_true (keeps_done a _) rfl
  · have full : (!(trim dp).isEmpty) = true := by simpa using blank
    rw [if_pos full]
    refine iff_of_false ?_ blank
    intro keeps
    have path := congrArg Address.path (keeps (by simp))
    rw [throw_state, hp] at path
    cases path

end Setters

theorem addressCall_keeps_iff (a : Address) (call : AddressCall) :
    Keeps a (call.run a) ↔ ¬ Attaches a call := by
  have kept : ∀ {call : AddressCall}, ¬ Attaches a call → Keeps a (call.run a) →
      (Keeps a (call.run a) ↔ ¬ Attaches a call) := fun h k => iff_of_true k h
  cases call with
  | setDerivationPath dp =>
    change Keeps a (a.setDerivationPath dp) ↔ ¬ (a.path = none ∧ trim dp ≠ [])
    cases hp : a.path with
    | none => simp [setDerivationPath_missing a hp]
    | some p => exact iff_of_true (setDerivationPath_held a hp dp) (by simp)
  | setDerivationType dt => exact kept id (setDerivationType_keeps a dt)
  | setDerivation dt dp => exact kept id (keeps_commit a _)
  | setCoinType ct => exact kept id (setCoinType_keeps a ct)
  | setAddressAlgorithm aa =>
    refine kept id ?_
    change Keeps a (a.setAddressAlgorithm aa)
    rw [setAddressAlgorithm_eq]
    exact guarded_keeps a _ _ _
  | setAddressFormat af =>
    refine kept id ?_
    change Keeps a (a.setAddressFormat af)
    rw [setAddressFormat_eq]
    exact guarded_keeps a _ _ _
  | setAddressPrefix ap => exact kept id (setFreeForm_keeps a _ _ ap)
  | setAddressSuffix as_ => exact kept id (setFreeForm_keeps a _ _ as_)
  | setWalletType wt => exact kept id (setFreeForm_keeps a _ _ wt)
  | setWalletId wi => exact kept id (setFreeForm_keeps a _ _ wi)
  | unmarshalText data => exact kept id (keeps_commit a _)

section Runs

def NeverAttaches : List AddressCall → Address → Prop
  | [], _ => True
  | call :: calls, a => ¬ Attaches a call ∧ NeverAttaches calls (call.run a).state

theorem keepsAll_iff (calls : List AddressCall) (a : Address) :
    KeepsAll AddressCall.run calls a ↔ NeverAttaches calls a := by
  induction calls generalizing a with
  | nil => rfl
  | cons call calls ih => exact and_congr (addressCall_keeps_iff a call) (ih _)

theorem keepsAll_of_keeps {σ ε κ : Type} {run : κ → σ → After σ ε} (h : ∀ call s, Keeps s (run call s))
    (calls : List κ) (s : σ) : KeepsAll run calls s := by
  induction calls generalizing s with
  | nil => trivial
  | cons call calls ih => exact ⟨h call s, ih _⟩

/-- Without a call that attaches a path and throws, the calls that throw can be left out. -/
theorem replay_neverAttaches {calls : List AddressCall} {a : Address} (h : NeverAttaches calls a) :
    replay AddressCall.run (finished AddressCall.run calls a) a = replay AddressCall.run calls a :=
  replay_finished AddressCall.run ((keepsAll_iff calls a).mpr h)

/-- A failed call changes an address exactly when it attached a path first; chains and paths
    are never changed. -/
theorem failed_calls_keep_iff (a : Address) (c : Chain) (d : DerivationPath) :
    (∀ call : AddressCall, Keeps a (call.run a) ↔ ¬ Attaches a call) ∧
    (∀ calls, KeepsAll AddressCall.run calls a ↔ NeverAttaches calls a) ∧
    (∀ calls, KeepsAll ChainCall.run calls c) ∧ (∀ calls, KeepsAll PathCall.run calls d) :=
  ⟨addressCall_keeps_iff a, fun calls => keepsAll_iff calls a,
    fun calls => keepsAll_of_keeps chainCall_keeps calls c,
    fun calls => keepsAll_of_keeps pathCall_keeps calls d⟩

def pathless : Address := .ofChain ⟨⟨lit "evm"⟩, lit "1", none⟩ none

theorem pathless_reachable : addresses.Reachable pathless := by
  have made : Chain.construct ⟨lit "evm"⟩ (lit "1") = .ok ⟨⟨lit "evm"⟩, lit "1", none⟩ := by decide +kernel
  exact .created (.ofChain (.created (.construct made)) (by simp))

theorem failed_call_attaches : ¬ ∀ (a : Address) (call : AddressCall), addresses.Reachable a →
    Keeps a (call.run a) := by
  intro h
  have attaches : Attaches pathless (.setDerivationPath (lit "m/44'/60'/0'/0/0")) := ⟨rfl, by decide +kernel⟩
  exact (addressCall_keeps_iff _ _).mp (h _ _ pathless_reachable) attaches

end Runs

end Mhda.Atomicity
