import Mhda.Chain
import Mhda.Compatibility
import Mhda.DerivationPath

set_option autoImplicit false

namespace Mhda.Addresses
open Mhda.ByteString Mhda.Errors Mhda.Detail Mhda.Catalogue Mhda.Nss Mhda.Transition
open Mhda.Numeral Mhda.Chains Mhda.Path Mhda.Compatibility

structure Address where
  chain : Chain
  path : Option DerivationPath
  algorithm : Algorithm
  format : Format
  addressPrefix : Bytes
  addressSuffix : Bytes
  walletType : Bytes
  walletId : Bytes
  deriving DecidableEq

namespace Address

def init : Address := ⟨.init, none, .unset, .unset, [], [], [], []⟩

/-- The two-argument constructor. -/
def ofChain (c : Chain) (path : Option DerivationPath) : Address :=
  ⟨c, path, .unset, .unset, [], [], [], []⟩

def getDerivationType (a : Address) : DerivationType :=
  match a.path with
  | none => .root
  | some p => if p.type.isEmpty then .root else p.type

def resolvedAlgorithm (a : Address) : Algorithm :=
  if !a.algorithm.isEmpty then a.algorithm else defaultAlgorithm a.chain.network

def resolvedFormat (a : Address) : Format :=
  if !a.format.isEmpty then a.format else defaultFormat a.chain.network

def setDerivationType (a : Address) (dt : Bytes) : After Address ParseError :=
  let lowered := toLower (trim dt)
  if !lowered.isEmpty && !(DerivationType.mk lowered).isValid then
    .throw a ⟨.invalidDerivationType, quote lowered⟩
  else
    let next := if lowered.isEmpty then .root else ⟨lowered⟩
    ((a.path.getD .init).setType next).lift fun p => { a with path := some p }

/-- A missing path is attached before the argument is looked at. -/
def setDerivationPath (a : Address) (dp : Bytes) : After Address ParseError :=
  let path := a.path.getD .init
  let a := { a with path := some path }
  let trimmed := trim dp
  if path.type = .root ∨ path.type.isEmpty then
    if !trimmed.isEmpty then
      .throw a ⟨.invalidDerivationPath,
        lit "root derivation must have empty path, got " ++ quote trimmed⟩
    else .done a
  else (path.parsePath (toLower trimmed)).lift fun p => { a with path := some p }

/-- Both texts are applied to a scratch address, whose path is then taken over. -/
def setDerivation (a : Address) (dt dp : Bytes) : After Address ParseError :=
  .commit a do
    let scratch ← (init.setDerivationType dt).result
    let scratch ← (scratch.setDerivationPath dp).result
    .ok { a with path := scratch.path }

def checkPathSet (a : Address) : Except ParseError Unit :=
  match a.path with
  | none => .ok ()
  | some p =>
    if !p.type.isEmpty && p.type != .root && p.levels.isEmpty then
      .error ⟨.invalidDerivationPath,
        lit "derivation type \"" ++ p.type.value ++ lit "\" is set without a path"⟩
    else .ok ()

def setCoinType (a : Address) (ct : Bytes) : After Address ParseError :=
  let trimmed := trim ct
  if trimmed.isEmpty then .done { a with chain := a.chain.clearCoin }
  else match parseUint32 trimmed with
    | none => .throw a ⟨.invalidCoinType, quote trimmed⟩
    | some v => .done { a with chain := a.chain.setCoin v }

def setAddressAlgorithm (a : Address) (aa : Bytes) : After Address ParseError :=
  let lowered := toLower (trim aa)
  if lowered.isEmpty then .done { a with algorithm := .unset }
  else if !(Algorithm.mk lowered).isValid then .throw a ⟨.invalidAlgorithm, quote lowered⟩
  else .done { a with algorithm := ⟨lowered⟩ }

def setAddressFormat (a : Address) (af : Bytes) : After Address ParseError :=
  let lowered := toLower (trim af)
  if lowered.isEmpty then .done { a with format := .unset }
  else if !(Format.mk lowered).isValid then .throw a ⟨.invalidFormat, quote lowered⟩
  else .done { a with format := ⟨lowered⟩ }

/-- The four free-form setters: check the trimmed value, then store it. -/
def setFreeForm (component : Bytes) (put : Bytes → Address) (a : Address) (v : Bytes) :
    After Address ParseError :=
  match validateFreeFormValue component (trim v) with
  | .error e => .throw a e
  | .ok () => .done (put (trim v))

def setAddressPrefix (a : Address) (ap : Bytes) : After Address ParseError :=
  setFreeForm compAddressPrefix (fun v => { a with addressPrefix := v }) a ap

def setAddressSuffix (a : Address) (as : Bytes) : After Address ParseError :=
  setFreeForm compAddressSuffix (fun v => { a with addressSuffix := v }) a as

def setWalletType (a : Address) (wt : Bytes) : After Address ParseError :=
  setFreeForm compWalletType (fun v => { a with walletType := v }) a wt

def setWalletId (a : Address) (wi : Bytes) : After Address ParseError :=
  setFreeForm compWalletId (fun v => { a with walletId := v }) a wi

/-- A constructor argument; an empty one leaves its field unset. -/
def ifGiven (a : Address) (v : Bytes) (call : After Address ParseError) : Except ParseError Address :=
  if !v.isEmpty then call.result else .ok a

def construct (c : Chain) (path : Option DerivationPath) (algorithm format addressPrefix addressSuffix : Bytes) :
    Except ParseError Address := do
  let a := ofChain c path
  let a ← a.ifGiven algorithm (a.setAddressAlgorithm algorithm)
  let a ← a.ifGiven format (a.setAddressFormat format)
  let a ← a.ifGiven addressPrefix (a.setAddressPrefix addressPrefix)
  a.ifGiven addressSuffix (a.setAddressSuffix addressSuffix)

def digitLoop : ℕ → UInt32 → Bytes
  | 0, _ => []
  | fuel + 1, v => if v = 0 then [] else (ch '0' + (v % 10).toUInt8) :: digitLoop fuel (v / 10)

def appendUint32 (out : Bytes) (v : UInt32) : Bytes :=
  if v = 0 then out ++ [ch '0'] else out ++ (digitLoop 16 v).reverse

def appendSet (out key v : Bytes) : Bytes := if v.isEmpty then out else out ++ key ++ v

def nss (a : Address) : Bytes :=
  let out := lit "nt:" ++ a.chain.network.value ++ lit ":ci:" ++ a.chain.chainId
  let out := match a.chain.coin with
    | none => out
    | some v => appendUint32 (out ++ lit ":ct:") v
  let out := match a.path with
    | none => out
    | some path =>
      if !path.type.isEmpty && path.type != .root then
        let out := out ++ lit ":dt:" ++ path.type.value
        appendSet out (lit ":dp:") path.str
      else out
  let out := appendSet out (lit ":aa:") a.algorithm.value
  let out := appendSet out (lit ":af:") a.format.value
  let out := appendSet out (lit ":ap:") a.addressPrefix
  let out := appendSet out (lit ":as:") a.addressSuffix
  let out := appendSet out (lit ":wt:") a.walletType
  appendSet out (lit ":wi:") a.walletId

def str (a : Address) : Bytes := lit "urn:mhda:" ++ a.nss

def marshalText (a : Address) : Except ParseError Bytes :=
  if a.chain.network.isEmpty then .error (.bare .uninitializedAddress)
  else do
    a.checkPathSet
    .ok a.str

/-- The checks of `validate` on an address whose type is set and is not root. -/
def validatePath (nt : NetworkType) (algo : Algorithm) (fmt : Format) (path : DerivationPath) :
    Except ParseError Unit :=
  let dt := path.type
  let onNetwork := lit "\" on network \"" ++ nt.value
  let want := derivationAlgorithm nt dt
  if !networkAllowsDerivation nt dt then
    .error ⟨.incompatible, lit "derivation \"" ++ dt.value ++ lit "\" not allowed for network \"" ++
      nt.value ++ lit "\""⟩
  else if !want.isEmpty && want != algo then
    .error ⟨.incompatible, lit "derivation \"" ++ dt.value ++ lit "\" derives \"" ++ want.value ++
      lit "\" keys on network \"" ++ nt.value ++ lit "\", not \"" ++ algo.value ++ lit "\""⟩
  else if !fmt.isEmpty && !derivationAllowsFormat nt dt fmt then
    .error ⟨.incompatible, lit "format \"" ++ fmt.value ++
      lit "\" does not match the purpose of derivation \"" ++ dt.value ++ onNetwork ++ lit "\""⟩
  else match (if algo = .ed25519 ∧ dt ≠ .cip1852 then path.levels.findIdx? (!·.isHardened) else none) with
    | some i =>
      .error ⟨.incompatible, lit "ed25519 derives hardened levels only, level " ++ decimal i ++
        lit " of \"" ++ path.str ++ lit "\" is not hardened"⟩
    | none =>
      if nt = .cosmos ∧ dt = .bip44 ∧ path.coin = coinsAtom then
        .error ⟨.incompatible, lit "\"bip44\" with coin 118' is the cip11 path, use dt:cip11"⟩
      else .ok ()

def validate (a : Address) : Except ParseError Unit :=
  let nt := a.chain.network
  if nt.isEmpty then .error (.bare .uninitializedAddress)
  else do
    a.checkPathSet
    let algo := a.resolvedAlgorithm
    let fmt := a.resolvedFormat
    if !networkIsRegistered nt then
      .error ⟨.incompatible, lit "unknown network type " ++ quote nt.value⟩
    else if algo.isEmpty then
      .error ⟨.incompatible, lit "no algorithm resolved for network " ++ quote nt.value⟩
    else if !networkAllowsAlgorithm nt algo then
      .error ⟨.incompatible, lit "algorithm \"" ++ algo.value ++ lit "\" not allowed for network \"" ++
        nt.value ++ lit "\""⟩
    else if !fmt.isEmpty && !networkAllowsFormat nt fmt then
      .error ⟨.incompatible, lit "format \"" ++ fmt.value ++ lit "\" not allowed for network \"" ++
        nt.value ++ lit "\""⟩
    else match a.path with
      | none => .ok ()
      | some path =>
        if path.type.isEmpty ∨ path.type = .root then .ok ()
        else validatePath nt algo fmt path

end Address
end Mhda.Addresses
