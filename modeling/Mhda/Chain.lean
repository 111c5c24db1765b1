import Mhda.NssParser
import Mhda.Catalogue
import Mhda.Transition

set_option autoImplicit false

namespace Mhda.Chains
open Mhda.ByteString Mhda.Errors Mhda.Detail Mhda.Catalogue Mhda.Nss Mhda.Transition

structure Chain where
  network : NetworkType
  chainId : Bytes
  coin : Option UInt32
  deriving DecidableEq

namespace Chain

def init : Chain := ⟨⟨[]⟩, [], none⟩

def setNetwork (c : Chain) (nt : NetworkType) : After Chain ParseError :=
  if !nt.isValid then .throw c ⟨.invalidNetworkType, quote nt.value⟩
  else .done { c with network := nt }

def setChainId (c : Chain) (ci : Bytes) : After Chain ParseError :=
  let trimmed := trim ci
  if trimmed.isEmpty then .throw c (.bare .missingChainId)
  else match validateFreeFormValue compChainId trimmed with
    | .error e => .throw c e
    | .ok () => .done { c with chainId := trimmed }

def setCoin (c : Chain) (ct : UInt32) : Chain := { c with coin := some ct }

def clearCoin (c : Chain) : Chain := { c with coin := none }

def construct (nt : NetworkType) (ci : Bytes) : Except ParseError Chain := do
  let c ← (init.setNetwork nt).result
  (c.setChainId ci).result

def buildChain (m : Components) : Except ParseError Chain :=
  match m.lookup compNetworkType with
  | none => .error (.bare .missingNetworkType)
  | some nt =>
    let ntNorm := normalize nt
    if ntNorm.isEmpty then .error (.bare .missingNetworkType)
    else if !(NetworkType.mk ntNorm).isValid then .error ⟨.invalidNetworkType, quote ntNorm⟩
    else match m.lookup compChainId with
      | none => .error (.bare .missingChainId)
      | some ci =>
        let ciTrim := trim ci
        if ciTrim.isEmpty then .error (.bare .missingChainId)
        else do
          let out ← construct ⟨ntNorm⟩ ciTrim
          match m.lookup compCoinType with
          | none => .ok out
          | some ct =>
            match parseUint32 (trim ct) with
            | none => .error ⟨.invalidCoinType, quote (trim ct)⟩
            | some v => .ok (out.setCoin v)

def fromNss (nss : Bytes) : Except ParseError Chain := do
  let components ← parseNssMap (trim nss)
  if (components.lookup compNetworkType).isNone then .error (.bare .missingNetworkType)
  else buildChain components

def str (c : Chain) : Bytes := lit "nt:" ++ c.network.value ++ lit ":ci:" ++ c.chainId

def key (c : Chain) : Bytes := c.str

/-- `operator==`: the coin type is no part of the identity. -/
def equal (c other : Chain) : Bool := c.network == other.network && c.chainId == other.chainId

def fromKey (key : Bytes) : Except ParseError Chain :=
  let trimmed := trim key
  if !trimmed.isEmpty && trimmed.count (ch ':') % 2 == 0 then
    .error ⟨.invalidChainKey, lit "not a sequence of key:value pairs: " ++ quote trimmed⟩
  else do
    let components ← parseNssMap trimmed
    if (components.lookup compCoinType).isSome then .error (.bare .coinTypeInChainKey)
    else match components.find? fun kv => kv.1 != compNetworkType && kv.1 != compChainId with
      | some kv => .error ⟨.invalidChainKey, lit "unexpected component " ++ quote kv.1⟩
      | none =>
        if (components.lookup compNetworkType).isNone then .error (.bare .missingNetworkType)
        else do
          let out ← buildChain components
          if out.str ≠ trimmed then
            .error ⟨.invalidChainKey, lit "not in canonical form: " ++ quote trimmed⟩
          else .ok out

end Chain
end Mhda.Chains
