import Mhda.Detail

set_option autoImplicit false

namespace Mhda.Nss
open Mhda.ByteString Mhda.Errors Mhda.Detail

/-- The map of the parser; insertion order stands for the unspecified order of the source's. -/
abbrev Components := List (Bytes × Bytes)

def prefixMhda : Bytes := lit "urn:mhda:"

def compNetworkType : Bytes := lit "nt"
def compChainId : Bytes := lit "ci"
def compCoinType : Bytes := lit "ct"
def compDerivationType : Bytes := lit "dt"
def compDerivationPath : Bytes := lit "dp"
def compAddressAlgorithm : Bytes := lit "aa"
def compAddressFormat : Bytes := lit "af"
def compAddressPrefix : Bytes := lit "ap"
def compAddressSuffix : Bytes := lit "as"
def compWalletType : Bytes := lit "wt"
def compWalletId : Bytes := lit "wi"

def knownComponents : List Bytes :=
  [compNetworkType, compChainId, compCoinType, compDerivationType, compDerivationPath,
    compAddressAlgorithm, compAddressFormat, compAddressPrefix, compAddressSuffix,
    compWalletType, compWalletId]

def isKnownComponent (key : Bytes) : Bool := knownComponents.contains key

def invalidNss (detail : Bytes) : ParseError := ⟨.invalidNss, detail⟩

/-- The loop over `parts`, two tokens at a time. -/
def parseNssLoop : List Bytes → Components → Except ParseError Components
  | key :: value :: parts, out =>
    if key.isEmpty then .error (invalidNss (lit "empty component key"))
    else if !key.all nssByte then
      .error (invalidNss (lit "byte not allowed in component key " ++ quote key))
    else if value.isEmpty then .error (invalidNss (lit "empty value for " ++ quote key))
    else if !value.all nssByte then
      .error (invalidNss (lit "byte not allowed in value for " ++ quote key))
    else if !isKnownComponent key then
      if isKnownComponent (toLower key) then
        .error (invalidNss (lit "component key " ++ quote key ++ lit " must be lowercase"))
      else parseNssLoop parts out
    else if (out.lookup key).isSome then
      .error (invalidNss (lit "duplicate component " ++ quote key))
    else parseNssLoop parts (out ++ [(key, value)])
  | _, out => .ok out

def parseNssMap (nss : Bytes) : Except ParseError Components :=
  if nss.isEmpty then .ok []
  else match nss.find? opensRqf with
    | some c => .error (invalidNss (lit "'" ++ [c] ++ lit "' inside the NSS"))
    | none =>
      let parts := split nss (ch ':')
      if parts.length % 2 ≠ 0 then
        .error (invalidNss (lit "missing value for " ++ quote (parts.getLastD [])))
      else parseNssLoop parts []

end Mhda.Nss
