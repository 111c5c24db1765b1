import Mhda.Address

set_option autoImplicit false

namespace Mhda.Parser
open Mhda.ByteString Mhda.Errors Mhda.Detail Mhda.Nss Mhda.Transition
open Mhda.Chains Mhda.Addresses

def get (m : Components) (key : Bytes) : Bytes := (m.lookup key).getD []

def parseAddressFromComponents (m : Components) : Except ParseError Address := do
  let chain ← Chain.buildChain m
  let addr := Address.ofChain chain none
  let addr ← (addr.setDerivation (get m compDerivationType) (get m compDerivationPath)).result
  let addr ← (addr.setAddressAlgorithm (get m compAddressAlgorithm)).result
  let addr ← (addr.setAddressFormat (get m compAddressFormat)).result
  let addr ← (addr.setAddressPrefix (get m compAddressPrefix)).result
  let addr ← (addr.setAddressSuffix (get m compAddressSuffix)).result
  let addr ← (addr.setWalletType (get m compWalletType)).result
  (addr.setWalletId (get m compWalletId)).result

def parseAddressNss (nss : Bytes) : Except ParseError Address := do
  let components ← parseNssMap nss
  if (components.lookup compNetworkType).isNone then .error (.bare .missingNetworkType)
  else parseAddressFromComponents components

def parseUrn (src : Bytes) : Except ParseError Address :=
  let trimmed := trim src
  if !hasPrefixFold trimmed prefixMhda then .error (.bare .invalidUrn)
  else parseAddressNss (trimRight (stripRqf (trimmed.drop prefixMhda.length)))

def parseUrnStrict (src : Bytes) : Except ParseError Address := do
  let addr ← parseUrn src
  addr.validate
  .ok addr

def parseNss (nss : Bytes) : Except ParseError Address := parseAddressNss (trim nss)

/-- The address is replaced only when the URN parses. -/
def unmarshalText (a : Address) (data : Bytes) : After Address ParseError := .commit a (parseUrn data)

end Mhda.Parser
