import Mhda.Detail

set_option autoImplicit false

namespace Mhda.Catalogue
open Mhda.ByteString Mhda.Errors Mhda.Detail

structure NetworkType where
  value : Bytes
  deriving DecidableEq

namespace NetworkType

def bitcoin : NetworkType := ⟨lit "bitcoin"⟩
def ethereumVm : NetworkType := ⟨lit "evm"⟩
def avalancheVm : NetworkType := ⟨lit "avalanche"⟩
def tronVm : NetworkType := ⟨lit "tron"⟩
def cosmos : NetworkType := ⟨lit "cosmos"⟩
def solana : NetworkType := ⟨lit "solana"⟩
def xrpLedger : NetworkType := ⟨lit "xrpl"⟩
def stellar : NetworkType := ⟨lit "stellar"⟩
def nearProtocol : NetworkType := ⟨lit "near"⟩
def aptos : NetworkType := ⟨lit "aptos"⟩
def sui : NetworkType := ⟨lit "sui"⟩
def cardano : NetworkType := ⟨lit "cardano"⟩
def algorand : NetworkType := ⟨lit "algorand"⟩
def toncoin : NetworkType := ⟨lit "ton"⟩

def ntIndex : List (Bytes × NetworkType) :=
  [(lit "bitcoin", bitcoin), (lit "evm", ethereumVm), (lit "avalanche", avalancheVm),
    (lit "tron", tronVm), (lit "cosmos", cosmos), (lit "solana", solana), (lit "xrpl", xrpLedger),
    (lit "stellar", stellar), (lit "near", nearProtocol), (lit "aptos", aptos), (lit "sui", sui),
    (lit "cardano", cardano), (lit "algorand", algorand), (lit "ton", toncoin)]

def isEmpty (nt : NetworkType) : Bool := nt.value.isEmpty
def isValid (nt : NetworkType) : Bool := (ntIndex.lookup nt.value).isSome

end NetworkType

def networkTypeFromString (s : Bytes) : Option NetworkType := NetworkType.ntIndex.lookup (normalize s)

structure DerivationType where
  value : Bytes
  deriving DecidableEq

namespace DerivationType

def root : DerivationType := ⟨lit "root"⟩
def bip32 : DerivationType := ⟨lit "bip32"⟩
def bip44 : DerivationType := ⟨lit "bip44"⟩
def bip49 : DerivationType := ⟨lit "bip49"⟩
def bip54 : DerivationType := ⟨lit "bip54"⟩
def bip74 : DerivationType := ⟨lit "bip74"⟩
def bip84 : DerivationType := ⟨lit "bip84"⟩
def bip86 : DerivationType := ⟨lit "bip86"⟩
def slip10 : DerivationType := ⟨lit "slip10"⟩
def cip1852 : DerivationType := ⟨lit "cip1852"⟩
def cip11 : DerivationType := ⟨lit "cip11"⟩
def zip32 : DerivationType := ⟨lit "zip32"⟩

def dtIndex : List Bytes :=
  [lit "root", lit "bip32", lit "bip44", lit "bip49", lit "bip54", lit "bip74", lit "bip84",
    lit "bip86", lit "slip10", lit "cip1852", lit "cip11", lit "zip32"]

def isEmpty (dt : DerivationType) : Bool := dt.value.isEmpty
def isValid (dt : DerivationType) : Bool := dtIndex.contains dt.value

end DerivationType

def derivationTypeFromString (s : Bytes) : Except ParseError DerivationType :=
  if DerivationType.dtIndex.contains (normalize s) then .ok ⟨normalize s⟩
  else .error ⟨.invalidDerivationType, quote s⟩

structure Algorithm where
  value : Bytes
  deriving DecidableEq

namespace Algorithm

def secp256k1 : Algorithm := ⟨lit "secp256k1"⟩
def ed25519 : Algorithm := ⟨lit "ed25519"⟩
def sr25519 : Algorithm := ⟨lit "sr25519"⟩
def secp256r1 : Algorithm := ⟨lit "secp256r1"⟩
def secp384r1 : Algorithm := ⟨lit "secp384r1"⟩
def secp521r1 : Algorithm := ⟨lit "secp521r1"⟩
def prime256v1 : Algorithm := ⟨lit "prime256v1"⟩

def algoIndex : List Bytes :=
  [lit "secp256k1", lit "ed25519", lit "sr25519", lit "secp256r1", lit "secp384r1",
    lit "secp521r1", lit "prime256v1"]

/-- The default-constructed, unset algorithm. -/
def unset : Algorithm := ⟨[]⟩
def isEmpty (a : Algorithm) : Bool := a.value.isEmpty
def isValid (a : Algorithm) : Bool := algoIndex.contains a.value

end Algorithm

def algorithmFromString (s : Bytes) : Option Algorithm :=
  if Algorithm.algoIndex.contains (normalize s) then some ⟨normalize s⟩ else none

structure Format where
  value : Bytes
  deriving DecidableEq

namespace Format

def hex : Format := ⟨lit "hex"⟩
def p2pkh : Format := ⟨lit "p2pkh"⟩
def p2sh : Format := ⟨lit "p2sh"⟩
def p2wpkh : Format := ⟨lit "p2wpkh"⟩
def p2wsh : Format := ⟨lit "p2wsh"⟩
def p2tr : Format := ⟨lit "p2tr"⟩
def bech32 : Format := ⟨lit "bech32"⟩
def bech32m : Format := ⟨lit "bech32m"⟩
def base58 : Format := ⟨lit "base58"⟩
def base32 : Format := ⟨lit "base32"⟩
def strkey : Format := ⟨lit "strkey"⟩
def base64url : Format := ⟨lit "base64url"⟩
def ss58 : Format := ⟨lit "ss58"⟩

def formatIndex : List Bytes :=
  [lit "hex", lit "p2pkh", lit "p2sh", lit "p2wpkh", lit "p2wsh", lit "p2tr", lit "bech32",
    lit "bech32m", lit "base58", lit "base32", lit "strkey", lit "base64url", lit "ss58"]

def unset : Format := ⟨[]⟩
def isEmpty (f : Format) : Bool := f.value.isEmpty
def isValid (f : Format) : Bool := formatIndex.contains f.value

end Format

def formatFromString (s : Bytes) : Option Format :=
  if Format.formatIndex.contains (normalize s) then some ⟨normalize s⟩ else none

/-- The SLIP-44 coin type of the Cosmos Hub. -/
def coinsAtom : UInt32 := 118

end Mhda.Catalogue
