import Mhda.Catalogue

set_option autoImplicit false

namespace Mhda.Compatibility
open Mhda.Catalogue

/-- The last two fields bind a derivation type to its algorithm and to its formats. -/
structure NetworkCompat where
  algorithms : List Algorithm
  formats : List Format
  derivations : List DerivationType
  defaultAlgorithm : Algorithm
  defaultFormat : Format
  derivationAlgorithm : List (DerivationType × Algorithm) := []
  derivationFormats : List (DerivationType × List Format) := []

def matrix : List (NetworkType × NetworkCompat) :=
  [(.bitcoin,
    { algorithms := [.secp256k1]
      formats := [.p2pkh, .p2sh, .p2wpkh, .p2wsh, .p2tr, .bech32, .bech32m]
      derivations := [.bip32, .bip44, .bip49, .bip84, .bip86]
      defaultAlgorithm := .secp256k1
      defaultFormat := .unset
      derivationFormats :=
        [(.bip44, [.p2pkh]), (.bip49, [.p2sh]), (.bip84, [.p2wpkh, .bech32]),
          (.bip86, [.p2tr, .bech32m])] }),
   (.ethereumVm,
    { algorithms := [.secp256k1]
      formats := [.hex]
      derivations := [.bip32, .bip44]
      defaultAlgorithm := .secp256k1
      defaultFormat := .hex }),
   (.avalancheVm,
    { algorithms := [.secp256k1]
      formats := [.hex, .bech32]
      derivations := [.bip44]
      defaultAlgorithm := .secp256k1
      defaultFormat := .unset }),
   (.tronVm,
    { algorithms := [.secp256k1]
      formats := [.base58]
      derivations := [.bip44]
      defaultAlgorithm := .secp256k1
      defaultFormat := .base58 }),
   (.cosmos,
    { algorithms := [.secp256k1, .ed25519]
      formats := [.bech32]
      derivations := [.bip44, .cip11]
      defaultAlgorithm := .secp256k1
      defaultFormat := .bech32 }),
   (.solana,
    { algorithms := [.ed25519]
      formats := [.base58]
      derivations := [.slip10]
      defaultAlgorithm := .ed25519
      defaultFormat := .base58 }),
   (.xrpLedger,
    { algorithms := [.secp256k1, .ed25519]
      formats := [.base58]
      derivations := [.bip44]
      defaultAlgorithm := .secp256k1
      defaultFormat := .base58 }),
   (.stellar,
    { algorithms := [.ed25519]
      formats := [.strkey]
      derivations := [.slip10]
      defaultAlgorithm := .ed25519
      defaultFormat := .strkey }),
   (.nearProtocol,
    { algorithms := [.ed25519, .secp256k1]
      formats := [.hex]
      derivations := [.slip10, .bip44]
      defaultAlgorithm := .ed25519
      defaultFormat := .hex
      derivationAlgorithm := [(.slip10, .ed25519), (.bip44, .secp256k1)] }),
   (.aptos,
    { algorithms := [.ed25519, .secp256k1]
      formats := [.hex]
      derivations := [.slip10, .bip44]
      defaultAlgorithm := .ed25519
      defaultFormat := .hex
      derivationAlgorithm := [(.slip10, .ed25519), (.bip44, .secp256k1)] }),
   (.sui,
    { algorithms := [.ed25519, .secp256k1, .secp256r1]
      formats := [.hex]
      derivations := [.slip10, .bip54, .bip74]
      defaultAlgorithm := .ed25519
      defaultFormat := .hex
      derivationAlgorithm := [(.slip10, .ed25519), (.bip54, .secp256k1), (.bip74, .secp256r1)] }),
   (.cardano,
    { algorithms := [.ed25519]
      formats := [.bech32, .base58]
      derivations := [.cip1852]
      defaultAlgorithm := .ed25519
      defaultFormat := .bech32 }),
   (.algorand,
    { algorithms := [.ed25519]
      formats := [.base32]
      derivations := [.slip10]
      defaultAlgorithm := .ed25519
      defaultFormat := .base32 }),
   (.toncoin,
    { algorithms := [.ed25519]
      formats := [.base64url, .hex]
      derivations := [.slip10]
      defaultAlgorithm := .ed25519
      defaultFormat := .base64url })]

def defaultAlgorithm (nt : NetworkType) : Algorithm :=
  match matrix.lookup nt with
  | none => .unset
  | some c => c.defaultAlgorithm

def defaultFormat (nt : NetworkType) : Format :=
  match matrix.lookup nt with
  | none => .unset
  | some c => c.defaultFormat

def networkIsRegistered (nt : NetworkType) : Bool := (matrix.lookup nt).isSome

def networkAllowsAlgorithm (nt : NetworkType) (algo : Algorithm) : Bool :=
  match matrix.lookup nt with
  | none => false
  | some c => c.algorithms.contains algo

def networkAllowsFormat (nt : NetworkType) (fmt : Format) : Bool :=
  match matrix.lookup nt with
  | none => false
  | some c => c.formats.contains fmt

def derivationAlgorithm (nt : NetworkType) (dt : DerivationType) : Algorithm :=
  match matrix.lookup nt with
  | none => .unset
  | some c => (c.derivationAlgorithm.lookup dt).getD .unset

def derivationAllowsFormat (nt : NetworkType) (dt : DerivationType) (fmt : Format) : Bool :=
  match matrix.lookup nt with
  | none => true
  | some c =>
    match c.derivationFormats.lookup dt with
    | none => true
    | some formats => formats.contains fmt

def networkAllowsDerivation (nt : NetworkType) (dt : DerivationType) : Bool :=
  match matrix.lookup nt with
  | none => false
  | some c => dt == .root || c.derivations.contains dt

end Mhda.Compatibility
