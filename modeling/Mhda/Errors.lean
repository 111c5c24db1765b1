import Mhda.ByteString

set_option autoImplicit false

namespace Mhda.Errors
open Mhda.ByteString

inductive ErrorCode where
  | invalidUrn
  | invalidNss
  | missingNetworkType
  | invalidNetworkType
  | invalidCoinType
  | missingChainId
  | invalidDerivationType
  | invalidDerivationPath
  | invalidAlgorithm
  | invalidFormat
  | incompatible
  | uninitializedAddress
  | invalidValue
  | coinTypeInChainKey
  | invalidChainKey
  deriving DecidableEq, Repr

def errorMessage : ErrorCode → Bytes
  | .invalidUrn => lit "mhda: not a valid mhda urn"
  | .invalidNss => lit "mhda: cannot parse nss"
  | .missingNetworkType => lit "mhda: \"nt\" is required"
  | .invalidNetworkType => lit "mhda: invalid \"nt\""
  | .invalidCoinType => lit "mhda: invalid \"ct\""
  | .missingChainId => lit "mhda: \"ci\" is required"
  | .invalidDerivationType => lit "mhda: invalid \"dt\""
  | .invalidDerivationPath => lit "mhda: invalid \"dp\""
  | .invalidAlgorithm => lit "mhda: invalid \"aa\""
  | .invalidFormat => lit "mhda: invalid \"af\""
  | .incompatible => lit "mhda: incompatible network/algorithm/format"
  | .uninitializedAddress => lit "mhda: address is not initialized"
  | .invalidValue => lit "mhda: invalid component value"
  | .coinTypeInChainKey => lit "mhda: \"ct\" is not allowed in a chain key"
  | .invalidChainKey => lit "mhda: not a valid chain key"

/-- The one exception type of the library; `detail` is empty for the bare code. -/
structure ParseError where
  code : ErrorCode
  detail : Bytes
  deriving DecidableEq

def ParseError.bare (code : ErrorCode) : ParseError := ⟨code, []⟩

def compose (c : ErrorCode) (detail : Bytes) : Bytes :=
  if detail.isEmpty then errorMessage c else errorMessage c ++ lit ": " ++ detail

def ParseError.what (e : ParseError) : Bytes := compose e.code e.detail

/-- What a caller can tell apart: the value, or the code of the exception. -/
def outcome {α : Type} : Except ParseError α → Except ErrorCode α
  | .ok a => .ok a
  | .error e => .error e.code

end Mhda.Errors
