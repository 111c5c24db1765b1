import Mhda.Catalogue
import Mhda.Transition

set_option autoImplicit false

namespace Mhda.Path
open Mhda.ByteString Mhda.Errors Mhda.Detail Mhda.Catalogue Mhda.Transition

structure AddressIndex where
  index : UInt32
  isHardened : Bool
  deriving DecidableEq

/-- A parsed segment; `exact` is false when the digits carry a leading zero. -/
structure RawLevel where
  index : UInt32
  isHardened : Bool
  exact : Bool
  deriving DecidableEq

def RawLevel.level (l : RawLevel) : AddressIndex := ⟨l.index, l.isHardened⟩

def apostrophe : Byte := 0x27

def isHardeningMarker (c : Byte) : Bool := c == apostrophe || c == ch 'h' || c == ch 'H'

def parseSegment (seg : Bytes) : Option RawLevel :=
  let hardened := seg.getLast?.any isHardeningMarker
  let digits := if hardened then seg.dropLast else seg
  match parseUint31Dec digits with
  | none => none
  | some value => some ⟨value, hardened, digits.length == 1 || digits.head? != some (ch '0')⟩

def splitPath (path : Bytes) : Option (List Bytes) :=
  match path with
  | [] => none
  | c :: rest =>
    if c ≠ ch 'm' then none
    else match rest with
      | [] => some []
      | d :: rest =>
        if d ≠ ch '/' then none
        else if rest.isEmpty then none
        else
          let out := split rest (ch '/')
          if out.any List.isEmpty then none else some out

def parseLevels (path : Bytes) : Option (List RawLevel) :=
  (splitPath path).bind fun segments => segments.mapM parseSegment

/-- `lvls[i]`; every use is behind a check of the length. -/
def lvl (lvls : List RawLevel) (i : ℕ) : RawLevel := lvls.getD i ⟨0, false, false⟩

def expectPurpose (lvls : List RawLevel) (purpose : UInt32) : Bool :=
  !lvls.isEmpty && (lvl lvls 0).index == purpose && (lvl lvls 0).isHardened && (lvl lvls 0).exact

def expectCoin (lvls : List RawLevel) (coin : UInt32) : Bool :=
  decide (lvls.length ≥ 2) && (lvl lvls 1).index == coin && (lvl lvls 1).isHardened && (lvl lvls 1).exact

def validateBip44Family (lvls : List RawLevel) (purpose requiredCoin : UInt32)
    (requireCoinMatch : Bool) : Bool :=
  if lvls.length ≠ 5 then false
  else if !expectPurpose lvls purpose then false
  else if !(lvl lvls 1).isHardened then false
  else if requireCoinMatch && (lvl lvls 1).index != requiredCoin then false
  else if !(lvl lvls 2).isHardened then false
  else if (lvl lvls 3).isHardened then false
  else if (lvl lvls 3).index > 1 then false
  else if !(lvl lvls 3).exact then false
  else true

def validateBip32 (lvls : List RawLevel) : Bool :=
  if lvls.length ≠ 3 then false
  else if !(lvl lvls 0).isHardened then false
  else if (lvl lvls 1).isHardened then false
  else if (lvl lvls 1).index > 1 then false
  else if !(lvl lvls 1).exact then false
  else true

def maxSlip10Depth : ℕ := 255

def validateSlip10 (lvls : List RawLevel) : Bool :=
  !lvls.isEmpty && decide (lvls.length ≤ maxSlip10Depth)

def validateCip11 (lvls : List RawLevel) : Bool :=
  if lvls.length ≠ 5 then false
  else if !expectPurpose lvls 44 then false
  else if !expectCoin lvls 118 then false
  else if !(lvl lvls 2).isHardened then false
  else if (lvl lvls 3).isHardened then false
  else true

def validateCip1852 (lvls : List RawLevel) : Bool :=
  if lvls.length ≠ 5 then false
  else if !expectPurpose lvls 1852 then false
  else if !expectCoin lvls 1815 then false
  else if !(lvl lvls 2).isHardened then false
  else if (lvl lvls 3).isHardened then false
  else true

def validateZip32 (lvls : List RawLevel) : Bool :=
  if lvls.length ≠ 3 ∧ lvls.length ≠ 4 then false
  else if !expectPurpose lvls 32 then false
  else if !expectCoin lvls 133 then false
  else if !(lvl lvls 2).isHardened then false
  else true

def validateLevelsFor (dt : DerivationType) (lvls : List RawLevel) : Bool :=
  if dt = .root then lvls.isEmpty
  else if dt = .bip32 then validateBip32 lvls
  else if dt = .bip44 then validateBip44Family lvls 44 0 false
  else if dt = .bip49 then validateBip44Family lvls 49 0 false
  else if dt = .bip54 then validateBip44Family lvls 54 0 false
  else if dt = .bip74 then validateBip44Family lvls 74 0 false
  else if dt = .bip84 then validateBip44Family lvls 84 0 false
  else if dt = .bip86 then validateBip44Family lvls 86 0 false
  else if dt = .slip10 then validateSlip10 lvls
  else if dt = .cip11 then validateCip11 lvls
  else if dt = .cip1852 then validateCip1852 lvls
  else if dt = .zip32 then validateZip32 lvls
  else false

def validateDerivationPath (dt : DerivationType) (path : Bytes) : Bool :=
  if !dt.isValid then false
  else if dt = .root then path.isEmpty
  else match parseLevels path with
    | none => false
    | some lvls => validateLevelsFor dt lvls

structure DerivationPath where
  type : DerivationType
  coin : UInt32
  account : UInt32
  charge : UInt32
  index : AddressIndex
  hasIndex : Bool
  levels : List AddressIndex
  deriving DecidableEq

namespace DerivationPath

/-- A default-constructed path whose type is then set. -/
def fresh (dt : DerivationType) : DerivationPath := ⟨dt, 0, 0, 0, ⟨0, false⟩, false, []⟩

def init : DerivationPath := fresh ⟨[]⟩

def fixedPrefix (dp : DerivationPath) : Option (UInt32 × UInt32) :=
  if dp.type = .bip44 then some (44, dp.coin)
  else if dp.type = .bip49 then some (49, dp.coin)
  else if dp.type = .bip54 then some (54, dp.coin)
  else if dp.type = .bip74 then some (74, dp.coin)
  else if dp.type = .bip84 then some (84, dp.coin)
  else if dp.type = .bip86 then some (86, dp.coin)
  else if dp.type = .cip11 then some (44, 118)
  else if dp.type = .cip1852 then some (1852, 1815)
  else if dp.type = .zip32 then some (32, 133)
  else none

def rebuildLevels (dp : DerivationPath) : DerivationPath :=
  if dp.type = .root then { dp with levels := [] }
  else if dp.type = .slip10 then dp
  else if dp.type = .bip32 then
    { dp with levels := [⟨dp.account, true⟩, ⟨dp.charge, false⟩, dp.index] }
  else match dp.fixedPrefix with
    | none => dp
    | some (purpose, coin) =>
      let front : List AddressIndex := [⟨purpose, true⟩, ⟨coin, true⟩, ⟨dp.account, true⟩]
      if dp.type = .zip32 then
        { dp with levels := if dp.hasIndex then front ++ [dp.index] else front }
      else { dp with levels := front ++ [⟨dp.charge, false⟩, dp.index] }

/-- The character loop over `tmp[16]`, least significant digit first. -/
def digitLoop : ℕ → UInt32 → Bytes
  | 0, _ => []
  | fuel + 1, v => if v = 0 then [] else (ch '0' + (v % 10).toUInt8) :: digitLoop fuel (v / 10)

def appendUint32 (out : Bytes) (v : UInt32) : Bytes :=
  out ++ if v = 0 then [ch '0'] else (digitLoop 16 v).reverse

def appendLevel (out : Bytes) (l : AddressIndex) : Bytes :=
  let out := appendUint32 (out ++ [ch '/']) l.index
  if l.isHardened then out ++ [apostrophe] else out

def formatLevels (lvls : List AddressIndex) : Bytes := lvls.foldl appendLevel [ch 'm']

def str (dp : DerivationPath) : Bytes :=
  if dp.levels.isEmpty then []
  else if dp.type = .slip10 then formatLevels dp.levels
  else if dp.type = .bip32 then
    let out := appendUint32 (lit "m/") dp.account
    let out := appendUint32 (out ++ lit "'/") dp.charge
    let out := appendUint32 (out ++ lit "/") dp.index.index
    if dp.index.isHardened then out ++ lit "'" else out
  else match dp.fixedPrefix with
    | none => []
    | some (purpose, coin) =>
      if dp.type = .zip32 then
        let out := appendUint32 (lit "m/") purpose
        let out := appendUint32 (out ++ lit "'/") coin
        let out := appendUint32 (out ++ lit "'/") dp.account
        let out := out ++ lit "'"
        if !dp.hasIndex then out
        else
          let out := appendUint32 (out ++ lit "/") dp.index.index
          if dp.index.isHardened then out ++ lit "'" else out
      else
        let out := appendUint32 (lit "m/") purpose
        let out := appendUint32 (out ++ lit "'/") coin
        let out := appendUint32 (out ++ lit "'/") dp.account
        let out := appendUint32 (out ++ lit "'/") dp.charge
        let out := appendUint32 (out ++ lit "/") dp.index.index
        if dp.index.isHardened then out ++ lit "'" else out

def isBip44Family (dt : DerivationType) : Bool :=
  dt == .bip44 || dt == .bip49 || dt == .bip54 || dt == .bip74 || dt == .bip84 || dt == .bip86

def setFive (dp : DerivationPath) (coin : UInt32) (lvls : List RawLevel) : DerivationPath :=
  { dp with coin := coin, account := (lvl lvls 2).index, charge := (lvl lvls 3).index,
            index := (lvl lvls 4).level, hasIndex := true }

def parseFresh (dp : DerivationPath) (path : Bytes) : Except ParseError DerivationPath :=
  if !dp.type.isValid then .error ⟨.invalidDerivationType, quote dp.type.value⟩
  else if dp.type = .root then
    if !path.isEmpty then
      .error ⟨.invalidDerivationPath, lit "root derivation must have empty path, got " ++ quote path⟩
    else .ok { dp with levels := [], hasIndex := false }
  else match (parseLevels path).filter (validateLevelsFor dp.type) with
    | none => .error ⟨.invalidDerivationPath, quote path⟩
    | some lvls =>
      if dp.type = .bip32 then
        .ok { dp with account := (lvl lvls 0).index, charge := (lvl lvls 1).index,
                      index := (lvl lvls 2).level, hasIndex := true }.rebuildLevels
      else if isBip44Family dp.type then .ok (dp.setFive (lvl lvls 1).index lvls).rebuildLevels
      else if dp.type = .cip11 then .ok (dp.setFive 118 lvls).rebuildLevels
      else if dp.type = .cip1852 then .ok (dp.setFive 1815 lvls).rebuildLevels
      else if dp.type = .slip10 then
        .ok { dp with levels := lvls.map RawLevel.level, hasIndex := !(lvls.map RawLevel.level).isEmpty }
      else if dp.type = .zip32 then
        let dp := { dp with coin := 133, account := (lvl lvls 2).index }
        if lvls.length = 4 then
          .ok { dp with index := (lvl lvls 3).level, hasIndex := true }.rebuildLevels
        else .ok { dp with index := ⟨0, false⟩, hasIndex := false }.rebuildLevels
      else .error ⟨.invalidDerivationType, quote dp.type.value⟩

def parsePath (dp : DerivationPath) (path : Bytes) : After DerivationPath ParseError :=
  .commit dp ((fresh dp.type).parseFresh path)

def parse (dt : DerivationType) (path : Bytes) : Except ParseError DerivationPath :=
  if !dt.isValid then .error ⟨.invalidDerivationType, quote dt.value⟩
  else ((fresh dt).parsePath path).result

def setType (dp : DerivationPath) (dt : DerivationType) : After DerivationPath ParseError :=
  if !dt.isValid then .throw dp ⟨.invalidDerivationType, quote dt.value⟩
  else if dt = dp.type then .done dp
  else .done (fresh dt)

def level (dp : DerivationPath) (i : ℕ) : AddressIndex := dp.levels.getD i ⟨0, false⟩

def populateShortcutsFromLevels (dp : DerivationPath) : DerivationPath :=
  if dp.type = .bip32 then
    if dp.levels.length ≥ 3 then
      { dp with account := (dp.level 0).index, charge := (dp.level 1).index,
                index := dp.level 2, hasIndex := true }
    else dp
  else if isBip44Family dp.type || dp.type == .cip11 || dp.type == .cip1852 then
    if dp.levels.length ≥ 5 then
      { dp with coin := (dp.level 1).index, account := (dp.level 2).index,
                charge := (dp.level 3).index, index := dp.level 4, hasIndex := true }
    else dp
  else if dp.type = .zip32 then
    let dp := if dp.levels.length ≥ 3 then
        { dp with coin := (dp.level 1).index, account := (dp.level 2).index }
      else dp
    if dp.levels.length ≥ 4 then { dp with index := dp.level 3, hasIndex := true } else dp
  else if dp.type = .slip10 then { dp with hasIndex := !dp.levels.isEmpty }
  else dp

def reparsed (dp : DerivationPath) (levels : List AddressIndex) : Except ParseError DerivationPath := do
  let out ← parse dp.type dp.str
  if out.levels ≠ levels then
    .error ⟨.invalidDerivationPath, lit "levels do not form a " ++ dp.type.value ++ lit " path"⟩
  else .ok out

def fromLevels (dt : DerivationType) (levels : List AddressIndex) : Except ParseError DerivationPath :=
  if !dt.isValid then .error ⟨.invalidDerivationType, quote dt.value⟩
  else
    let dp := { fresh dt with levels := levels }.populateShortcutsFromLevels
    dp.reparsed dp.levels

/-- The five-argument constructor throws two unrelated exception types. -/
inductive Exception where
  | parseError (e : ParseError)
  | invalidArgument (what : Bytes)

def Exception.ofParse {α : Type} : Except ParseError α → Except Exception α
  | .ok a => .ok a
  | .error e => .error (.parseError e)

def construct (dt : DerivationType) (coin account charge : UInt32) (index : AddressIndex) :
    Except Exception DerivationPath :=
  if !dt.isValid then .error (.parseError ⟨.invalidDerivationType, quote dt.value⟩)
  else if dt = .slip10 then
    .error (.invalidArgument (lit
      "mhda: NewDerivationPath cannot construct SLIP10 paths; use derivation_path::from_levels"))
  else
    let dp : DerivationPath := ⟨dt, coin, account, charge, index, dt != .root, []⟩
    let dp := dp.rebuildLevels
    Exception.ofParse (dp.reparsed dp.levels)

end DerivationPath
end Mhda.Path
