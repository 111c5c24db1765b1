import Mhda.Descriptor
import Mhda.TextMemory

set_option autoImplicit false

namespace Mhda.PathMemory
open Mhda.ByteString Mhda.Errors Mhda.Catalogue Mhda.Path Mhda.Template Mhda.PathParse Mhda.Memory Mhda.TextMemory

section Program

def parseSegment (seg : Bytes) : Option (Option RawLevel) := do
  let hardened ← both (some !seg.isEmpty) (seg.getLast?.map isHardeningMarker)
  let digits ← (if hardened then removeSuffix seg 1 else some seg)
  match Detail.parseUint31Dec digits with
  | none => some none
  | some value =>
    let exact ← either (some (digits.length == 1)) (digits[0]?.map (· != ch '0'))
    some (some ⟨value, hardened, exact⟩)

def splitPath (path : Bytes) : Option (Option (List Bytes)) := do
  let stray ← either (some path.isEmpty) (path[0]?.map (· != ch 'm'))
  if stray then some none
  else if path.length = 1 then some (some [])
  else if (← path[1]?) ≠ ch '/' then some none
  else
    let rest ← substrFrom path 2
    if rest.isEmpty then some none
    else
      let out ← split rest (ch '/')
      if out.any List.isEmpty then some none else some (some out)

def parseSegments : List Bytes → List RawLevel → Option (Option (List RawLevel))
  | [], levels => some (some levels)
  | seg :: segments, levels => do
    match ← parseSegment seg with
    | none => some none
    | some lvl => parseSegments segments (levels ++ [lvl])

def parseLevels (path : Bytes) : Option (Option (List RawLevel)) := do
  match ← splitPath path with
  | none => some none
  | some segments => parseSegments segments []

def test (lvls : List RawLevel) (i : ℕ) (p : RawLevel → Bool) : Option Bool := lvls[i]?.map p

def expectPurpose (lvls : List RawLevel) (purpose : UInt32) : Option Bool :=
  both (some !lvls.isEmpty) (both (test lvls 0 (·.index == purpose))
    (both (test lvls 0 (·.isHardened)) (test lvls 0 (·.exact))))

def expectCoin (lvls : List RawLevel) (coin : UInt32) : Option Bool :=
  both (some (decide (lvls.length ≥ 2))) (both (test lvls 1 (·.index == coin))
    (both (test lvls 1 (·.isHardened)) (test lvls 1 (·.exact))))

def validateBip44Family (lvls : List RawLevel) (purpose requiredCoin : UInt32) (requireCoinMatch : Bool) :
    Option Bool := do
  if lvls.length ≠ 5 then some false
  else if !(← expectPurpose lvls purpose) then some false
  else if !(← test lvls 1 (·.isHardened)) then some false
  else if ← both (some requireCoinMatch) (test lvls 1 (·.index != requiredCoin)) then some false
  else if !(← test lvls 2 (·.isHardened)) then some false
  else if ← test lvls 3 (·.isHardened) then some false
  else if ← test lvls 3 (fun l => decide (l.index > 1)) then some false
  else if !(← test lvls 3 (·.exact)) then some false
  else some true

def validateBip32 (lvls : List RawLevel) : Option Bool := do
  if lvls.length ≠ 3 then some false
  else if !(← test lvls 0 (·.isHardened)) then some false
  else if ← test lvls 1 (·.isHardened) then some false
  else if ← test lvls 1 (fun l => decide (l.index > 1)) then some false
  else if !(← test lvls 1 (·.exact)) then some false
  else some true

def validateCip11 (lvls : List RawLevel) : Option Bool := do
  if lvls.length ≠ 5 then some false
  else if !(← expectPurpose lvls 44) then some false
  else if !(← expectCoin lvls 118) then some false
  else if !(← test lvls 2 (·.isHardened)) then some false
  else if ← test lvls 3 (·.isHardened) then some false
  else some true

def validateCip1852 (lvls : List RawLevel) : Option Bool := do
  if lvls.length ≠ 5 then some false
  else if !(← expectPurpose lvls 1852) then some false
  else if !(← expectCoin lvls 1815) then some false
  else if !(← test lvls 2 (·.isHardened)) then some false
  else if ← test lvls 3 (·.isHardened) then some false
  else some true

def validateZip32 (lvls : List RawLevel) : Option Bool := do
  if lvls.length ≠ 3 ∧ lvls.length ≠ 4 then some false
  else if !(← expectPurpose lvls 32) then some false
  else if !(← expectCoin lvls 133) then some false
  else if !(← test lvls 2 (·.isHardened)) then some false
  else some true

def validateLevelsFor (dt : DerivationType) (lvls : List RawLevel) : Option Bool :=
  if dt = .root then some lvls.isEmpty
  else if dt = .bip32 then validateBip32 lvls
  else if dt = .bip44 then validateBip44Family lvls 44 0 false
  else if dt = .bip49 then validateBip44Family lvls 49 0 false
  else if dt = .bip54 then validateBip44Family lvls 54 0 false
  else if dt = .bip74 then validateBip44Family lvls 74 0 false
  else if dt = .bip84 then validateBip44Family lvls 84 0 false
  else if dt = .bip86 then validateBip44Family lvls 86 0 false
  else if dt = .slip10 then some (validateSlip10 lvls)
  else if dt = .cip11 then validateCip11 lvls
  else if dt = .cip1852 then validateCip1852 lvls
  else if dt = .zip32 then validateZip32 lvls
  else some false

def setFive (dp : DerivationPath) (coin : UInt32) (lvls : List RawLevel) : Option DerivationPath := do
  some { dp with coin := coin, account := (← lvls[2]?).index, charge := (← lvls[3]?).index,
                 index := (← lvls[4]?).level, hasIndex := true }

def parseFresh (dp : DerivationPath) (path : Bytes) : Option (Except ParseError DerivationPath) := do
  if !dp.type.isValid then some (.error ⟨.invalidDerivationType, Detail.quote dp.type.value⟩)
  else if dp.type = .root then
    if !path.isEmpty then
      some (.error ⟨.invalidDerivationPath, lit "root derivation must have empty path, got " ++ Detail.quote path⟩)
    else some (.ok { dp with levels := [], hasIndex := false })
  else
    let refused := some (.error ⟨.invalidDerivationPath, Detail.quote path⟩)
    match ← parseLevels path with
    | none => refused
    | some lvls =>
      if !(← validateLevelsFor dp.type lvls) then refused
      else if dp.type = .bip32 then
        some (.ok { dp with account := (← lvls[0]?).index, charge := (← lvls[1]?).index,
                            index := (← lvls[2]?).level, hasIndex := true }.rebuildLevels)
      else if DerivationPath.isBip44Family dp.type then
        some (.ok (← setFive dp (← lvls[1]?).index lvls).rebuildLevels)
      else if dp.type = .cip11 then some (.ok (← setFive dp 118 lvls).rebuildLevels)
      else if dp.type = .cip1852 then some (.ok (← setFive dp 1815 lvls).rebuildLevels)
      else if dp.type = .slip10 then
        some (.ok { dp with levels := lvls.map RawLevel.level, hasIndex := !(lvls.map RawLevel.level).isEmpty })
      else if dp.type = .zip32 then
        let dp := { dp with coin := 133, account := (← lvls[2]?).index }
        if lvls.length = 4 then some (.ok { dp with index := (← lvls[3]?).level, hasIndex := true }.rebuildLevels)
        else some (.ok { dp with index := ⟨0, false⟩, hasIndex := false }.rebuildLevels)
      else some (.error ⟨.invalidDerivationType, Detail.quote dp.type.value⟩)

def populateShortcutsFromLevels (dp : DerivationPath) : Option DerivationPath := do
  if dp.type = .bip32 then
    if dp.levels.length ≥ 3 then
      some { dp with account := (← dp.levels[0]?).index, charge := (← dp.levels[1]?).index,
                     index := ← dp.levels[2]?, hasIndex := true }
    else some dp
  else if DerivationPath.isBip44Family dp.type || dp.type == .cip11 || dp.type == .cip1852 then
    if dp.levels.length ≥ 5 then
      some { dp with coin := (← dp.levels[1]?).index, account := (← dp.levels[2]?).index,
                     charge := (← dp.levels[3]?).index, index := ← dp.levels[4]?, hasIndex := true }
    else some dp
  else if dp.type = .zip32 then
    let dp ← (if dp.levels.length ≥ 3 then do
        some { dp with coin := (← dp.levels[1]?).index, account := (← dp.levels[2]?).index }
      else some dp)
    if dp.levels.length ≥ 4 then some { dp with index := ← dp.levels[3]?, hasIndex := true } else some dp
  else if dp.type = .slip10 then some { dp with hasIndex := !dp.levels.isEmpty }
  else some dp

/-- `while (v) { tmp[n++] = char('0' + (v % 10)); v /= 10; }`. -/
def digitRound : Region Byte × ℕ × UInt32 → Option ((Region Byte × ℕ × UInt32) ⊕ (Region Byte × ℕ)) :=
  fun (tmp, n, v) => do
    if v = 0 then some (.inr (tmp, n)) else some (.inl (← store tmp n (ch '0' + (v % 10).toUInt8), n + 1, v / 10))

/-- `for (int i = 0; i < t; ++i) buf[n++] = tmp[t - i - 1]`. -/
def turnRound (tmp : Region Byte) (t i : ℕ) : Region Byte × ℕ → Option (Region Byte × ℕ) :=
  fun (buf, n) => do some (← store buf n (← load tmp (← sub (← sub t i) 1)), n + 1)

/-- The printer of the paths: the digits are turned round in a second buffer. -/
def appendUint32 (out : Bytes) (v : UInt32) : Option Bytes := do
  let buf : Region Byte := uninitialised 16
  let (buf, n) ← (if v = 0 then do some (← store buf 0 (ch '0'), 1)
    else do
      let (tmp, t) ← loop digitRound 17 (uninitialised 16, 0, v)
      forLoop 0 t (turnRound tmp t) (buf, 0))
  some (out ++ (← read buf n))

/-- The printer of the coin types: the digits are appended from the last one back. -/
def appendCoin (out : Bytes) (v : UInt32) : Option Bytes := do
  if v = 0 then some (out ++ [ch '0'])
  else
    let (tmp, n) ← loop digitRound 17 (uninitialised 16, 0, v)
    forLoop 0 n (fun i out => do some (out ++ [← load tmp (← sub (← sub n 1) i)])) out

def appendLevel (out : Bytes) (l : AddressIndex) : Option Bytes := do
  let out ← appendUint32 (out ++ [ch '/']) l.index
  some (if l.isHardened then out ++ [apostrophe] else out)

def formatLevels (lvls : List AddressIndex) : Option Bytes := lvls.foldlM appendLevel [ch 'm']

def str (dp : DerivationPath) : Option Bytes := do
  if dp.levels.isEmpty then some []
  else if dp.type = .slip10 then formatLevels dp.levels
  else if dp.type = .bip32 then
    let out ← appendUint32 (lit "m/") dp.account
    let out ← appendUint32 (out ++ lit "'/") dp.charge
    let out ← appendUint32 (out ++ lit "/") dp.index.index
    some (if dp.index.isHardened then out ++ lit "'" else out)
  else match dp.fixedPrefix with
    | none => some []
    | some (purpose, coin) =>
      if dp.type = .zip32 then
        let out ← appendUint32 (lit "m/") purpose
        let out ← appendUint32 (out ++ lit "'/") coin
        let out ← appendUint32 (out ++ lit "'/") dp.account
        let out := out ++ lit "'"
        if !dp.hasIndex then some out
        else
          let out ← appendUint32 (out ++ lit "/") dp.index.index
          some (if dp.index.isHardened then out ++ lit "'" else out)
      else
        let out ← appendUint32 (lit "m/") purpose
        let out ← appendUint32 (out ++ lit "'/") coin
        let out ← appendUint32 (out ++ lit "'/") dp.account
        let out ← appendUint32 (out ++ lit "'/") dp.charge
        let out ← appendUint32 (out ++ lit "/") dp.index.index
        some (if dp.index.isHardened then out ++ lit "'" else out)

def validateDerivationPath (dt : DerivationType) (path : Bytes) : Option Bool := do
  if !dt.isValid then some false
  else if dt = .root then some path.isEmpty
  else match ← parseLevels path with
    | none => some false
    | some lvls => validateLevelsFor dt lvls

end Program

section Segments

theorem parseSegment_run (seg : Bytes) : parseSegment seg = some (Path.parseSegment seg) := by
  have marker : both (some !seg.isEmpty) (seg.getLast?.map isHardeningMarker) =
      some (seg.getLast?.any isHardeningMarker) := by
    cases seg with
    | nil => rfl
    | cons c seg =>
      rw [List.getLast?_eq_some_getLast (List.cons_ne_nil c seg)]
      rfl
  have digits : (if seg.getLast?.any isHardeningMarker then removeSuffix seg 1 else some seg) =
      some (if seg.getLast?.any isHardeningMarker then seg.dropLast else seg) := by
    split
    · rename_i marked
      have long : 1 ≤ seg.length := by
        cases seg with
        | nil => cases marked
        | cons c seg => simp
      rw [removeSuffix, if_pos long, List.dropLast_eq_take]
    · rfl
  rw [parseSegment, marker, some_bind, digits, some_bind, Path.parseSegment]
  generalize (if seg.getLast?.any isHardeningMarker then seg.dropLast else seg) = ds
  cases ds with
  | nil => rfl
  | cons d ds =>
    cases Detail.parseUint31Dec (d :: ds) with
    | none => rfl
    | some value =>
      simp only [List.getElem?_cons_zero, List.head?_cons, Option.map_some]
      cases ((d :: ds).length == 1) <;> rfl

theorem splitPath_stray {c : Byte} (rest : Bytes) (other : c ≠ ch 'm') :
    splitPath (c :: rest) = some (Path.splitPath (c :: rest)) := by
  have stray : (c != ch 'm') = true := bne_iff_ne.mpr other
  simp only [splitPath, List.isEmpty_cons, either, some_bind, Bool.false_eq_true, if_false, List.getElem?_cons_zero,
    Option.map_some, stray, if_true, Path.splitPath, other, ne_eq, not_false_eq_true]

theorem splitPath_root {d : Byte} {rest : Bytes} (fits : rest.length < 2 ^ 63) :
    splitPath (ch 'm' :: d :: rest) = some (Path.splitPath (ch 'm' :: d :: rest)) := by
  have behind : substrFrom (ch 'm' :: d :: rest) 2 = some rest := if_pos (by simp)
  have two : (ch 'm' :: d :: rest).length ≠ 1 := by simp
  have spelled : (ch 'm' != ch 'm') = false := bne_self_eq_false _
  simp only [splitPath, List.isEmpty_cons, either, some_bind, Bool.false_eq_true, if_false, List.getElem?_cons_zero,
    List.getElem?_cons_succ, Option.map_some, spelled, two, behind, split_run _ fits, Path.splitPath, ne_eq,
    not_true_eq_false]
  by_cases slash : d = ch '/'
  swap
  · rw [if_pos slash, if_pos slash]
  rw [if_neg (not_not.mpr slash), if_neg (not_not.mpr slash)]
  by_cases empty : rest.isEmpty = true
  · rw [if_pos empty, if_pos empty]
  · rw [if_neg empty, if_neg empty]
    split <;> rfl

theorem splitPath_run {path : Bytes} (fits : path.length < 2 ^ 63) : splitPath path = some (Path.splitPath path) := by
  cases path with
  | nil => rfl
  | cons c rest =>
    by_cases m : c = ch 'm'
    swap
    · exact splitPath_stray rest m
    rw [m]
    cases rest with
    | nil => rfl
    | cons d rest =>
      rw [List.length_cons, List.length_cons] at fits
      exact splitPath_root (by omega)

theorem parseSegments_run (segments : List Bytes) (levels : List RawLevel) :
    parseSegments segments levels = some ((segments.mapM Path.parseSegment).map (levels ++ ·)) := by
  induction segments generalizing levels with
  | nil => simp [parseSegments]
  | cons seg segments ih =>
    rw [parseSegments, parseSegment_run, some_bind, List.mapM_cons]
    cases Path.parseSegment seg with
    | none => rfl
    | some lvl =>
      simp only [ih, some_bind]
      cases segments.mapM Path.parseSegment with
      | none => rfl
      | some lvls => simp

theorem parseLevels_run {path : Bytes} (fits : path.length < 2 ^ 63) :
    parseLevels path = some (Path.parseLevels path) := by
  rw [parseLevels, splitPath_run fits, some_bind, Path.parseLevels]
  cases Path.splitPath path with
  | none => rfl
  | some segments =>
    simp only [parseSegments_run, Option.bind_some, List.nil_append, Option.map_id_fun', id_eq]

end Segments

section Validators
variable {lvls : List RawLevel} {i : ℕ}

theorem level_at (h : i < lvls.length) : lvls[i]? = some (lvl lvls i) := item_at _ h

theorem test_run (h : i < lvls.length) (p : RawLevel → Bool) : test lvls i p = some (p (lvl lvls i)) := by
  rw [test, level_at h, Option.map_some]

theorem expectPurpose_run (h : 0 < lvls.length) (purpose : UInt32) :
    expectPurpose lvls purpose = some (Path.expectPurpose lvls purpose) := by
  simp only [expectPurpose, test_run h, Path.expectPurpose, Bool.and_assoc]
  exact both_some _ fun _ => both_some _ fun _ => both_some _ fun _ => rfl

theorem expectCoin_run (h : 1 < lvls.length) (coin : UInt32) :
    expectCoin lvls coin = some (Path.expectCoin lvls coin) := by
  simp only [expectCoin, test_run h, Path.expectCoin, Bool.and_assoc]
  exact both_some _ fun _ => both_some _ fun _ => both_some _ fun _ => rfl

theorem validateBip44Family_run (lvls : List RawLevel) (purpose coin : UInt32) (required : Bool) :
    validateBip44Family lvls purpose coin required = some (Path.validateBip44Family lvls purpose coin required) := by
  rw [validateBip44Family, Path.validateBip44Family]
  by_cases five : lvls.length ≠ 5
  · rw [if_pos five, if_pos five]
  have matched : both (some required) (some ((lvl lvls 1).index != coin)) = some (required && (lvl lvls 1).index != coin) :=
    both_some _ fun _ => rfl
  rw [if_neg five, if_neg five]
  simp (disch := omega) only [expectPurpose_run, test_run, some_bind, matched, apply_ite some, decide_eq_true_eq]

theorem validateBip32_run (lvls : List RawLevel) : validateBip32 lvls = some (Path.validateBip32 lvls) := by
  rw [validateBip32, Path.validateBip32]
  by_cases three : lvls.length ≠ 3
  · rw [if_pos three, if_pos three]
  rw [if_neg three, if_neg three]
  simp (disch := omega) only [test_run, some_bind, apply_ite some, decide_eq_true_eq]

theorem validateCip11_run (lvls : List RawLevel) : validateCip11 lvls = some (Path.validateCip11 lvls) := by
  rw [validateCip11, Path.validateCip11]
  by_cases five : lvls.length ≠ 5
  · rw [if_pos five, if_pos five]
  rw [if_neg five, if_neg five]
  simp (disch := omega) only [expectPurpose_run, expectCoin_run, test_run, some_bind, apply_ite some]

theorem validateCip1852_run (lvls : List RawLevel) : validateCip1852 lvls = some (Path.validateCip1852 lvls) := by
  rw [validateCip1852, Path.validateCip1852]
  by_cases five : lvls.length ≠ 5
  · rw [if_pos five, if_pos five]
  rw [if_neg five, if_neg five]
  simp (disch := omega) only [expectPurpose_run, expectCoin_run, test_run, some_bind, apply_ite some]

theorem validateZip32_run (lvls : List RawLevel) : validateZip32 lvls = some (Path.validateZip32 lvls) := by
  rw [validateZip32, Path.validateZip32]
  by_cases other : lvls.length ≠ 3 ∧ lvls.length ≠ 4
  · rw [if_pos other, if_pos other]
  rw [if_neg other, if_neg other]
  simp (disch := omega) only [expectPurpose_run, expectCoin_run, test_run, some_bind, apply_ite some]

theorem validateLevelsFor_run (dt : DerivationType) (lvls : List RawLevel) :
    validateLevelsFor dt lvls = some (Path.validateLevelsFor dt lvls) := by
  simp only [validateLevelsFor, Path.validateLevelsFor, validateBip44Family_run, validateBip32_run, validateCip11_run,
    validateCip1852_run, validateZip32_run, apply_ite some]

end Validators

section Shortcuts

theorem length_of_valid {dt : DerivationType} {s : Scheme} {lvls : List RawLevel} {n : ℕ} (type : dt = s.type)
    (h : Path.validateLevelsFor dt lvls = true) (layouts : ∀ layout ∈ s.layouts, n < layout.length) : n < lvls.length := by
  rw [type] at h
  obtain ⟨layout, listed, filled⟩ := (validateLevelsFor_iff s lvls).mp h
  have same := fills_length filled
  have long := layouts layout listed
  omega

theorem family_long {dt : DerivationType} {lvls : List RawLevel} (family : DerivationPath.isBip44Family dt = true)
    (h : Path.validateLevelsFor dt lvls = true) : 4 < lvls.length := by
  simp only [DerivationPath.isBip44Family, Bool.or_eq_true, beq_iff_eq] at family
  rcases family with ((((type | type) | type) | type) | type) | type
  · exact length_of_valid (s := .bip44) type h (by decide)
  · exact length_of_valid (s := .bip49) type h (by decide)
  · exact length_of_valid (s := .bip54) type h (by decide)
  · exact length_of_valid (s := .bip74) type h (by decide)
  · exact length_of_valid (s := .bip84) type h (by decide)
  · exact length_of_valid (s := .bip86) type h (by decide)

theorem setFive_run (dp : DerivationPath) (coin : UInt32) {lvls : List RawLevel} (h : 4 < lvls.length) :
    setFive dp coin lvls = some (dp.setFive coin lvls) := by
  simp (disch := omega) only [setFive, level_at, some_bind]
  rfl

theorem parseFresh_run (dp : DerivationPath) {path : Bytes} (fits : path.length < 2 ^ 63) :
    parseFresh dp path = some (dp.parseFresh path) := by
  rw [parseFresh, DerivationPath.parseFresh]
  by_cases unknown : (!dp.type.isValid) = true
  · rw [if_pos unknown, if_pos unknown]
  rw [if_neg unknown, if_neg unknown]
  by_cases root : dp.type = .root
  · rw [if_pos root, if_pos root]
    split <;> rfl
  rw [if_neg root, if_neg root, parseLevels_run fits, some_bind]
  cases Path.parseLevels path with
  | none => rfl
  | some lvls =>
    simp only [validateLevelsFor_run, some_bind, Option.filter_some]
    by_cases valid : Path.validateLevelsFor dp.type lvls = true
    swap
    · simp only [valid, Bool.not_false, if_true]
      rfl
    simp only [valid, Bool.not_true, Bool.false_eq_true, if_false, if_true]
    by_cases bip32 : dp.type = .bip32
    · have long : 2 < lvls.length := length_of_valid (s := .bip32) bip32 valid (by decide)
      rw [if_pos bip32, if_pos bip32]
      simp (disch := omega) only [level_at, some_bind]
    rw [if_neg bip32, if_neg bip32]
    by_cases family : DerivationPath.isBip44Family dp.type = true
    · have long := family_long family valid
      rw [if_pos family, if_pos family]
      simp (disch := omega) only [level_at, setFive_run, some_bind]
    rw [if_neg family, if_neg family]
    by_cases cip11 : dp.type = .cip11
    · have long : 4 < lvls.length := length_of_valid (s := .cip11) cip11 valid (by decide)
      rw [if_pos cip11, if_pos cip11]
      simp (disch := omega) only [setFive_run, some_bind]
    rw [if_neg cip11, if_neg cip11]
    by_cases cip1852 : dp.type = .cip1852
    · have long : 4 < lvls.length := length_of_valid (s := .cip1852) cip1852 valid (by decide)
      rw [if_pos cip1852, if_pos cip1852]
      simp (disch := omega) only [setFive_run, some_bind]
    rw [if_neg cip1852, if_neg cip1852]
    by_cases slip10 : dp.type = .slip10
    · rw [if_pos slip10, if_pos slip10]
    rw [if_neg slip10, if_neg slip10]
    by_cases zip32 : dp.type = .zip32
    · have long : 2 < lvls.length := length_of_valid (s := .zip32) zip32 valid (by decide)
      rw [if_pos zip32, if_pos zip32, level_at long, some_bind]
      by_cases four : lvls.length = 4
      · rw [if_pos four, if_pos four, level_at (by omega), some_bind]
      · rw [if_neg four, if_neg four]
    · rw [if_neg zip32, if_neg zip32]

theorem shortcut_at {levels : List AddressIndex} {i : ℕ} (h : i < levels.length) :
    levels[i]? = some (levels.getD i ⟨0, false⟩) := item_at _ h

theorem populateShortcuts_run (dp : DerivationPath) :
    populateShortcutsFromLevels dp = some dp.populateShortcutsFromLevels := by
  rw [populateShortcutsFromLevels, DerivationPath.populateShortcutsFromLevels]
  by_cases bip32 : dp.type = .bip32
  · rw [if_pos bip32, if_pos bip32]
    by_cases three : dp.levels.length ≥ 3
    · rw [if_pos three, if_pos three]
      simp (disch := omega) only [shortcut_at, some_bind]
      rfl
    · rw [if_neg three, if_neg three]
  rw [if_neg bip32, if_neg bip32]
  by_cases five : (DerivationPath.isBip44Family dp.type || dp.type == .cip11 || dp.type == .cip1852) = true
  · rw [if_pos five, if_pos five]
    by_cases long : dp.levels.length ≥ 5
    · rw [if_pos long, if_pos long]
      simp (disch := omega) only [shortcut_at, some_bind]
      rfl
    · rw [if_neg long, if_neg long]
  rw [if_neg five, if_neg five]
  by_cases zip32 : dp.type = .zip32
  swap
  · rw [if_neg zip32, if_neg zip32]
    split <;> rfl
  rw [if_pos zip32, if_pos zip32]
  by_cases three : dp.levels.length ≥ 3
  swap
  · have few : ¬ dp.levels.length ≥ 4 := by omega
    rw [if_neg three, if_neg three, some_bind, if_neg few, if_neg few]
  rw [if_pos three, if_pos three]
  simp (disch := omega) only [shortcut_at, some_bind]
  by_cases four : dp.levels.length ≥ 4
  · rw [if_pos four, if_pos four]
    rfl
  · rw [if_neg four, if_neg four]
    rfl

end Shortcuts

section Printers

/-- The digits so far are in the buffer, and ten digits are enough for the rest. -/
structure Digits (v : UInt32) (tmp : Region Byte) (n : ℕ) (rest : UInt32) (ds : Bytes) : Prop where
  written : tmp = buffer ds (16 - n)
  count : ds.length = n
  small : rest.toNat < 10 ^ (10 - n)
  few : n ≤ 10
  digits : ds ++ DerivationPath.digitLoop (16 - n) rest = DerivationPath.digitLoop 16 v

theorem digitRound_goes {v rest : UInt32} {tmp : Region Byte} {n : ℕ} {ds : Bytes} (inv : Digits v tmp n rest ds)
    (some_ : rest ≠ 0) : n < 10 ∧ ∃ tmp', digitRound (tmp, n, rest) = some (.inl (tmp', n + 1, rest / 10)) ∧
      Digits v tmp' (n + 1) (rest / 10) (ds ++ [ch '0' + (rest % 10).toUInt8]) := by
  have pos : 0 < rest.toNat := Nat.pos_of_ne_zero fun h => some_ (UInt32.toNat_inj.mp h)
  have below : n < 10 := by
    by_contra full
    have none : 10 - n = 0 := by omega
    have small := inv.small
    rw [none] at small
    omega
  have free : 16 - n = (16 - (n + 1)) + 1 := by omega
  have stored : store tmp n (ch '0' + (rest % 10).toUInt8) =
      some (buffer (ds ++ [ch '0' + (rest % 10).toUInt8]) (16 - (n + 1))) := by
    rw [inv.written, free, ← inv.count]
    exact buffer_store ds _ _
  refine ⟨below, _, by simp only [digitRound, some_, if_false, stored, some_bind], rfl, ?_, ?_, by omega, ?_⟩
  · rw [List.length_append, inv.count]
    rfl
  · have power : 10 ^ (10 - n) = 10 * 10 ^ (10 - (n + 1)) := by
      have count : 10 - n = (10 - (n + 1)) + 1 := by omega
      rw [count, Nat.pow_succ, Nat.mul_comm]
    have small := inv.small
    have ten : (10 : UInt32).toNat = 10 := rfl
    rw [power] at small
    rw [UInt32.toNat_div, ten]
    exact Nat.div_lt_of_lt_mul small
  · have digits := inv.digits
    rw [free, DerivationPath.digitLoop, if_neg some_] at digits
    rw [List.append_assoc]
    exact digits

theorem digits_run (v : UInt32) :
    ∃ n, loop digitRound 17 (uninitialised 16, 0, v) = some (buffer (DerivationPath.digitLoop 16 v) (16 - n), n) ∧
      (DerivationPath.digitLoop 16 v).length = n ∧ n ≤ 10 := by
  have step : ∀ s : Region Byte × ℕ × UInt32, (∃ ds, Digits v s.1 s.2.1 s.2.2 ds) →
      (∃ s', digitRound s = some (.inl s') ∧ (∃ ds, Digits v s'.1 s'.2.1 s'.2.2 ds) ∧ 10 - s'.2.1 < 10 - s.2.1) ∨
      ∃ r : Region Byte × ℕ, digitRound s = some (.inr r) ∧ (r.1 = buffer (DerivationPath.digitLoop 16 v) (16 - r.2) ∧
        (DerivationPath.digitLoop 16 v).length = r.2 ∧ r.2 ≤ 10) := by
    intro ⟨tmp, n, rest⟩ ⟨ds, inv⟩
    change Digits v tmp n rest ds at inv
    by_cases done : rest = 0
    · have none : ∀ fuel, DerivationPath.digitLoop fuel 0 = [] := by
        intro fuel
        cases fuel <;> rfl
      have digits := inv.digits
      rw [done, none, List.append_nil] at digits
      refine .inr ⟨(tmp, n), by simp only [digitRound, done, if_true], ?_, ?_, inv.few⟩
      · rw [← digits]
        exact inv.written
      · rw [← digits]
        exact inv.count
    · obtain ⟨below, tmp', run, next⟩ := digitRound_goes inv done
      have less : 10 - (n + 1) < 10 - n := by omega
      exact .inl ⟨_, run, ⟨_, next⟩, less⟩
  have start : ∃ ds, Digits v (uninitialised 16) 0 v ds := by
    have fits := v.toNat_lt
    exact ⟨[], rfl, rfl, by simp only [Nat.sub_zero]; omega, by omega, rfl⟩
  have enough : 10 - (uninitialised (α := Byte) 16, 0, v).2.1 < 17 := by
    change 10 - 0 < 17
    omega
  obtain ⟨⟨tmp, n⟩, run, written, count, few⟩ :=
    loop_leaves (μ := fun s : Region Byte × ℕ × UInt32 => 10 - s.2.1) step start enough
  simp only at written
  exact ⟨n, by rw [run, written], count, few⟩

theorem reversed_load {ds : Bytes} {i : ℕ} (free : ℕ) (h : i < ds.length) :
    ∃ c, load (buffer ds free) (ds.length - i - 1) = some c ∧ ds.reverse.take (i + 1) = ds.reverse.take i ++ [c] := by
  have inside : ds.length - i - 1 < ds.length := by omega
  have turned : ds.reverse[i]? = ds[ds.length - i - 1]? := by
    rw [List.getElem?_reverse h]
    congr 1
    omega
  refine ⟨ds[ds.length - i - 1], ?_, ?_⟩
  · rw [buffer_load inside, List.getElem?_eq_getElem inside]
  · rw [List.take_add_one, turned, List.getElem?_eq_getElem inside]
    rfl

theorem appendUint32_run (out : Bytes) (v : UInt32) :
    appendUint32 out v = some (DerivationPath.appendUint32 out v) := by
  by_cases zero : v = 0
  · rw [zero]
    rfl
  obtain ⟨n, digits, count, few⟩ := digits_run v
  generalize hds : DerivationPath.digitLoop 16 v = ds at digits count
  have turned : forLoop 0 n (turnRound (buffer ds (16 - n)) n) (uninitialised 16, 0) =
      some (buffer ds.reverse (16 - n), n) := by
    refine forLoop_ends (I := fun i s => s = (buffer (ds.reverse.take i) (16 - i), i)) (Nat.zero_le n) ?_ rfl ?_
    · intro i s _ hi reached
      obtain ⟨c, read, next⟩ := reversed_load (16 - n) (show i < ds.length by omega)
      have free : 16 - i = (16 - (i + 1)) + 1 := by omega
      have length : (ds.reverse.take i).length = i := by
        rw [List.length_take, List.length_reverse]
        omega
      have stored := buffer_store (ds.reverse.take i) (16 - (i + 1)) c
      rw [length, ← free] at stored
      rw [count] at read
      refine ⟨_, ?_, rfl⟩
      rw [reached, turnRound]
      simp only [sub_some (show i ≤ n by omega), sub_some (show 1 ≤ n - i by omega), some_bind, read, stored, next]
    · intro s final
      rw [final, List.take_of_length_le (by rw [List.length_reverse]; omega)]
  have whole := buffer_read ds.reverse (16 - n)
  rw [List.length_reverse, count] at whole
  simp only [appendUint32, zero, if_false, digits, some_bind, turned, whole, DerivationPath.appendUint32, hds]

theorem appendCoin_run (out : Bytes) (v : UInt32) : appendCoin out v = some (Addresses.Address.appendUint32 out v) := by
  by_cases zero : v = 0
  · rw [appendCoin, if_pos zero, Addresses.Address.appendUint32, if_pos zero]
  obtain ⟨n, digits, count, few⟩ := digits_run v
  rw [appendCoin, if_neg zero, digits, some_bind, Addresses.Address.appendUint32, if_neg zero, Descriptors.digitLoop_eq]
  generalize DerivationPath.digitLoop 16 v = ds at count ⊢
  refine forLoop_ends (I := fun i out' => out' = out ++ ds.reverse.take i) (Nat.zero_le n) ?_ (by simp) ?_
  · intro i out' _ hi reached
    obtain ⟨c, read, next⟩ := reversed_load (16 - n) (show i < ds.length by omega)
    have swapped : n - 1 - i = n - i - 1 := by omega
    rw [count, ← swapped] at read
    refine ⟨_, ?_, rfl⟩
    rw [sub_some (by omega), some_bind, sub_some (by omega), some_bind, read, some_bind, reached, next, List.append_assoc]
  · intro out' final
    rw [final, List.take_of_length_le (by rw [List.length_reverse]; omega)]

theorem formatLevels_run (lvls : List AddressIndex) :
    formatLevels lvls = some (DerivationPath.formatLevels lvls) := by
  have each : ∀ out l, appendLevel out l = some (DerivationPath.appendLevel out l) := by
    intro out l
    rw [appendLevel, appendUint32_run, some_bind, DerivationPath.appendLevel]
  rw [formatLevels, DerivationPath.formatLevels]
  generalize [ch 'm'] = out
  induction lvls generalizing out with
  | nil => rfl
  | cons l lvls ih => rw [List.foldlM_cons, each, some_bind, ih, List.foldl_cons]

theorem str_run (dp : DerivationPath) : str dp = some dp.str := by
  cases front : dp.fixedPrefix with
  | none => simp only [str, DerivationPath.str, front, appendUint32_run, formatLevels_run, some_bind, apply_ite some]
  | some pair => simp only [str, DerivationPath.str, front, appendUint32_run, formatLevels_run, some_bind, apply_ite some]

theorem validateDerivationPath_run (dt : DerivationType) {path : Bytes} (fits : path.length < 2 ^ 63) :
    validateDerivationPath dt path = some (Path.validateDerivationPath dt path) := by
  simp only [validateDerivationPath, Path.validateDerivationPath, parseLevels_run fits, some_bind, apply_ite some]
  cases Path.parseLevels path with
  | none => rfl
  | some lvls => simp only [validateLevelsFor_run]

/-- No path makes the parser or the printers leave their arrays, and what comes back is the pure result. -/
theorem paths_defined (dp : DerivationPath) {path : Bytes} (fits : path.length < 2 ^ 63) :
    parseFresh dp path = some (dp.parseFresh path) ∧
      validateDerivationPath dp.type path = some (Path.validateDerivationPath dp.type path) ∧
      populateShortcutsFromLevels dp = some dp.populateShortcutsFromLevels ∧ str dp = some dp.str ∧
      ∀ out v, appendCoin out v = some (Addresses.Address.appendUint32 out v) :=
  ⟨parseFresh_run dp fits, validateDerivationPath_run dp.type fits, populateShortcuts_run dp, str_run dp, appendCoin_run⟩

theorem paths_defined_short :
    parseFresh (.fresh .bip44) (lit "m/44'/60'/0'/0") = some ((DerivationPath.fresh .bip44).parseFresh (lit "m/44'/60'/0'/0")) ∧
      validateDerivationPath .bip44 (lit "m/44'/60'/0'/0") = some (Path.validateDerivationPath .bip44 (lit "m/44'/60'/0'/0")) ∧
      populateShortcutsFromLevels (.fresh .bip44) = some (DerivationPath.fresh .bip44).populateShortcutsFromLevels ∧
      str (.fresh .bip44) = some (DerivationPath.fresh .bip44).str ∧
      ∀ out v, appendCoin out v = some (Addresses.Address.appendUint32 out v) :=
  paths_defined (.fresh .bip44) (by decide)

end Printers

end Mhda.PathMemory
