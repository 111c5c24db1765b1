import Mhda.Decoding

set_option autoImplicit false

/-!
# Entry points of a path text

A URN and the address setters fold the case of the text before it is parsed;
the parser alone does not. Folding is visible in the first byte only.
-/
namespace Mhda.EntryPoints
open Mhda.ByteString Mhda.Detail Mhda.DetailFacts Mhda.Catalogue Mhda.Nss Mhda.KeyValue Mhda.NssTokens
open Mhda.Chains Mhda.Path Mhda.Addresses Mhda.Parser Mhda.Template Mhda.PathParse Mhda.Setters Mhda.Descriptors
open Mhda.Decoding

section Folding

theorem lower_marker (c : Byte) : isHardeningMarker (asciiLower c) = isHardeningMarker c := by
  revert c
  apply forall_byte
  decide +kernel

theorem lower_digit (c : Byte) : digitOf 10 (asciiLower c) = digitOf 10 c := by
  revert c
  apply forall_byte
  decide +kernel

theorem lower_zero (c : Byte) : (some (asciiLower c) != some (ch '0')) = (some c != some (ch '0')) := by
  revert c
  apply forall_byte
  decide +kernel

theorem lower_eq_slash (c : Byte) : asciiLower c = ch '/' ↔ c = ch '/' := by
  revert c
  apply forall_byte
  decide +kernel

theorem lower_eq_m (c : Byte) : asciiLower c = ch 'm' ↔ c = ch 'm' ∨ c = ch 'M' := by
  revert c
  apply forall_byte
  decide +kernel

theorem parseInBaseLoop_lower (acc : UInt64) (s : Bytes) :
    parseInBaseLoop 10 acc (toLower s) = parseInBaseLoop 10 acc s := by
  induction s generalizing acc with
  | nil => rfl
  | cons c s ih =>
    have head : toLower (c :: s) = asciiLower c :: toLower s := rfl
    simp only [head, parseInBaseLoop, lower_digit, ih]

theorem parseUint31Dec_lower (s : Bytes) : parseUint31Dec (toLower s) = parseUint31Dec s := by
  unfold parseUint31Dec parseInBase
  rw [toLower_isEmpty, parseInBaseLoop_lower]

theorem parseSegment_lower (seg : Bytes) : parseSegment (toLower seg) = parseSegment seg := by
  have marker : (toLower seg).getLast?.any isHardeningMarker = seg.getLast?.any isHardeningMarker := by
    rw [toLower, List.getLast?_map]
    cases seg.getLast? with
    | none => rfl
    | some c => exact lower_marker c
  have digits : ∀ s : Bytes, ((toLower s).length == 1 || (toLower s).head? != some (ch '0')) =
      (s.length == 1 || s.head? != some (ch '0')) := by
    intro s
    have len : (toLower s).length = s.length := List.length_map _
    rw [len]
    cases s with
    | nil => rfl
    | cons c s =>
      have head : (toLower (c :: s)).head? = some (asciiLower c) := rfl
      rw [head, lower_zero, List.head?_cons]
  unfold parseSegment
  rw [marker]
  cases seg.getLast?.any isHardeningMarker with
  | false =>
    simp only [Bool.false_eq_true, if_false, parseUint31Dec_lower, digits]
  | true =>
    have front : (toLower seg).dropLast = toLower seg.dropLast := List.map_dropLast.symm
    simp only [if_true, front, parseUint31Dec_lower, digits]

theorem splitOn_lower (s : Bytes) : split (toLower s) (ch '/') = (split s (ch '/')).map toLower := by
  unfold split
  induction s with
  | nil => rfl
  | cons c s ih =>
    have head : toLower (c :: s) = asciiLower c :: toLower s := rfl
    rw [head, List.splitOn_cons_eq_if_modifyHead, List.splitOn_cons_eq_if_modifyHead, ih]
    by_cases hc : c = ch '/'
    · have hl := (lower_eq_slash c).mpr hc
      rw [if_pos (beq_iff_eq.mpr hl), if_pos (beq_iff_eq.mpr hc)]
      rfl
    · have hl := mt (lower_eq_slash c).mp hc
      rw [if_neg (mt beq_iff_eq.mp hl), if_neg (mt beq_iff_eq.mp hc)]
      cases List.splitOn (ch '/') s <;> rfl

theorem splitPath_lower {path : Bytes} (h : path.head? ≠ some (ch 'M')) :
    splitPath (toLower path) = (splitPath path).map (List.map toLower) := by
  match path with
  | [] => rfl
  | c :: rest =>
    have notCapital : c ≠ ch 'M' := by
      intro hc
      exact h (congrArg some hc)
    have start : asciiLower c = ch 'm' ↔ c = ch 'm' := by
      rw [lower_eq_m]
      simp [notCapital]
    by_cases hc : c = ch 'm'
    · subst hc
      match rest with
      | [] => rfl
      | d :: rest =>
        have text : toLower (ch 'm' :: d :: rest) = ch 'm' :: asciiLower d :: toLower rest := rfl
        have slash := lower_eq_slash d
        rw [text]
        unfold splitPath
        simp only [ne_eq, not_true_eq_false, if_false, slash, toLower_isEmpty, splitOn_lower]
        by_cases hd : d = ch '/'
        · have empties : ((split rest (ch '/')).map toLower).any List.isEmpty =
              (split rest (ch '/')).any List.isEmpty := by
            rw [List.any_map]
            congr 1
            funext t
            exact toLower_isEmpty t
          simp only [hd, not_true_eq_false, if_false, empties]
          cases rest.isEmpty <;> cases (split rest (ch '/')).any List.isEmpty <;> rfl
        · simp [hd]
    · have text : toLower (c :: rest) = asciiLower c :: toLower rest := rfl
      rw [text]
      unfold splitPath
      simp [start, hc]

theorem mapM_lower (segs : List Bytes) : (segs.map toLower).mapM parseSegment = segs.mapM parseSegment := by
  induction segs with
  | nil => rfl
  | cons seg segs ih =>
    rw [List.map_cons, List.mapM_cons, List.mapM_cons, parseSegment_lower, ih]

theorem parseLevels_lower {path : Bytes} (h : path.head? ≠ some (ch 'M')) :
    parseLevels (toLower path) = parseLevels path := by
  unfold parseLevels
  rw [splitPath_lower h]
  cases splitPath path with
  | none => rfl
  | some segs => exact mapM_lower segs

end Folding

section Routes

theorem parse_toOption (s : Scheme) (path : Bytes) :
    (DerivationPath.parse s.type path).toOption =
      ((parseLevels path).filter (validateLevelsFor s.type)).map fun raws =>
        concrete s (raws.map RawLevel.level) := by
  rw [parse_scheme, parseFresh_scheme]
  cases (parseLevels path).filter (validateLevelsFor s.type) <;> rfl

theorem validateDerivationPath_eq (s : Scheme) (path : Bytes) :
    validateDerivationPath s.type path = (DerivationPath.parse s.type path).toOption.isSome := by
  rw [parse_toOption]
  unfold validateDerivationPath
  rw [if_neg (by simp [s.type_valid]), if_neg s.type_ne_root]
  cases parseLevels path with
  | none => rfl
  | some raws => cases hv : validateLevelsFor s.type raws <;> simp [hv]

def urnWithPath (dt : DerivationType) (p : Bytes) : Bytes :=
  lit "urn:mhda:nt:evm:ci:1:dt:" ++ dt.value ++ lit ":dp:" ++ p

def pairsWithPath (dt : DerivationType) (p : Bytes) : Components :=
  [(compNetworkType, lit "evm"), (compChainId, lit "1"), (compDerivationType, dt.value), (compDerivationPath, p)]

theorem urnWithPath_eq (dt : DerivationType) (p : Bytes) :
    urnWithPath dt p = prefixMhda ++ joinPairs (ch ':') (pairsWithPath dt p) := by
  have front : lit "urn:mhda:nt:evm:ci:1:dt:" =
      prefixMhda ++ (compNetworkType ++ ch ':' :: lit "evm") ++ (ch ':' :: compChainId ++ ch ':' :: lit "1") ++
        ch ':' :: compDerivationType ++ [ch ':'] := rfl
  have mid : lit ":dp:" = ch ':' :: compDerivationPath ++ [ch ':'] := rfl
  rw [urnWithPath, pairsWithPath, joinPairs_cons, front, mid]
  simp [emitPairs]

theorem pairsWithPath_wellFormed {dt : DerivationType} (hv : dt.isValid = true) {p : Bytes} (hp : Token p) :
    WellFormed (pairsWithPath dt p) := by
  have name := (type_name hv).1
  have keys : ∀ k ∈ [compNetworkType, compChainId, compDerivationType, compDerivationPath], Known k := by decide +kernel
  have distinct : [compNetworkType, compChainId, compDerivationType, compDerivationPath].Nodup := by decide
  have values : Token (lit "evm") ∧ Token (lit "1") := by decide +kernel
  have keyed : ∀ q ∈ pairsWithPath dt p, Known q.1 := fun q hq => keys q.1 (List.mem_map_of_mem hq)
  refine (wellFormed_iff_tokens keyed distinct).mpr ?_
  simp only [pairsWithPath, List.forall_mem_cons]
  exact ⟨values.1, values.2, name, hp, List.forall_mem_nil _⟩

theorem chosenType_value {dt : DerivationType} (hv : dt.isValid = true) : chosenType dt.value = dt := by
  obtain ⟨token, lower⟩ := type_name hv
  have full : dt.value.isEmpty = false := List.isEmpty_eq_false_iff.mpr token.1
  unfold chosenType
  rw [token.2.normalize, lower, full]
  rfl

theorem toOption_map_eq {α β γ ε : Type} {x : Except ε α} {y : Except ε β} {f : α → γ} {g : β → γ}
    (h : ∀ c, (∃ a, x = .ok a ∧ f a = c) ↔ ∃ b, y = .ok b ∧ g b = c) :
    x.toOption.map f = y.toOption.map g := by
  apply Option.ext
  intro c
  have hx : x.toOption.map f = some c ↔ ∃ a, x = .ok a ∧ f a = c := by
    cases x <;> simp [Except.toOption]
  have hy : y.toOption.map g = some c ↔ ∃ b, y = .ok b ∧ g b = c := by
    cases y <;> simp [Except.toOption]
  rw [hx, hy, h c]

theorem urn_route {dt : DerivationType} (hv : dt.isValid = true) {p : Bytes} (hp : Token p) :
    (parseUrn (urnWithPath dt p)).toOption.map Address.path =
      (DerivationPath.parse dt (toLower p)).toOption.map some := by
  have hw := pairsWithPath_wellFormed hv hp
  have wholeMap : known (pairsWithPath dt p) = pairsWithPath dt p := rfl
  have chain : Chain.buildChain (pairsWithPath dt p) = .ok ⟨.ethereumVm, lit "1", none⟩ := rfl
  have components : parseUrn (urnWithPath dt p) = parseAddressFromComponents (pairsWithPath dt p) := by
    rw [urnWithPath_eq, parseUrn_plain hw.plain, parseAddressNss, parseNssMap_wellFormed hw, wholeMap]
    rfl
  have typeText : Parser.get (pairsWithPath dt p) compDerivationType = dt.value := rfl
  have pathText : Parser.get (pairsWithPath dt p) compDerivationPath = p := rfl
  have unset : NssText (trim []) := by decide +kernel
  rw [components]
  apply toOption_map_eq
  intro r
  simp only [parseAddressFromComponents_eq_ok, chain, typeText, pathText, chosenType_value hv, hp.2.normalize]
  constructor
  · rintro ⟨a, ⟨c, q, _, hq, _, _, _, _, _, _, rfl⟩, rfl⟩
    exact ⟨q, hq, rfl⟩
  · rintro ⟨q, hq, rfl⟩
    exact ⟨_, ⟨_, q, rfl, hq, .inl rfl, .inl rfl, unset, unset, unset, unset, rfl⟩, rfl⟩

theorem setter_route {dt : DerivationType} (hv : dt.isValid = true) {p : Bytes} (hp : Token p) (a : Address) :
    (a.setDerivation dt.value p).result.toOption.map Address.path =
      (DerivationPath.parse dt (toLower p)).toOption.map some := by
  apply toOption_map_eq
  intro r
  simp only [setDerivation_eq_ok, chosenType_value hv, hp.2.normalize]
  constructor
  · rintro ⟨b, ⟨q, hq, rfl⟩, rfl⟩
    exact ⟨q, hq, rfl⟩
  · rintro ⟨q, hq, rfl⟩
    exact ⟨_, ⟨q, hq, rfl⟩, rfl⟩

theorem parse_capital (s : Scheme) {path : Bytes} (h : path.head? = some (ch 'M')) :
    (DerivationPath.parse s.type path).toOption = none := by
  cases path with
  | nil => cases h
  | cons c rest =>
    obtain rfl := Option.some.inj h
    have refused : parseLevels (ch 'M' :: rest) = none := rfl
    rw [parse_toOption, refused]
    rfl

/-- The four entry points accept the same and give the same path. -/
def FourAgree (dt : DerivationType) (p : Bytes) (a : Address) : Prop :=
  validateDerivationPath dt p = (DerivationPath.parse dt p).toOption.isSome ∧
  (parseUrn (urnWithPath dt p)).toOption.map Address.path = (DerivationPath.parse dt p).toOption.map some ∧
  (a.setDerivation dt.value p).result.toOption.map Address.path = (DerivationPath.parse dt p).toOption.map some

theorem fourAgree_iff_folded (s : Scheme) {p : Bytes} (hp : Token p) (a : Address) :
    FourAgree s.type p a ↔
      (DerivationPath.parse s.type (toLower p)).toOption = (DerivationPath.parse s.type p).toOption := by
  unfold FourAgree
  rw [urn_route s.type_valid hp, setter_route s.type_valid hp a,
    (Option.map_injective (Option.some_injective _)).eq_iff]
  exact ⟨fun h => h.2.1, fun h => ⟨validateDerivationPath_eq s p, h, h⟩⟩

theorem folded_iff (s : Scheme) (path : Bytes) :
    (DerivationPath.parse s.type (toLower path)).toOption = (DerivationPath.parse s.type path).toOption ↔
      ¬ (path.head? = some (ch 'M') ∧ (DerivationPath.parse s.type (toLower path)).toOption.isSome = true) := by
  by_cases capital : path.head? = some (ch 'M')
  · rw [parse_capital s capital]
    simp [capital]
  · refine iff_of_true ?_ fun h => capital h.1
    rw [parse_toOption, parse_toOption, parseLevels_lower capital]

/-- The URN and the setter read the folded text, the other two the text as it is, and the four
    differ exactly on the paths that are written with a capital `M`. -/
theorem entry_points_agree (dt : DerivationType) (hv : dt.isValid = true) (hr : dt ≠ .root) (p : Bytes)
    (hp : Token p) (a : Address) :
    validateDerivationPath dt p = (DerivationPath.parse dt p).toOption.isSome ∧
    (parseUrn (urnWithPath dt p)).toOption.map Address.path =
      (DerivationPath.parse dt (toLower p)).toOption.map some ∧
    (a.setDerivation dt.value p).result.toOption.map Address.path =
      (DerivationPath.parse dt (toLower p)).toOption.map some ∧
    (p.head? = some (ch 'M') → (DerivationPath.parse dt p).toOption = none) ∧
    (FourAgree dt p a ↔
      ¬ (p.head? = some (ch 'M') ∧ (DerivationPath.parse dt (toLower p)).toOption.isSome = true)) := by
  rcases valid_cases hv with rfl | ⟨s, rfl⟩
  · exact absurd rfl hr
  · exact ⟨validateDerivationPath_eq s p, urn_route hv hp, setter_route hv hp a, parse_capital s,
      (fourAgree_iff_folded s hp a).trans (folded_iff s p)⟩

/-- A capital `M` that starts no path is refused by all four. -/
theorem entry_points_agree_refused :
    validateDerivationPath .bip44 (lit "M//") = (DerivationPath.parse .bip44 (lit "M//")).toOption.isSome ∧
    (parseUrn (urnWithPath .bip44 (lit "M//"))).toOption.map Address.path =
      (DerivationPath.parse .bip44 (toLower (lit "M//"))).toOption.map some ∧
    (Address.init.setDerivation DerivationType.bip44.value (lit "M//")).result.toOption.map Address.path =
      (DerivationPath.parse .bip44 (toLower (lit "M//"))).toOption.map some ∧
    ((lit "M//").head? = some (ch 'M') → (DerivationPath.parse .bip44 (lit "M//")).toOption = none) ∧
    (FourAgree .bip44 (lit "M//") .init ↔ ¬ ((lit "M//").head? = some (ch 'M') ∧
      (DerivationPath.parse .bip44 (toLower (lit "M//"))).toOption.isSome = true)) :=
  entry_points_agree .bip44 (by decide +kernel) (by decide +kernel) (lit "M//") (by decide +kernel) .init

/-- A capital `M` is refused by the parser and accepted inside a URN and by the setter. -/
theorem capital_path_disagrees :
    Token (lit "M/44'/60'/0'/0/0") ∧
    (DerivationPath.parse .bip44 (lit "M/44'/60'/0'/0/0")).toOption = none ∧
    validateDerivationPath .bip44 (lit "M/44'/60'/0'/0/0") = false ∧
    (parseUrn (urnWithPath .bip44 (lit "M/44'/60'/0'/0/0"))).toOption.isSome = true ∧
    (Address.init.setDerivation (lit "bip44") (lit "M/44'/60'/0'/0/0")).result.toOption.isSome = true := by
  refine ⟨by decide +kernel, rfl, rfl, rfl, rfl⟩

end Routes

end Mhda.EntryPoints
