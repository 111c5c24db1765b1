import Mhda.PathParse

set_option autoImplicit false

namespace Mhda.PathHistory
open Mhda.ByteString Mhda.Errors Mhda.Catalogue Mhda.Transition Mhda.Path Mhda.Template Mhda.PathParse

inductive Created : DerivationPath → Prop where
  | init : Created .init
  | construct {dt : DerivationType} {coin account charge : UInt32} {index : AddressIndex} {d : DerivationPath}
      (h : DerivationPath.construct dt coin account charge index = .ok d) : Created d
  | fromLevels {dt : DerivationType} {levels : List AddressIndex} {d : DerivationPath}
      (h : DerivationPath.fromLevels dt levels = .ok d) : Created d
  | parse {dt : DerivationType} {path : Bytes} {d : DerivationPath}
      (h : DerivationPath.parse dt path = .ok d) : Created d

/-- A call leaves an object behind also when it throws. -/
inductive Step : DerivationPath → DerivationPath → Prop where
  | setType (d : DerivationPath) (dt : DerivationType) : Step d (d.setType dt).state
  | parsePath (d : DerivationPath) (path : Bytes) : Step d (d.parsePath path).state

def paths : System DerivationPath := ⟨Created, Step⟩

/-- Blank with no type or a registered one, or a path of a scheme. -/
def Sound (d : DerivationPath) : Prop :=
  (∃ dt : DerivationType, (dt.isEmpty = true ∨ dt.isValid = true) ∧ d = DerivationPath.fresh dt) ∨
    ∃ s levels, s.Fits levels ∧ d = concrete s levels

theorem parse_root_eq (path : Bytes) : DerivationPath.parse .root path =
    if !path.isEmpty then
      .error ⟨.invalidDerivationPath, lit "root derivation must have empty path, got " ++ Detail.quote path⟩
    else .ok (DerivationPath.fresh .root) := by
  unfold DerivationPath.parse DerivationPath.parsePath
  rw [After.result_commit]
  rfl

theorem parse_root (path : Bytes) (d : DerivationPath) :
    DerivationPath.parse .root path = .ok d ↔ path = [] ∧ d = DerivationPath.fresh .root := by
  rw [parse_root_eq]
  cases path with
  | nil => simp [eq_comm]
  | cons c path => simp

theorem parse_valid {dt : DerivationType} {path : Bytes} {d : DerivationPath}
    (h : DerivationPath.parse dt path = .ok d) : dt.isValid = true := by
  unfold DerivationPath.parse at h
  split at h
  · cases h
  · rename_i hv
    simpa using hv

theorem parse_sound {dt : DerivationType} {path : Bytes} {d : DerivationPath}
    (h : DerivationPath.parse dt path = .ok d) : Sound d := by
  rcases valid_cases (parse_valid h) with rfl | ⟨s, rfl⟩
  · exact .inl ⟨.root, .inr (by decide), ((parse_root _ _).mp h).2⟩
  · obtain ⟨fits, same⟩ := parse_fits h
    exact .inr ⟨s, d.levels, fits, same⟩

theorem reparsed_sound {dp d : DerivationPath} {levels : List AddressIndex}
    (h : dp.reparsed levels = .ok d) : Sound d := parse_sound (reparsed_eq_ok.mp h).1

theorem construct_sound {dt : DerivationType} {coin account charge : UInt32} {index : AddressIndex}
    {d : DerivationPath} (h : DerivationPath.construct dt coin account charge index = .ok d) : Sound d := by
  unfold DerivationPath.construct at h
  split at h
  · cases h
  · split at h
    · cases h
    · simp only at h
      generalize hr : DerivationPath.reparsed _ _ = r at h
      cases r with
      | error e => cases h
      | ok out =>
        obtain rfl := Except.ok.inj h
        exact reparsed_sound hr

theorem fromLevels_sound {dt : DerivationType} {levels : List AddressIndex} {d : DerivationPath}
    (h : DerivationPath.fromLevels dt levels = .ok d) : Sound d :=
  reparsed_sound (guard_eq_ok.mp h).2

theorem created_sound (d : DerivationPath) (h : Created d) : Sound d := by
  cases h with
  | init => exact .inl ⟨⟨[]⟩, .inl rfl, rfl⟩
  | construct h => exact construct_sound h
  | fromLevels h => exact fromLevels_sound h
  | parse h => exact parse_sound h

theorem setType_sound {d : DerivationPath} (h : Sound d) (dt : DerivationType) :
    Sound (d.setType dt).state := by
  unfold DerivationPath.setType
  split_ifs with invalid same
  · exact h
  · exact h
  · exact .inl ⟨dt, .inr (by simpa using invalid), rfl⟩

theorem parsePath_eq (d : DerivationPath) (path : Bytes) (hv : d.type.isValid = true) :
    d.parsePath path = .commit d (DerivationPath.parse d.type path) := by
  unfold DerivationPath.parse
  rw [if_neg (by simp [hv])]
  unfold DerivationPath.parsePath
  rw [After.result_commit]
  rfl

theorem parsePath_invalid (d : DerivationPath) (path : Bytes) (hv : d.type.isValid = false) :
    d.parsePath path = .throw d ⟨.invalidDerivationType, Detail.quote d.type.value⟩ := by
  unfold DerivationPath.parsePath DerivationPath.parseFresh
  rw [if_pos (by simp [DerivationPath.fresh, hv])]
  rfl

theorem parsePath_sound {d : DerivationPath} (h : Sound d) (path : Bytes) :
    Sound (d.parsePath path).state := by
  cases hv : d.type.isValid with
  | false =>
    rw [parsePath_invalid d path hv]
    exact h
  | true =>
    rw [parsePath_eq d path hv]
    rcases After.commit_state d (DerivationPath.parse d.type path) with same | parsed
    · rw [same]
      exact h
    · exact parse_sound parsed

theorem step_sound (d d' : DerivationPath) (h : Sound d) (call : Step d d') : Sound d' := by
  cases call with
  | setType dt => exact setType_sound h dt
  | parsePath path => exact parsePath_sound h path

theorem reachable_sound {d : DerivationPath} (h : paths.Reachable d) : Sound d :=
  h.invariant Sound created_sound step_sound

section Representation

def Blank (d : DerivationPath) : Prop :=
  d.levels = [] ∧ d.str = [] ∧ d.hasIndex = false ∧ d.coin = 0 ∧ d.account = 0 ∧ d.charge = 0 ∧
    d.index = ⟨0, false⟩

def indexAt (d : DerivationPath) (i : ℕ) : Option UInt32 := d.levels[i]?.map AddressIndex.index

/-- The shortcuts are the entries of the levels; a missing fourth level of `zip32` clears `index`. -/
def ShortcutsMatch (d : DerivationPath) : Prop :=
  if d.type = .bip32 then
    indexAt d 0 = some d.account ∧ indexAt d 1 = some d.charge ∧ d.levels[2]? = some d.index ∧
      d.hasIndex = true
  else if d.type = .zip32 then
    indexAt d 1 = some d.coin ∧ indexAt d 2 = some d.account ∧
      d.levels[3]? = (if d.hasIndex then some d.index else none) ∧
      (d.hasIndex = false → d.index = ⟨0, false⟩)
  else
    indexAt d 1 = some d.coin ∧ indexAt d 2 = some d.account ∧ indexAt d 3 = some d.charge ∧
      d.levels[4]? = some d.index ∧ d.hasIndex = true

/-- A path is held, and both copies of it agree. -/
def Held (d : DerivationPath) : Prop :=
  d.type.isValid = true ∧ d.type ≠ .root ∧ (∀ l ∈ d.levels, l.index.toNat < 2 ^ 31) ∧
    d.str = renderPath d.levels ∧ DerivationPath.parse d.type d.str = .ok d ∧
    (d.type ≠ .slip10 → ShortcutsMatch d)

theorem fresh_blank (dt : DerivationType) : Blank (DerivationPath.fresh dt) :=
  ⟨rfl, rfl, rfl, rfl, rfl, rfl, rfl⟩

theorem shortcuts_five {d : DerivationPath} {a b c e : AddressIndex}
    (ht : d.type ≠ .bip32 ∧ d.type ≠ .zip32) (hl : d.levels = [a, b, c, e, d.index])
    (hf : d.coin = b.index ∧ d.account = c.index ∧ d.charge = e.index ∧ d.hasIndex = true) :
    ShortcutsMatch d := by
  obtain ⟨hcoin, haccount, hcharge, hindex⟩ := hf
  unfold ShortcutsMatch indexAt
  rw [if_neg ht.1, if_neg ht.2, hl, hcoin, haccount, hcharge]
  exact ⟨rfl, rfl, rfl, rfl, hindex⟩

theorem concrete_shortcuts {s : Scheme} {levels : List AddressIndex} (h : Shape s levels)
    (hs : s.type ≠ .slip10) : ShortcutsMatch (concrete s levels) := by
  cases h with
  | bip32 =>
    unfold ShortcutsMatch
    rw [concrete_type, if_pos (show Scheme.bip32.type = .bip32 from rfl)]
    exact ⟨rfl, rfl, rfl, rfl⟩
  | family h =>
    cases s <;> cases h <;> exact shortcuts_five (by rw [concrete_type]; decide) rfl ⟨rfl, rfl, rfl, rfl⟩
  | slip10 => exact absurd rfl hs
  | cip11 => exact shortcuts_five (by rw [concrete_type]; decide) rfl ⟨rfl, rfl, rfl, rfl⟩
  | cip1852 => exact shortcuts_five (by rw [concrete_type]; decide) rfl ⟨rfl, rfl, rfl, rfl⟩
  | zip32 =>
    unfold ShortcutsMatch
    rw [concrete_type, if_neg (by decide), if_pos (show Scheme.zip32.type = .zip32 from rfl)]
    exact ⟨rfl, rfl, rfl, fun _ => rfl⟩
  | zip32Index =>
    unfold ShortcutsMatch
    rw [concrete_type, if_neg (by decide), if_pos (show Scheme.zip32.type = .zip32 from rfl)]
    exact ⟨rfl, rfl, rfl, fun h => absurd (show true = false from h) (by decide)⟩

theorem concrete_held {s : Scheme} {levels : List AddressIndex} (h : s.Fits levels) :
    Held (concrete s levels) := by
  unfold Held
  rw [concrete_type, concrete_levels]
  refine ⟨s.type_valid, s.type_ne_root, h.2, str_concrete h, parse_str h, ?_⟩
  exact concrete_shortcuts (Fits.shape h)

theorem blank_not_held {d : DerivationPath} (hb : Blank d) : ¬ Held d := by
  intro hh
  have same := hh.2.2.2.1
  rw [hb.2.1, renderPath] at same
  cases same

theorem sound_representation {d : DerivationPath} (h : Sound d) : Xor (Blank d) (Held d) := by
  rcases h with ⟨dt, _, rfl⟩ | ⟨s, levels, fits, rfl⟩
  · exact .inl ⟨fresh_blank dt, blank_not_held (fresh_blank dt)⟩
  · have held := concrete_held fits
    exact .inr ⟨held, fun hb => blank_not_held hb held⟩

/-- Every object a caller can hold is blank or holds a path, and parsing forgets what it held. -/
theorem reachable_representation (d : DerivationPath) (h : paths.Reachable d) :
    Xor (Blank d) (Held d) ∧
      ∀ (d' : DerivationPath) (path : Bytes), paths.Reachable d' → d'.type = d.type →
        (d.parsePath path).thrown = none → d'.parsePath path = d.parsePath path := by
  refine ⟨sound_representation (reachable_sound h), ?_⟩
  intro d' path _ ht hp
  unfold DerivationPath.parsePath at hp ⊢
  rw [ht]
  cases hr : (DerivationPath.fresh d.type).parseFresh path with
  | error e =>
    rw [hr] at hp
    cases hp
  | ok out => rfl

def secondParse : DerivationPath :=
  ((((DerivationPath.init.setType .bip44).state.parsePath (lit "m/44'/60'/7'/1/9")).state).parsePath
    (lit "m/44h/60H/0'/0/3")).state

theorem secondParse_reachable : paths.Reachable secondParse :=
  .step (.step (.step (.created .init) (.setType _ _)) (.parsePath _ _)) (.parsePath _ _)

theorem secondParse_representation : Xor (Blank secondParse) (Held secondParse) ∧
    ∀ (d' : DerivationPath) (path : Bytes), paths.Reachable d' → d'.type = secondParse.type →
      (secondParse.parsePath path).thrown = none → d'.parsePath path = secondParse.parsePath path :=
  reachable_representation secondParse secondParse_reachable

end Representation

section Levels

/-- The template of a type: nothing for root, the layouts of the scheme otherwise. -/
def TypeFits (dt : DerivationType) (levels : List AddressIndex) : Prop :=
  (dt = .root ∧ levels = []) ∨ ∃ s : Scheme, dt = s.type ∧ s.Fits levels

theorem typeFits_scheme (s : Scheme) (levels : List AddressIndex) : TypeFits s.type levels ↔ s.Fits levels := by
  constructor
  · rintro (⟨hr, _⟩ | ⟨t, ht, fits⟩)
    · exact absurd hr s.type_ne_root
    · rw [Scheme.type_injective ht]
      exact fits
  · intro h
    exact .inr ⟨s, rfl, h⟩

theorem typeFits_root (levels : List AddressIndex) : TypeFits .root levels ↔ levels = [] := by
  constructor
  · rintro (⟨_, h⟩ | ⟨s, hs, _⟩)
    · exact h
    · exact absurd hs.symm s.type_ne_root
  · intro h
    exact .inl ⟨rfl, h⟩

theorem fromLevels_root (levels : List AddressIndex) (d : DerivationPath) :
    DerivationPath.fromLevels .root levels = .ok d ↔ levels = [] ∧ d = DerivationPath.fresh .root := by
  have blank : ({ DerivationPath.fresh .root with levels := levels }.populateShortcutsFromLevels).str = [] := by
    cases levels <;> rfl
  unfold DerivationPath.fromLevels
  rw [if_neg (by decide)]
  simp only
  rw [reparsed_eq_ok, (populate_frame _).1, (populate_frame _).2, blank]
  constructor
  · rintro ⟨hp, hl⟩
    obtain ⟨_, rfl⟩ := (parse_root _ _).mp hp
    exact ⟨hl.symm, rfl⟩
  · rintro ⟨rfl, rfl⟩
    exact ⟨(parse_root _ _).mpr ⟨rfl, rfl⟩, rfl⟩

theorem fromLevels_eq_ok {dt : DerivationType} (hv : dt.isValid = true) (levels : List AddressIndex)
    (d : DerivationPath) (h : DerivationPath.fromLevels dt levels = .ok d) :
    TypeFits dt levels ∧ d.levels = levels := by
  rcases valid_cases hv with rfl | ⟨s, rfl⟩
  · obtain ⟨rfl, rfl⟩ := (fromLevels_root _ _).mp h
    exact ⟨(typeFits_root _).mpr rfl, rfl⟩
  · obtain ⟨fits, rfl⟩ := (fromLevels_scheme _ _ _).mp h
    exact ⟨(typeFits_scheme _ _).mpr fits, concrete_levels _ _⟩

theorem parse_valid_error {dt : DerivationType} (hv : dt.isValid = true) (path : Bytes) {e : ParseError}
    (h : DerivationPath.parse dt path = .error e) : e.code = .invalidDerivationPath := by
  rcases valid_cases hv with rfl | ⟨s, rfl⟩
  · rw [parse_root_eq] at h
    split at h
    · rw [← Except.error.inj h]
    · cases h
  · exact parse_error s path h

theorem reparsed_error {dp : DerivationPath} (hv : dp.type.isValid = true) (levels : List AddressIndex)
    {e : ParseError} (h : dp.reparsed levels = .error e) : e.code = .invalidDerivationPath := by
  unfold DerivationPath.reparsed at h
  cases hp : DerivationPath.parse dp.type dp.str with
  | error e' =>
    rw [hp, error_bind] at h
    rw [← Except.error.inj h]
    exact parse_valid_error hv _ hp
  | ok out =>
    rw [hp, ok_bind] at h
    split at h
    · rw [← Except.error.inj h]
    · cases h

theorem fromLevels_error {dt : DerivationType} (hv : dt.isValid = true) (levels : List AddressIndex)
    {e : ParseError} (h : DerivationPath.fromLevels dt levels = .error e) : e.code = .invalidDerivationPath := by
  unfold DerivationPath.fromLevels at h
  rw [if_neg (by simp [hv])] at h
  refine reparsed_error ?_ _ h
  rw [(populate_frame _).2]
  exact hv

/-- `from_levels` accepts exactly the levels of the type's template and inverts `levels()`. -/
theorem fromLevels_inverse (dt : DerivationType) (hv : dt.isValid = true) :
    (∀ levels, (∃ d, DerivationPath.fromLevels dt levels = .ok d) ↔ TypeFits dt levels) ∧
    (∀ levels e, DerivationPath.fromLevels dt levels = .error e → e.code = .invalidDerivationPath) ∧
    (∀ levels d, DerivationPath.fromLevels dt levels = .ok d → d.levels = levels) ∧
    (∀ path d, DerivationPath.parse dt path = .ok d → DerivationPath.fromLevels dt d.levels = .ok d) := by
  refine ⟨?_, fun levels e h => fromLevels_error hv levels h,
    fun levels d h => (fromLevels_eq_ok hv levels d h).2, ?_⟩
  · intro levels
    constructor
    · rintro ⟨d, h⟩
      exact (fromLevels_eq_ok hv levels d h).1
    · intro h
      rcases h with ⟨rfl, rfl⟩ | ⟨s, rfl, fits⟩
      · exact ⟨_, (fromLevels_root _ _).mpr ⟨rfl, rfl⟩⟩
      · exact ⟨_, (fromLevels_scheme _ _ _).mpr ⟨fits, rfl⟩⟩
  · intro path d h
    rcases valid_cases hv with rfl | ⟨s, rfl⟩
    · obtain ⟨_, rfl⟩ := (parse_root _ _).mp h
      exact (fromLevels_root _ _).mpr ⟨rfl, rfl⟩
    · exact (fromLevels_scheme _ _ _).mpr (parse_fits h)

theorem fromLevels_inverse_zip32 :
    (∀ levels, (∃ d, DerivationPath.fromLevels .zip32 levels = .ok d) ↔ TypeFits .zip32 levels) ∧
    (∀ levels e, DerivationPath.fromLevels .zip32 levels = .error e → e.code = .invalidDerivationPath) ∧
    (∀ levels d, DerivationPath.fromLevels .zip32 levels = .ok d → d.levels = levels) ∧
    (∀ path d, DerivationPath.parse .zip32 path = .ok d → DerivationPath.fromLevels .zip32 d.levels = .ok d) :=
  fromLevels_inverse .zip32 (by decide)

end Levels

end Mhda.PathHistory
