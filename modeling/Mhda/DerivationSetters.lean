import Mhda.AddressHistory

set_option autoImplicit false

namespace Mhda.DerivationSetters
open Mhda.ByteString Mhda.Errors Mhda.Detail Mhda.DetailFacts Mhda.Catalogue Mhda.Transition
open Mhda.Path Mhda.Addresses Mhda.Template Mhda.PathParse Mhda.PathHistory Mhda.Setters Mhda.AddressHistory

def pathFor (dt : DerivationType) (dp : Bytes) : Except ParseError DerivationPath :=
  if dt = .root then
    if !(trim dp).isEmpty then
      .error ⟨.invalidDerivationPath, lit "root derivation must have empty path, got " ++ quote (trim dp)⟩
    else .ok (DerivationPath.fresh .root)
  else DerivationPath.parse dt (normalize dp)

/-- Whatever a path object holds under its type, setting a text forgets it. -/
def Forgets (p : DerivationPath) : Prop :=
  p.type.isValid = true ∧ (p.type = .root → p = DerivationPath.fresh .root)

theorem valid_ne_empty {dt : DerivationType} (hv : dt.isValid = true) : dt.isEmpty = false := by
  rcases valid_cases hv with rfl | ⟨s, rfl⟩
  · decide
  · exact s.type_ne_empty

theorem setDerivationPath_eq (a : Address) {p : DerivationPath} (h : Forgets p) (dp : Bytes) :
    (Address.setDerivationPath { a with path := some p } dp).result =
      (pathFor p.type dp).map fun q => { a with path := some q } := by
  obtain ⟨valid, forgets⟩ := h
  have named := valid_ne_empty valid
  unfold Address.setDerivationPath pathFor
  simp only [Option.getD_some]
  by_cases root : p.type = .root
  · rw [if_pos (.inl root), if_pos root]
    by_cases full : (!(trim dp).isEmpty) = true
    · rw [if_pos full, if_pos full]
      rfl
    · rw [if_neg full, if_neg full, forgets root]
      rfl
  · have lowered : toLower (trim dp) = normalize dp := rfl
    rw [if_neg (by simp [root, named]), if_neg root, After.result_lift, lowered, parsePath_eq p _ valid,
      After.result_commit]

theorem setDerivationType_eq (a : Address) (dt : Bytes) :
    a.setDerivationType dt =
      if (chosenType dt).isValid then
        .done { a with path := some ((a.path.getD .init).setType (chosenType dt)).state }
      else .throw a ⟨.invalidDerivationType, quote (normalize dt)⟩ := by
  have lowered : toLower (trim dt) = normalize dt := rfl
  have finishes : ∀ {next : DerivationType}, next.isValid = true →
      ((a.path.getD .init).setType next).lift (fun p => { a with path := some p }) =
        .done { a with path := some ((a.path.getD .init).setType next).state } := by
    intro next hv
    unfold DerivationPath.setType
    rw [if_neg (by simp [hv])]
    split <;> rfl
  unfold Address.setDerivationType chosenType
  simp only [lowered]
  cases hn : (normalize dt).isEmpty with
  | true => exact finishes (show DerivationType.root.isValid = true by decide)
  | false =>
    by_cases hv : (DerivationType.mk (normalize dt)).isValid = true
    · simp [hv, finishes hv]
    · simp [hv]

/-- A reachable root path is blank, and every other text replaces the whole path. -/
theorem setType_forgets {p : DerivationPath} (h : Sound p) {dt : DerivationType} (hv : dt.isValid = true) :
    ((p.setType dt).state.type = dt) ∧ Forgets (p.setType dt).state := by
  unfold DerivationPath.setType
  rw [if_neg (by simp [hv])]
  by_cases same : dt = p.type
  · rw [if_pos same]
    refine ⟨same.symm, same ▸ hv, ?_⟩
    rintro root
    rcases h with ⟨old, _, rfl⟩ | ⟨s, levels, _, rfl⟩
    · exact congrArg DerivationPath.fresh root
    · rw [After.done_state, concrete_type] at root
      exact absurd root s.type_ne_root
  · rw [if_neg same]
    exact ⟨rfl, hv, fun root => congrArg DerivationPath.fresh root⟩

theorem init_forgets {dt : DerivationType} (hv : dt.isValid = true) : Forgets (DerivationPath.fresh dt) :=
  ⟨hv, fun root => congrArg DerivationPath.fresh root⟩

theorem setDerivation_eq (a : Address) (dt dp : Bytes) :
    (a.setDerivation dt dp).result =
      if (chosenType dt).isValid then (pathFor (chosenType dt) dp).map fun q => { a with path := some q }
      else .error ⟨.invalidDerivationType, quote (normalize dt)⟩ := by
  have type : (DerivationPath.fresh (chosenType dt)).type = chosenType dt := rfl
  unfold Address.setDerivation
  rw [After.result_commit, init_setDerivationType]
  by_cases hv : (chosenType dt).isValid = true
  · rw [if_pos hv, if_pos hv, After.result_done, ok_bind, setDerivationPath_eq _ (init_forgets hv), type]
    cases pathFor (chosenType dt) dp <;> rfl
  · rw [if_neg hv, if_neg hv]
    rfl

def setBoth (a : Address) (dt dp : Bytes) : Except ParseError Address := do
  let a ← (a.setDerivationType dt).result
  (a.setDerivationPath dp).result

theorem setBoth_eq {a : Address} (h : AddressSound a) (dt dp : Bytes) :
    setBoth a dt dp =
      if (chosenType dt).isValid then (pathFor (chosenType dt) dp).map fun q => { a with path := some q }
      else .error ⟨.invalidDerivationType, quote (normalize dt)⟩ := by
  unfold setBoth
  rw [setDerivationType_eq]
  by_cases hv : (chosenType dt).isValid = true
  · obtain ⟨type, forgets⟩ := setType_forgets (reachable_sound h.attached) hv
    rw [if_pos hv, if_pos hv, After.result_done, ok_bind, setDerivationPath_eq a forgets, type]
  · rw [if_neg hv, if_neg hv]
    rfl

/-- Both routes give the same address or the same exception. -/
theorem setDerivation_eq_setBoth (a : Address) (h : addresses.Reachable a) (dt dp : Bytes) :
    (∀ b, (a.setDerivation dt dp).result = .ok b ↔
      ∃ c, (a.setDerivationType dt).result = .ok c ∧ (c.setDerivationPath dp).result = .ok b) ∧
    (∀ e, (a.setDerivation dt dp).result = .error e → setBoth a dt dp = .error e) ∧
    (∀ e, setBoth a dt dp = .error e → (a.setDerivation dt dp).result = .error e) := by
  have same : setBoth a dt dp = (a.setDerivation dt dp).result := by
    rw [setBoth_eq (reachable_address_sound h), setDerivation_eq]
  refine ⟨?_, fun e he => same.trans he, fun e he => same.symm.trans he⟩
  intro b
  rw [← same]
  exact bind_eq_ok

theorem setDerivation_eq_setBoth_bip44 :
    let a := (Address.init.setDerivation (lit "bip44") (lit "m/44'/60'/7'/1/9")).state
    (∀ b, (a.setDerivation (lit "bip44") (lit "m/44'/60'/0'/0/0")).result = .ok b ↔
      ∃ c, (a.setDerivationType (lit "bip44")).result = .ok c ∧
        (c.setDerivationPath (lit "m/44'/60'/0'/0/0")).result = .ok b) ∧
    (∀ e, (a.setDerivation (lit "bip44") (lit "m/44'/60'/0'/0/0")).result = .error e →
      setBoth a (lit "bip44") (lit "m/44'/60'/0'/0/0") = .error e) ∧
    (∀ e, setBoth a (lit "bip44") (lit "m/44'/60'/0'/0/0") = .error e →
      (a.setDerivation (lit "bip44") (lit "m/44'/60'/0'/0/0")).result = .error e) :=
  setDerivation_eq_setBoth _ (.step (.created .init) (.setDerivation _ _ _)) _ _

end Mhda.DerivationSetters
