import Mhda.Decoding
import Mhda.Quoting

set_option autoImplicit false

namespace Mhda.ErrorCodes
open Mhda.ByteString Mhda.Errors Mhda.Detail Mhda.DetailFacts Mhda.Catalogue Mhda.Nss Mhda.Transition
open Mhda.Chains Mhda.Path Mhda.Addresses Mhda.Parser Mhda.Template Mhda.PathParse Mhda.PathHistory
open Mhda.Setters Mhda.Quoting

def CodeIn (codes : List ErrorCode) (e : ParseError) : Prop := e.code ∈ codes

instance (codes : List ErrorCode) (e : ParseError) : Decidable (CodeIn codes e) :=
  inferInstanceAs (Decidable (e.code ∈ codes))

section Message

theorem printable_message (code : ErrorCode) : Printable (errorMessage code) := by
  cases code <;> decide +kernel

theorem printable_what (code : ErrorCode) {detail : Bytes} (h : Printable detail) :
    Printable (ParseError.mk code detail).what := by
  have separator : Printable (lit ": ") := by decide +kernel
  have message := printable_message code
  unfold ParseError.what compose
  split
  · exact message
  · exact (message.append separator).append h

end Message

/-- One of the codes, with a message that is fit to be logged. -/
def Raised (codes : List ErrorCode) (e : ParseError) : Prop := CodeIn codes e ∧ Printable e.what

section Raised
variable {codes : List ErrorCode}

theorem Raised.mono {codes' : List ErrorCode} (h : codes ⊆ codes') (e : ParseError) :
    Raised codes e → Raised codes' e := fun he => ⟨h he.1, he.2⟩

theorem raised {code : ErrorCode} {detail : Bytes} (h : Printable detail) (hc : code ∈ codes) :
    Raised codes ⟨code, detail⟩ := ⟨hc, printable_what code h⟩

theorem raised_bare {code : ErrorCode} (hc : code ∈ codes) : Raised codes (.bare code) :=
  raised printable_nil hc

theorem raised_quote {code : ErrorCode} (s : Bytes) (hc : code ∈ codes) : Raised codes ⟨code, quote s⟩ :=
  raised (printable_quote s) hc

theorem guard_fails {σ : Type} (P : Prop) [Decidable P] (s t : σ) {e : ParseError} (h : Raised codes e) :
    Fails (Raised codes) (if P then After.done s else After.throw t e : After σ ParseError).result := by
  split
  · exact fails_ok _ _
  · exact fails_error h

end Raised

theorem setAddressAlgorithm_fails (a : Address) (aa : Bytes) :
    Fails (Raised [.invalidAlgorithm]) (a.setAddressAlgorithm aa).result := by
  rw [setAddressAlgorithm_eq]
  exact guard_fails _ _ _ (raised_quote _ (by simp))

theorem setAddressFormat_fails (a : Address) (af : Bytes) :
    Fails (Raised [.invalidFormat]) (a.setAddressFormat af).result := by
  rw [setAddressFormat_eq]
  exact guard_fails _ _ _ (raised_quote _ (by simp))

theorem validateFreeFormValue_fails (component v : Bytes) :
    Fails (Raised [.invalidValue]) (validateFreeFormValue component v) := by
  have between : Printable (lit " for ") := by decide +kernel
  unfold validateFreeFormValue
  split
  · exact fails_ok _ _
  · exact fails_error (raised (((printable_quote v).append between).append (printable_quote component)) (by simp))

theorem setFreeForm_fails (component : Bytes) (put : Bytes → Address) (a : Address) (v : Bytes) :
    Fails (Raised [.invalidValue]) (Address.setFreeForm component put a v).result := by
  have checked := validateFreeFormValue_fails component (trim v)
  unfold Address.setFreeForm
  split
  · rename_i e he
    exact fails_error (checked e he)
  · exact fails_ok _ _

theorem setNetwork_fails (c : Chain) (nt : NetworkType) :
    Fails (Raised [.invalidNetworkType]) (c.setNetwork nt).result := by
  rw [setNetwork_eq]
  exact guard_fails _ _ _ (raised_quote _ (by simp))

theorem setChainId_fails (c : Chain) (ci : Bytes) :
    Fails (Raised [.missingChainId, .invalidValue]) (c.setChainId ci).result := by
  have checked := validateFreeFormValue_fails compChainId (trim ci)
  unfold Chain.setChainId
  simp only
  split
  · exact fails_error (raised_bare (by simp))
  · split
    · rename_i e he
      exact fails_error ((checked e he).mono (by simp))
    · exact fails_ok _ _

/-- The codes a component map can be refused with. -/
def decodeCodes : List ErrorCode :=
  [.missingNetworkType, .invalidNetworkType, .missingChainId, .invalidValue, .invalidCoinType,
    .invalidDerivationType, .invalidDerivationPath, .invalidAlgorithm, .invalidFormat]

theorem construct_fails (nt : NetworkType) (ci : Bytes) :
    Fails (Raised [.invalidNetworkType, .missingChainId, .invalidValue]) (Chain.construct nt ci) := by
  unfold Chain.construct
  refine ((setNetwork_fails _ _).mono (Raised.mono (by decide))).bind fun c => ?_
  exact (setChainId_fails c ci).mono (Raised.mono (by decide))

theorem buildChain_fails (m : Components) : Fails (Raised decodeCodes) (Chain.buildChain m) := by
  unfold Chain.buildChain
  simp only
  split
  · exact fails_error (raised_bare (by decide))
  · split
    · exact fails_error (raised_bare (by decide))
    · split
      · exact fails_error (raised_quote _ (by decide))
      · split
        · exact fails_error (raised_bare (by decide))
        · split
          · exact fails_error (raised_bare (by decide))
          · refine ((construct_fails _ _).mono (Raised.mono (by decide))).bind fun c => ?_
            split
            · exact fails_ok _ _
            · split
              · exact fails_error (raised_quote _ (by decide))
              · exact fails_ok _ _

section Paths

def pathCodes : List ErrorCode := [.invalidDerivationType, .invalidDerivationPath]

theorem raised_root (path : Bytes) : Raised pathCodes
    ⟨.invalidDerivationPath, lit "root derivation must have empty path, got " ++ quote path⟩ := by
  have said : Printable (lit "root derivation must have empty path, got ") := by decide +kernel
  exact raised (said.append (printable_quote path)) (by decide)

theorem parseFresh_fails (d : DerivationPath) (path : Bytes) : Fails (Raised pathCodes) (d.parseFresh path) := by
  unfold DerivationPath.parseFresh
  refine fails_guard (raised_quote _ (by decide)) ?_
  split
  · exact fails_guard (raised_root path) (fails_ok _ _)
  · split
    · exact fails_error (raised_quote _ (by decide))
    · simp only
      split_ifs
      all_goals first
        | exact fails_ok _ _
        | exact fails_error (raised_quote _ (by decide))

theorem parsePath_fails (d : DerivationPath) (path : Bytes) :
    Fails (Raised pathCodes) (d.parsePath path).result := by
  unfold DerivationPath.parsePath
  rw [After.result_commit]
  exact parseFresh_fails _ path

theorem parse_fails (dt : DerivationType) (path : Bytes) :
    Fails (Raised pathCodes) (DerivationPath.parse dt path) :=
  fails_guard (raised_quote _ (by decide)) (parsePath_fails _ path)

theorem setType_fails (d : DerivationPath) (dt : DerivationType) :
    Fails (Raised pathCodes) (d.setType dt).result := by
  unfold DerivationPath.setType
  split_ifs
  · exact fails_error (raised_quote _ (by decide))
  · exact fails_ok _ _
  · exact fails_ok _ _

theorem setDerivationType_fails (a : Address) (dt : Bytes) :
    Fails (Raised pathCodes) (a.setDerivationType dt).result := by
  unfold Address.setDerivationType
  simp only
  split
  · exact fails_error (raised_quote _ (by decide))
  · rw [After.result_lift]
    exact (setType_fails _ _).map _

theorem setDerivationPath_fails (a : Address) (dp : Bytes) :
    Fails (Raised pathCodes) (a.setDerivationPath dp).result := by
  unfold Address.setDerivationPath
  simp only
  split
  · split
    · exact fails_error (raised_root _)
    · exact fails_ok _ _
  · rw [After.result_lift]
    exact (parsePath_fails _ _).map _

theorem setDerivation_fails (a : Address) (dt dp : Bytes) :
    Fails (Raised pathCodes) (a.setDerivation dt dp).result := by
  unfold Address.setDerivation
  rw [After.result_commit]
  refine (setDerivationType_fails _ dt).bind fun scratch => ?_
  exact (setDerivationPath_fails scratch dp).bind fun scratch => fails_ok _ _

end Paths

theorem parseAddressFromComponents_fails (m : Components) :
    Fails (Raised decodeCodes) (parseAddressFromComponents m) := by
  have freeForm : ∀ component put a v, Fails (Raised decodeCodes) (Address.setFreeForm component put a v).result :=
    fun component put a v => (setFreeForm_fails component put a v).mono (Raised.mono (by decide))
  unfold parseAddressFromComponents
  refine (buildChain_fails m).bind fun chain => ?_
  refine ((setDerivation_fails _ _ _).mono (Raised.mono (by decide))).bind fun a => ?_
  refine ((setAddressAlgorithm_fails _ _).mono (Raised.mono (by decide))).bind fun a => ?_
  refine ((setAddressFormat_fails _ _).mono (Raised.mono (by decide))).bind fun a => ?_
  refine (freeForm _ _ _ _).bind fun a => ?_
  refine (freeForm _ _ _ _).bind fun a => ?_
  refine (freeForm _ _ _ _).bind fun a => ?_
  exact freeForm _ _ _ _

end Mhda.ErrorCodes
