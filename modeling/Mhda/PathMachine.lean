import Mhda.Atomicity
import Mhda.PathGrammar
import Mhda.Refinement

set_option autoImplicit false

/-!
# The path object as a machine

Seen from outside, a path object is in one of four kinds of state: it has no
type, it is root, it waits for a path of its scheme, or it holds one. The class
implements this machine, and its objects are the states of it.
-/
namespace Mhda.PathMachine
open Mhda.ByteString Mhda.Errors Mhda.Catalogue Mhda.Transition Mhda.Transition.After Mhda.Path Mhda.Template
open Mhda.PathText Mhda.PathParse Mhda.PathHistory Mhda.PathGrammar Mhda.Atomicity Mhda.Refinement

inductive PathState where
  | typeless
  | root
  | pending (s : Scheme)
  | held (p : HdPath)

namespace PathState

def type : PathState → DerivationType
  | typeless => ⟨[]⟩
  | root => .root
  | pending s => s.type
  | held p => p.scheme.type

def object : PathState → DerivationPath
  | typeless => .init
  | root => .fresh .root
  | pending s => .fresh s.type
  | held p => p.toDerivationPath

@[simp] theorem object_type (st : PathState) : st.object.type = st.type := by
  cases st with
  | held p => exact concrete_type _ _
  | _ => rfl

theorem blank_ne_type (s : Scheme) : DerivationType.mk [] ≠ s.type := by
  cases s <;> decide

theorem object_injective : Function.Injective object := by
  intro st st' h
  have types : st.type = st'.type := by
    rw [← object_type, h, object_type]
  have levels := congrArg DerivationPath.levels h
  cases st <;> cases st'
  case typeless.typeless | root.root => rfl
  case pending.pending s s' => rw [Scheme.type_injective types]
  case held.held p p' =>
    obtain ⟨s, ls, fits⟩ := p
    obtain ⟨s', ls', fits'⟩ := p'
    obtain rfl : s = s' := Scheme.type_injective types
    obtain rfl : ls = ls' := by simpa [object, HdPath.toDerivationPath] using levels
    rfl
  case typeless.root | root.typeless => exact absurd types (by decide)
  case typeless.pending s | typeless.held s => exact absurd types (blank_ne_type _)
  case pending.typeless s | held.typeless s => exact absurd types.symm (blank_ne_type _)
  case root.pending s | root.held s => exact absurd types.symm (Scheme.type_ne_root _)
  case pending.root s | held.root s => exact absurd types (Scheme.type_ne_root _)
  case pending.held s p => exact absurd ((concrete_levels _ _).symm.trans levels.symm) p.fits.ne_nil
  case held.pending p s => exact absurd ((concrete_levels _ _).symm.trans levels) p.fits.ne_nil

end PathState

/-- Where each call leads, and the code it reports when it is refused. -/
inductive Moves : PathCall → PathState → PathState → Option ErrorCode → Prop where
  | sameType {st : PathState} (h : st.type.isValid = true) : Moves (.setType st.type) st st none
  | newRoot {st : PathState} (h : st.type ≠ .root) : Moves (.setType .root) st .root none
  | newScheme {st : PathState} {s : Scheme} (h : st.type ≠ s.type) : Moves (.setType s.type) st (.pending s) none
  | unknownType {st : PathState} {dt : DerivationType} (h : dt.isValid = false) :
      Moves (.setType dt) st st (some .invalidDerivationType)
  | noType {path : Bytes} : Moves (.parsePath path) .typeless .typeless (some .invalidDerivationType)
  | emptyRoot : Moves (.parsePath []) .root .root none
  | read {st : PathState} {p : HdPath} {path : Bytes} (h : st.type = p.scheme.type)
      (spelled : Grammar st.type path p.levels) : Moves (.parsePath path) st (.held p) none
  | refuse {st : PathState} {path : Bytes} (h : st.type.isValid = true)
      (misspelled : ∀ levels, ¬ Grammar st.type path levels) :
      Moves (.parsePath path) st st (some .invalidDerivationPath)

section Steps

theorem type_valid_or (st : PathState) : st = .typeless ∨ st.type.isValid = true := by
  cases st with
  | typeless => exact .inl rfl
  | root => exact .inr (by decide)
  | pending s => exact .inr s.type_valid
  | held p => exact .inr p.scheme.type_valid

theorem setType_new {st : PathState} {dt : DerivationType} (valid : dt.isValid = true) (h : st.type ≠ dt) :
    st.object.setType dt = .done (.fresh dt) := by
  unfold DerivationPath.setType
  rw [if_neg (by simp [valid]), if_neg (by rw [PathState.object_type]; exact h.symm)]

theorem parsePath_object {st : PathState} (valid : st.type.isValid = true) (path : Bytes) :
    st.object.parsePath path = .commit st.object (DerivationPath.parse st.type path) := by
  rw [parsePath_eq _ _ (by rw [PathState.object_type]; exact valid), PathState.object_type]

theorem parse_held {p : HdPath} {path : Bytes} (spelled : Grammar p.scheme.type path p.levels) :
    DerivationPath.parse p.scheme.type path = .ok (PathState.held p).object := by
  obtain ⟨d, parsed, levels⟩ := (parse_grammar _ _ _).mpr spelled
  rw [parsed, (parse_fits parsed).2, levels]
  rfl

theorem moves_total (call : PathCall) (st : PathState) : ∃ st' r, Moves call st st' r := by
  cases call with
  | setType dt =>
    cases valid : dt.isValid with
    | false => exact ⟨_, _, .unknownType valid⟩
    | true =>
      by_cases same : st.type = dt
      · subst same
        exact ⟨_, _, .sameType valid⟩
      · rcases valid_cases valid with rfl | ⟨s, rfl⟩
        · exact ⟨_, _, .newRoot same⟩
        · exact ⟨_, _, .newScheme same⟩
  | parsePath path =>
    rcases type_valid_or st with rfl | valid
    · exact ⟨_, _, .noType⟩
    · by_cases spelled : ∃ levels, Grammar st.type path levels
      · obtain ⟨levels, hl⟩ := spelled
        rcases valid_cases valid with root | ⟨s, scheme⟩
        · rw [root] at hl
          cases hl
          cases st with
          | root => exact ⟨_, _, .emptyRoot⟩
          | typeless => exact absurd root (by decide)
          | pending s => exact absurd root s.type_ne_root
          | held p => exact absurd root p.scheme.type_ne_root
        · have hs := hl
          rw [scheme] at hs
          obtain ⟨d, parsed, rfl⟩ := (parse_grammar _ _ _).mpr hs
          exact ⟨_, _, .read (p := ⟨s, d.levels, (parse_fits parsed).1⟩) scheme hl⟩
      · exact ⟨_, _, .refuse valid fun levels hl => spelled ⟨levels, hl⟩⟩

theorem moves_step (call : PathCall) (st st' : PathState) (r : Option ErrorCode) (h : Moves call st st' r) :
    (call.run st.object).state = st'.object ∧ (call.run st.object).thrown.map ParseError.code = r := by
  cases h with
  | sameType valid =>
    have same : st.object.setType st.type = .done st.object := by
      unfold DerivationPath.setType
      rw [if_neg (by simp [valid]), if_pos (PathState.object_type st).symm]
    rw [PathCall.run, same]
    exact ⟨rfl, rfl⟩
  | newRoot other =>
    rw [PathCall.run, setType_new (by decide) other]
    exact ⟨rfl, rfl⟩
  | @newScheme _ s other =>
    rw [PathCall.run, setType_new s.type_valid other]
    exact ⟨rfl, rfl⟩
  | unknownType invalid =>
    rw [PathCall.run, DerivationPath.setType, if_pos (by simp [invalid])]
    exact ⟨rfl, rfl⟩
  | noType =>
    rw [PathCall.run, parsePath_invalid _ _ rfl]
    exact ⟨rfl, rfl⟩
  | emptyRoot => exact ⟨rfl, rfl⟩
  | @read _ p path type spelled =>
    have valid : st.type.isValid = true := type ▸ p.scheme.type_valid
    rw [PathCall.run, parsePath_object valid, type, parse_held (type ▸ spelled)]
    exact ⟨rfl, rfl⟩
  | @refuse _ path valid misspelled =>
    rw [PathCall.run, parsePath_object valid]
    cases parsed : DerivationPath.parse st.type path with
    | ok d => exact absurd ((parse_grammar _ _ _).mp ⟨d, parsed, rfl⟩) (misspelled _)
    | error e => exact ⟨rfl, congrArg some (parse_valid_error valid path parsed)⟩

theorem path_implements : Implements PathCall.run PathState.object ParseError.code Moves :=
  ⟨PathState.object_injective, moves_total, moves_step⟩

end Steps

section Objects

theorem sound_object {d : DerivationPath} (h : Sound d) : ∃ st : PathState, st.object = d := by
  rcases h with ⟨dt, type, rfl⟩ | ⟨s, levels, fits, rfl⟩
  · rcases type with empty | valid
    · obtain ⟨value⟩ := dt
      obtain rfl : value = [] := List.isEmpty_iff.mp empty
      exact ⟨.typeless, rfl⟩
    · rcases valid_cases valid with rfl | ⟨s, rfl⟩
      · exact ⟨.root, rfl⟩
      · exact ⟨.pending s, rfl⟩
  · exact ⟨.held ⟨s, levels, fits⟩, rfl⟩

def callsFor : PathState → List PathCall
  | .typeless => []
  | .root => [.setType .root]
  | .pending s => [.setType s.type]
  | .held p => [.setType p.scheme.type, .parsePath p.text]

theorem callsFor_object (st : PathState) : replay PathCall.run (callsFor st) .init = st.object := by
  have fresh : ∀ s : Scheme, DerivationPath.init.setType s.type = .done (.fresh s.type) := by
    intro s
    have typed : (PathState.typeless.object.setType s.type) = .done (.fresh s.type) :=
      setType_new s.type_valid (PathState.blank_ne_type s)
    exact typed
  cases st with
  | typeless => rfl
  | root => rfl
  | pending s =>
    change (DerivationPath.init.setType s.type).state = _
    rw [fresh]
    rfl
  | held p =>
    change ((DerivationPath.init.setType p.scheme.type).state.parsePath p.text).state = _
    rw [fresh]
    change ((PathState.pending p.scheme).object.parsePath (renderPath p.levels)).state = _
    rw [parsePath_object (show (PathState.pending p.scheme).type.isValid = true from p.scheme.type_valid)]
    change (After.commit _ (DerivationPath.parse p.scheme.type (renderPath p.levels))).state = _
    rw [parse_renderPath p.fits]
    rfl

theorem replay_paths {d : DerivationPath} (h : paths.Reachable d) (calls : List PathCall) :
    paths.Reachable (replay PathCall.run calls d) := by
  induction calls generalizing d with
  | nil => exact h
  | cons call calls ih =>
    refine ih (.step h ?_)
    cases call with
    | setType dt => exact .setType d dt
    | parsePath path => exact .parsePath d path

theorem object_reachable (st : PathState) : paths.Reachable st.object := by
  rw [← callsFor_object st]
  exact replay_paths (.created .init) _

/-- A path object is a state of the machine, its two mutating calls reach all of them from the
    default-constructed one, and every run of calls is a run of the machine. -/
theorem path_object_machine (d : DerivationPath) :
    (paths.Reachable d ↔ ∃! st : PathState, st.object = d) ∧
    (paths.Reachable d ↔ ∃ calls, replay PathCall.run calls .init = d) ∧
    ∀ (st st' : PathState) (calls : List PathCall) (rs : List (Option ErrorCode)),
      Runs Moves calls st st' rs ↔ replay PathCall.run calls st.object = st'.object ∧
        reports PathCall.run ParseError.code calls st.object = rs := by
  have reached : (∃ calls, replay PathCall.run calls .init = d) → paths.Reachable d := by
    rintro ⟨calls, rfl⟩
    exact replay_paths (.created .init) calls
  have built : (∃ st : PathState, st.object = d) → ∃ calls, replay PathCall.run calls .init = d := by
    rintro ⟨st, rfl⟩
    exact ⟨callsFor st, callsFor_object st⟩
  refine ⟨⟨?_, ?_⟩, ⟨?_, reached⟩, fun st st' calls rs => path_implements.runs_iff calls st st' rs⟩
  · intro h
    obtain ⟨st, rfl⟩ := sound_object (reachable_sound h)
    exact ⟨st, rfl, fun st' same => PathState.object_injective same⟩
  · rintro ⟨st, rfl, _⟩
    exact object_reachable st
  · exact fun h => built (sound_object (reachable_sound h))

end Objects

end Mhda.PathMachine
