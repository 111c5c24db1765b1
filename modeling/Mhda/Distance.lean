import Mhda.AddressMachine
import Mhda.EntryPoints

set_option autoImplicit false

namespace Mhda.Distance
open Mhda.ByteString Mhda.Errors Mhda.Detail Mhda.DetailFacts Mhda.Catalogue Mhda.Transition Mhda.Transition.After
open Mhda.Path Mhda.Addresses Mhda.Template Mhda.PathParse Mhda.PathHistory Mhda.PathGrammar Mhda.Setters
open Mhda.Descriptors Mhda.EntryPoints Mhda.AddressHistory Mhda.Atomicity Mhda.Interleaving Mhda.PathMachine
open Mhda.Cells Mhda.AddressMachine

instance (i : Part) : DecidableEq i.Value :=
  match i with
  | .network => inferInstanceAs (DecidableEq NetworkType)
  | .coin => inferInstanceAs (DecidableEq (Option UInt32))
  | .path => inferInstanceAs (DecidableEq (Option DerivationPath))
  | .algorithm => inferInstanceAs (DecidableEq Algorithm)
  | .format => inferInstanceAs (DecidableEq Format)
  | .chainId | .addressPrefix | .addressSuffix | .walletType | .walletId => inferInstanceAs (DecidableEq Bytes)

/-- A call that is not the assignment of a whole path. -/
def IsSetter : Call → Prop
  | .assignPath _ => False
  | _ => True

/-- No path, one without a type, one with a type. -/
def stage : Option DerivationPath → ℕ
  | none => 0
  | some p => if p.type.isEmpty then 1 else 2

/-- What setters keep of a part. -/
def Kept : (i : Part) → i.Value → i.Value → Prop
  | .network, v, w => NetworkType.isEmpty w = true → NetworkType.isEmpty v = true
  | .chainId, v, w => List.isEmpty w = true → List.isEmpty v = true
  | .path, v, w => stage v ≤ stage w
  | _, _, _ => True

/-- The type stays and the levels go. -/
def dropsLevels (a b : Address) : Bool :=
  match a.path, b.path with
  | some p, some q => p.type == q.type && !p.levels.isEmpty && q.levels.isEmpty
  | _, _ => false

/-- A type that is set again keeps its path, so dropping the levels alone takes a detour. -/
def cost (a b : Address) (i : Part) : ℕ :=
  if i.get a = i.get b then 0 else if i = .path ∧ dropsLevels a b then 2 else 1

def distance (a b : Address) : ℕ := (Part.all.map (cost a b)).sum

section Kept

def stageOf : Option PathState → ℕ
  | none => 0
  | some .typeless => 1
  | some _ => 2

theorem stage_object (x : Option PathState) : stage (x.map PathState.object) = stageOf x := by
  cases x with
  | none => rfl
  | some p =>
    have type := PathState.object_type p
    cases p with
    | typeless => rfl
    | root => rfl
    | pending s => rw [Option.map_some, stage, type, PathState.type, s.type_ne_empty]; rfl
    | held p => rw [Option.map_some, stage, type, PathState.type, p.scheme.type_ne_empty]; rfl

theorem stageOf_le (x : Option PathState) : stageOf x ≤ 2 := by
  cases x with
  | none => exact Nat.zero_le 2
  | some p => cases p <;> simp [stageOf]

variable {st st' : AddressState} {r : Option ErrorCode}

theorem attached_stage : stageOf st.path ≤ stageOf (some st.attached) := by
  unfold AddressState.attached
  cases st.path with
  | none => exact Nat.zero_le _
  | some p => exact le_rfl

theorem path_moves_stage {call : PathCall} {p p' : PathState} (h : PathMachine.Moves call p p' r) :
    stageOf (some p) ≤ stageOf (some p') := by
  cases h with
  | newRoot | newScheme | read => exact stageOf_le _
  | _ => exact le_rfl

theorem setType_stage {dt : DerivationType} {p p' : PathState} (h : PathMachine.Moves (.setType dt) p p' none) :
    stageOf (some p') = 2 := by
  cases h with
  | sameType valid =>
    cases p with
    | typeless => exact absurd valid (by decide)
    | _ => rfl
  | newRoot => rfl
  | newScheme => rfl

theorem moves_network {call : Call} (h : AddressMachine.Moves call st st' r) (missing : st'.network = none) :
    st.network = none := by
  cases h with
  | network => cases missing
  | _ => exact missing

theorem moves_chainId {call : Call} (h : AddressMachine.Moves call st st' r) (missing : st'.chainId = none) :
    st.chainId = none := by
  cases h with
  | chainId => cases missing
  | _ => exact missing

theorem moves_stage {call : Call} (h : AddressMachine.Moves call st st' r) (setter : IsSetter call) :
    stageOf st.path ≤ stageOf st'.path := by
  cases h with
  | onPath present move =>
    rw [present]
    exact path_moves_stage move
  | assignPath => exact setter.elim
  | type move =>
    exact (stageOf_le st.path).trans_eq (setType_stage move).symm
  | emptyPath | rootedPath => exact attached_stage
  | pathText _ _ move => exact attached_stage.trans (path_moves_stage move)
  | root | derivation => exact stageOf_le st.path
  | _ => exact le_rfl

theorem kept_network :
    Kept .network (Part.network.get st.object) (Part.network.get st'.object) ↔ (st'.network = none → st.network = none) := by
  have unset : ∀ st : AddressState, st.object.chain.network.isEmpty = true ↔ st.network = none := by
    intro st
    change (st.network.elim (⟨[]⟩ : NetworkType) (·.1)).isEmpty = true ↔ st.network = none
    cases st.network with
    | none => exact ⟨fun _ => rfl, fun _ => rfl⟩
    | some nt =>
      have named : nt.1.isEmpty = false := network_nonempty nt.2
      simp [named]
  change (st'.object.chain.network.isEmpty = true → st.object.chain.network.isEmpty = true) ↔ _
  rw [unset, unset]

theorem kept_chainId :
    Kept .chainId (Part.chainId.get st.object) (Part.chainId.get st'.object) ↔ (st'.chainId = none → st.chainId = none) := by
  have unset : ∀ st : AddressState, st.object.chain.chainId.isEmpty = true ↔ st.chainId = none := by
    intro st
    change (st.chainId.elim ([] : Bytes) (·.1)).isEmpty = true ↔ st.chainId = none
    cases st.chainId with
    | none => exact ⟨fun _ => rfl, fun _ => rfl⟩
    | some ci => simp [ci.2.1]
  change (st'.object.chain.chainId.isEmpty = true → st.object.chain.chainId.isEmpty = true) ↔ _
  rw [unset, unset]

theorem kept_path :
    Kept .path (Part.path.get st.object) (Part.path.get st'.object) ↔ stageOf st.path ≤ stageOf st'.path := by
  change stage (st.path.map PathState.object) ≤ stage (st'.path.map PathState.object) ↔ _
  rw [stage_object, stage_object]

theorem kept_trans {i : Part} {u v w : i.Value} (h : Kept i u v) (h' : Kept i v w) : Kept i u w := by
  cases i with
  | network | chainId => exact fun missing => h (h' missing)
  | path => exact le_trans h h'
  | _ => trivial

theorem kept_refl (i : Part) (v : i.Value) : Kept i v v := by
  cases i with
  | network | chainId => exact id
  | path => exact le_rfl
  | _ => trivial

theorem moves_kept {call : Call} (h : AddressMachine.Moves call st st' r) (setter : IsSetter call) (i : Part) :
    Kept i (i.get st.object) (i.get st'.object) := by
  cases i with
  | network => exact kept_network.mpr (moves_network h)
  | chainId => exact kept_chainId.mpr (moves_chainId h)
  | path => exact kept_path.mpr (moves_stage h setter)
  | _ => trivial

theorem replay_kept (calls : List Call) (setters : ∀ call ∈ calls, IsSetter call) (st : AddressState) :
    ∃ st' : AddressState, replay Call.run calls st.object = st'.object ∧
      ∀ i : Part, Kept i (i.get st.object) (i.get st'.object) := by
  induction calls generalizing st with
  | nil => exact ⟨st, rfl, fun i => kept_refl i _⟩
  | cons call calls ih =>
    obtain ⟨mid, r, move⟩ := moves_total call st
    obtain ⟨state, _⟩ := moves_step call st mid r move
    obtain ⟨st', final, kept⟩ := ih (fun call hc => setters call (List.mem_cons_of_mem _ hc)) mid
    refine ⟨st', ?_, fun i => kept_trans (moves_kept move (setters call (List.mem_cons_self ..)) i) (kept i)⟩
    rw [← final, ← state]
    rfl

end Kept

section Detour

variable {st st' : AddressState} {r : Option ErrorCode}

theorem levels_empty_iff (p : PathState) : p.object.levels.isEmpty = false ↔ ∃ q, p = .held q := by
  cases p with
  | held q => simp [PathState.object, HdPath.toDerivationPath, q.fits.ne_nil]
  | _ => simp [PathState.object, DerivationPath.fresh, DerivationPath.init]

theorem dropsLevels_iff :
    dropsLevels st.object st'.object = true ↔
      ∃ p : HdPath, st.path = some (.held p) ∧ st'.path = some (.pending p.scheme) := by
  have paths : ∀ st : AddressState, st.object.path = st.path.map PathState.object := fun _ => rfl
  unfold dropsLevels
  rw [paths, paths]
  cases st.path with
  | none => simp
  | some x =>
    cases st'.path with
    | none => simp
    | some y =>
      have holds := levels_empty_iff x
      have lacks := levels_empty_iff y
      simp only [Option.map_some, Option.some.injEq, PathState.object_type]
      constructor
      · intro h
        simp only [Bool.and_eq_true, beq_iff_eq, Bool.not_eq_true'] at h
        obtain ⟨⟨types, some_levels⟩, no_levels⟩ := h
        obtain ⟨p, rfl⟩ := holds.mp some_levels
        refine ⟨p, rfl, ?_⟩
        cases y with
        | typeless => exact absurd types.symm (PathState.blank_ne_type _)
        | root => exact absurd types p.scheme.type_ne_root
        | pending s => rw [Scheme.type_injective types]
        | held q =>
          rw [lacks.mpr ⟨q, rfl⟩] at no_levels
          cases no_levels
      · rintro ⟨p, rfl, rfl⟩
        have full := holds.mpr ⟨p, rfl⟩
        simp only [full, PathState.type]
        simp [PathState.object, DerivationPath.fresh]

theorem path_moves_levels {call : PathCall} {p : HdPath} {p' : PathState}
    (h : PathMachine.Moves call (.held p) p' r) : p' ≠ .pending p.scheme := by
  rintro rfl
  cases h with
  | newScheme other => exact other rfl

/-- No single setter drops the levels of a path and keeps its type. -/
theorem moves_levels {call : Call} {p : HdPath} (h : AddressMachine.Moves call st st' r) (setter : IsSetter call)
    (held : st.path = some (.held p)) : st'.path ≠ some (.pending p.scheme) := by
  have attached : st.attached = .held p := by
    rw [AddressState.attached, held]
    rfl
  intro dropped
  cases h with
  | onPath present move =>
    rw [held] at present
    cases present
    exact path_moves_levels move (Option.some.inj dropped)
  | assignPath => exact setter
  | type move =>
    rw [attached] at move
    exact path_moves_levels move (Option.some.inj dropped)
  | pathText _ _ move =>
    rw [attached] at move
    exact path_moves_levels move (Option.some.inj dropped)
  | emptyPath rooted => simp [attached] at rooted
  | rootedPath rooted => simp [attached] at rooted
  | root | derivation => cases dropped
  | _ =>
    rw [held] at dropped
    cases dropped

end Detour

section Calls

variable {st st' : AddressState}

theorem held_call (st : AddressState) (p : HdPath) :
    AddressMachine.Moves (.setDerivation p.scheme.type.value p.text) st { st with path := some (.held p) } none := by
  have type := chosenType_value p.scheme.type_valid
  have text : normalize p.text = p.text := by
    rw [HdPath.text, (renderPath_token p.levels).2.normalize, renderPath_lower]
  refine .derivation type ?_
  rw [type, text]
  exact (parse_grammar _ _ _).mp ⟨_, parse_renderPath p.fits, concrete_levels _ _⟩

theorem pending_call {st : AddressState} {s : Scheme} (other : st.attached.type ≠ s.type) :
    AddressMachine.Moves (.setDerivationType s.type.value) st { st with path := some (.pending s) } none := by
  refine .type ?_
  rw [chosenType_value s.type_valid]
  exact .newScheme other

theorem root_call (st : AddressState) :
    AddressMachine.Moves (.setDerivation [] []) st { st with path := some .root } none := .root rfl rfl

theorem path_call (kept : stageOf st.path ≤ stageOf st'.path) (differ : st.path ≠ st'.path)
    (direct : ¬ ∃ p : HdPath, st.path = some (.held p) ∧ st'.path = some (.pending p.scheme)) :
    ∃ call : Call, IsSetter call ∧ call.part = .path ∧
      AddressMachine.Moves call st { st with path := st'.path } none := by
  cases target : st'.path with
  | none =>
    rw [target] at kept differ
    cases present : st.path with
    | none => exact absurd present differ
    | some p =>
      rw [present] at kept
      cases p <;> cases kept
  | some q =>
    cases q with
    | typeless =>
      rw [target] at kept differ
      have missing : st.path = none := by
        cases present : st.path with
        | none => rfl
        | some p =>
          rw [present] at kept differ
          cases p with
          | typeless => exact absurd rfl differ
          | _ => exact absurd kept (Nat.not_succ_le_self 1)
      refine ⟨.setDerivationPath [], trivial, rfl, ?_⟩
      have attached : st.attached = .typeless := by
        rw [AddressState.attached, missing]
        rfl
      have move : AddressMachine.Moves (.setDerivationPath []) st { st with path := some st.attached } none :=
        .emptyPath (.inl attached) rfl
      rwa [attached] at move
    | root => exact ⟨.setDerivation [] [], trivial, rfl, root_call st⟩
    | held p => exact ⟨.setDerivation _ _, trivial, rfl, held_call st p⟩
    | pending s =>
      refine ⟨.setDerivationType _, trivial, rfl, pending_call ?_⟩
      intro same
      rw [AddressState.attached] at same
      cases present : st.path with
      | none =>
        rw [present] at same
        exact PathState.blank_ne_type s same
      | some p =>
        rw [present] at same
        cases p with
        | typeless => exact PathState.blank_ne_type s same
        | root => exact s.type_ne_root same.symm
        | pending s' => exact differ (by rw [present, target, Scheme.type_injective same])
        | held p => exact direct ⟨p, present, by rw [target, Scheme.type_injective same]⟩

theorem one_call {i : Part} (kept : Kept i (i.get st.object) (i.get st'.object))
    (differ : i.get st.object ≠ i.get st'.object) (direct : ¬ (i = .path ∧ dropsLevels st.object st'.object = true)) :
    ∃ call : Call, IsSetter call ∧ call.part = i ∧ i.get (call.run st.object).state = i.get st'.object := by
  have follow : ∀ {call : Call} {mid : AddressState}, AddressMachine.Moves call st mid none → IsSetter call →
      call.part = i → i.get mid.object = i.get st'.object →
      ∃ call : Call, IsSetter call ∧ call.part = i ∧ i.get (call.run st.object).state = i.get st'.object := by
    intro call mid move setter own made
    exact ⟨call, setter, own, by rw [(moves_step _ _ _ _ move).1, made]⟩
  have stored : ∀ {v : Bytes}, NssText v → NssText (trim v) := by
    intro v text
    rw [text.trim]
    exact text
  cases i with
  | network =>
    cases target : st'.network with
    | none =>
      have missing := kept_network.mp kept target
      refine absurd ?_ differ
      change st.network.elim _ _ = st'.network.elim _ _
      rw [missing, target]
    | some nt =>
      refine follow (.network nt.2) trivial rfl ?_
      change nt.1 = st'.network.elim _ _
      rw [target]
      rfl
  | chainId =>
    cases target : st'.chainId with
    | none =>
      have missing := kept_chainId.mp kept target
      refine absurd ?_ differ
      change st.chainId.elim _ _ = st'.chainId.elim _ _
      rw [missing, target]
    | some ci =>
      have same : trim ci.1 = ci.1 := ci.2.2.trim
      have token : Token (trim ci.1) := by
        rw [same]
        exact ci.2
      refine follow (.chainId token) trivial rfl ?_
      change trim ci.1 = st'.chainId.elim _ _
      rw [target]
      exact same
  | coin =>
    cases target : st'.coin with
    | none =>
      exact follow .noCoin trivial rfl target.symm
    | some ct => exact follow .coin trivial rfl target.symm
  | path =>
    obtain ⟨call, setter, own, move⟩ := path_call (kept_path.mp kept)
      (fun same => differ (congrArg (Option.map PathState.object) same))
      (fun dropped => direct ⟨rfl, dropsLevels_iff.mpr dropped⟩)
    exact follow move setter own rfl
  | algorithm =>
    obtain ⟨token, lower⟩ := algorithmOk_text st'.algorithm.2
    have same : normalize st'.algorithm.1.value = st'.algorithm.1.value := by rw [token.normalize, lower]
    have ok : AlgorithmOk ⟨normalize st'.algorithm.1.value⟩ := by
      rw [same]
      exact st'.algorithm.2
    exact follow (.algorithm ok) trivial rfl (congrArg Algorithm.mk same)
  | format =>
    obtain ⟨token, lower⟩ := formatOk_text st'.format.2
    have same : normalize st'.format.1.value = st'.format.1.value := by rw [token.normalize, lower]
    have ok : FormatOk ⟨normalize st'.format.1.value⟩ := by
      rw [same]
      exact st'.format.2
    exact follow (.format ok) trivial rfl (congrArg Format.mk same)
  | addressPrefix => exact follow (.addressPrefix (stored st'.addressPrefix.2)) trivial rfl st'.addressPrefix.2.trim
  | addressSuffix => exact follow (.addressSuffix (stored st'.addressSuffix.2)) trivial rfl st'.addressSuffix.2.trim
  | walletType => exact follow (.walletType (stored st'.walletType.2)) trivial rfl st'.walletType.2.trim
  | walletId => exact follow (.walletId (stored st'.walletId.2)) trivial rfl st'.walletId.2.trim

theorem two_calls {p : HdPath} (dropped : st'.path = some (.pending p.scheme)) :
    Part.path.get (replay Call.run [.setDerivation [] [], .setDerivationType p.scheme.type.value] st.object) =
      Part.path.get st'.object := by
  have away := (moves_step _ _ _ _ (root_call st)).1
  have back : AddressMachine.Moves (.setDerivationType p.scheme.type.value) { st with path := some .root }
      { st with path := some (.pending p.scheme) } none := pending_call (Ne.symm p.scheme.type_ne_root)
  have final := (moves_step _ _ _ _ back).1
  simp only [replay, List.foldl_cons, List.foldl_nil, away, final]
  change some (PathState.pending p.scheme).object = st'.path.map PathState.object
  rw [dropped]
  rfl

theorem alone (i : Part) (k : ℕ) :
    (∃ calls : List Call, (∀ call ∈ calls, IsSetter call ∧ call.part = i) ∧ calls.length ≤ k ∧
      i.get (replay Call.run calls st.object) = i.get st'.object) ↔
    Kept i (i.get st.object) (i.get st'.object) ∧ cost st.object st'.object i ≤ k := by
  constructor
  · rintro ⟨calls, own, short, made⟩
    obtain ⟨final, run, kept⟩ := replay_kept calls (fun call hc => (own call hc).1) st
    refine ⟨?_, le_trans ?_ short⟩
    · rw [← made, run]
      exact kept i
    · unfold cost
      split_ifs with same detour
      · exact Nat.zero_le _
      · obtain ⟨rfl, dropped⟩ := detour
        obtain ⟨p, held, pending⟩ := dropsLevels_iff.mp dropped
        cases calls with
        | nil => exact absurd made same
        | cons call rest =>
          cases rest with
          | cons second rest => simp
          | nil =>
            obtain ⟨mid, r, move⟩ := moves_total call st
            change (call.run st.object).state.path = st'.object.path at made
            rw [(moves_step _ _ _ _ move).1] at made
            have reached : mid.path = st'.path := Option.map_injective PathState.object_injective made
            exact absurd (reached.trans pending) (moves_levels move (own call (List.mem_cons_self ..)).1 held)
      · cases calls with
        | nil => exact absurd made same
        | cons call calls => simp
  · rintro ⟨kept, few⟩
    unfold cost at few
    split_ifs at few with same detour
    · exact ⟨[], by simp, Nat.zero_le _, same⟩
    · obtain ⟨rfl, dropped⟩ := detour
      obtain ⟨p, held, pending⟩ := dropsLevels_iff.mp dropped
      refine ⟨[.setDerivation [] [], .setDerivationType p.scheme.type.value], ?_, few, two_calls pending⟩
      intro call hc
      simp only [List.mem_cons, List.not_mem_nil, or_false] at hc
      rcases hc with rfl | rfl
      · exact ⟨trivial, rfl⟩
      · exact ⟨trivial, rfl⟩
    · obtain ⟨call, setter, own, made⟩ := one_call kept same detour
      refine ⟨[call], ?_, few, made⟩
      intro other hc
      obtain rfl := List.mem_singleton.mp hc
      exact ⟨setter, own⟩

end Calls

/-- Setters lead from one address to another in so many calls exactly when the other has what
    setters never take away, and the calls are not fewer than the distance. -/
theorem fewest_setters {a b : Address} (ha : addresses.Reachable a) (hb : addresses.Reachable b) (n : ℕ) :
    (∃ calls : List Call, (∀ call ∈ calls, IsSetter call) ∧ calls.length ≤ n ∧ replay Call.run calls a = b) ↔
      (∀ i : Part, Kept i (i.get a) (i.get b)) ∧ distance a b ≤ n := by
  obtain ⟨st, rfl⟩ := sound_object (reachable_address_sound ha)
  obtain ⟨st', rfl⟩ := sound_object (reachable_address_sound hb)
  exact address_parts.fewest Part.all_nodup Part.mem_all alone n

/-- One call attaches a path, and two drop it again and keep its type. -/
theorem fewest_setters_drop :
    let a := (Address.init.setDerivation (lit "bip44") (lit "m/44'/60'/0'/0/0")).state
    let b := (Address.init.setDerivationType (lit "bip44")).state
    (distance b a = 1 ∧ distance a b = 2) ∧
    ((∃ calls : List Call, (∀ call ∈ calls, IsSetter call) ∧ calls.length ≤ 1 ∧ replay Call.run calls a = b) ↔
      (∀ i : Part, Kept i (i.get a) (i.get b)) ∧ distance a b ≤ 1) :=
  ⟨by decide +kernel, fewest_setters (.step (.created .init) (.setDerivation _ _ _))
    (.step (.created .init) (.setDerivationType _ _)) 1⟩

end Mhda.Distance
