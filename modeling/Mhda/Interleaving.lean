import Mathlib.Algebra.BigOperators.Group.List.Basic
import Mathlib.Algebra.Order.BigOperators.Group.List
import Mathlib.Algebra.Order.Group.Nat
import Mathlib.Algebra.Ring.Nat
import Mathlib.Data.List.Basic
import Mathlib.Data.List.Nodup
import Mhda.Transition

set_option autoImplicit false

namespace Mhda.Interleaving
open Mhda.Transition Mhda.Transition.After

variable {σ ε κ ι ω : Type} {V : ι → Type} [DecidableEq ι]
variable (run : κ → σ → After σ ε) (key : κ → ι) (part : (i : ι) → σ → V i)

/-- The parts make up the object, and a call works on the part of its key. -/
structure Parts : Prop where
  ext : ∀ s t, (∀ i, part i s = part i t) → s = t
  frame : ∀ call s i, i ≠ key call → part i (run call s).state = part i s
  state : ∀ call s t, part (key call) s = part (key call) t →
    part (key call) (run call s).state = part (key call) (run call t).state
  thrown : ∀ call s t, part (key call) s = part (key call) t → (run call s).thrown = (run call t).thrown

def outcomes : List κ → σ → List (κ × Option ε)
  | [], _ => []
  | call :: calls, s => (call, (run call s).thrown) :: outcomes calls (run call s).state

def callsTo (P : ι → Prop) [DecidablePred P] (calls : List κ) : List κ := calls.filter fun call => P (key call)

def ReadsOnly (P : ι → Prop) (observe : σ → ω) : Prop :=
  ∀ s t, (∀ i, P i → part i s = part i t) → observe s = observe t

variable {run key part}

section Runs
variable (parts : Parts run key part)
include parts

theorem Parts.step {P : ι → Prop} {call : κ} {s t : σ} (alike : ∀ i, P i → part i s = part i t)
    (chosen : P (key call)) (i : ι) (hi : P i) : part i (run call s).state = part i (run call t).state := by
  by_cases own : i = key call
  · subst own
    exact parts.state call s t (alike _ chosen)
  · rw [parts.frame call s i own, parts.frame call t i own, alike i hi]

theorem Parts.replay_callsTo {P : ι → Prop} [DecidablePred P] (calls : List κ) {s t : σ}
    (alike : ∀ i, P i → part i s = part i t) (i : ι) (hi : P i) :
    part i (replay run calls s) = part i (replay run (callsTo key P calls) t) := by
  induction calls generalizing s t with
  | nil => exact alike i hi
  | cons call calls ih =>
    by_cases chosen : P (key call)
    · rw [callsTo, List.filter_cons_of_pos (by simpa using chosen)]
      exact ih (parts.step alike chosen)
    · rw [callsTo, List.filter_cons_of_neg (by simpa using chosen)]
      refine ih fun j hj => ?_
      have other : j ≠ key call := by
        rintro rfl
        exact chosen hj
      rw [parts.frame call s j other, alike j hj]

theorem Parts.outcomes_callsTo {P : ι → Prop} [DecidablePred P] (calls : List κ) {s t : σ}
    (alike : ∀ i, P i → part i s = part i t) :
    (outcomes run calls s).filter (fun o => P (key o.1)) = outcomes run (callsTo key P calls) t := by
  induction calls generalizing s t with
  | nil => rfl
  | cons call calls ih =>
    by_cases chosen : P (key call)
    · have rest := ih (parts.step alike chosen)
      rw [callsTo, List.filter_cons_of_pos (by simpa using chosen), outcomes, outcomes,
        List.filter_cons_of_pos (by simpa using chosen), parts.thrown call s t (alike _ chosen)]
      exact congrArg _ rest
    · rw [callsTo, List.filter_cons_of_neg (by simpa using chosen), outcomes,
        List.filter_cons_of_neg (by simpa using chosen)]
      refine ih fun j hj => ?_
      have other : j ≠ key call := by
        rintro rfl
        exact chosen hj
      rw [parts.frame call s j other, alike j hj]

theorem Parts.interleave {calls calls' : List κ}
    (same : ∀ i, callsTo key (· = i) calls = callsTo key (· = i) calls') (s : σ) :
    replay run calls s = replay run calls' s ∧
      ∀ i, (outcomes run calls s).filter (fun o => key o.1 = i) =
        (outcomes run calls' s).filter (fun o => key o.1 = i) := by
  constructor
  · refine parts.ext _ _ fun i => ?_
    rw [parts.replay_callsTo (P := (· = i)) calls (fun _ _ => rfl) i rfl, same i,
      ← parts.replay_callsTo (P := (· = i)) calls' (fun _ _ => rfl) i rfl]
  · intro i
    rw [parts.outcomes_callsTo (P := (· = i)) calls (fun _ _ => rfl), same i,
      ← parts.outcomes_callsTo (P := (· = i)) calls' (fun _ _ => rfl)]

theorem Parts.observe {P : ι → Prop} [DecidablePred P] {observe : σ → ω} (reads : ReadsOnly part P observe)
    (calls : List κ) (s : σ) :
    observe (replay run calls s) = observe (replay run (callsTo key P calls) s) :=
  reads _ _ fun i hi => parts.replay_callsTo calls (fun _ _ => rfl) i hi

theorem Parts.assemble {order : List ι} (nodup : order.Nodup) (all : ∀ i, i ∈ order) {script : ι → List κ}
    (own : ∀ i, ∀ call ∈ script i, key call = i) {s t : σ}
    (made : ∀ i, part i (replay run (script i) s) = part i t) :
    replay run (order.flatMap script) s = t := by
  have chosen : ∀ i, callsTo key (· = i) (order.flatMap script) = script i := by
    intro i
    have own_calls : callsTo key (· = i) (script i) = script i :=
      List.filter_eq_self.mpr fun call hc => by simpa using own i call hc
    have other_calls : ∀ j, j ≠ i → callsTo key (· = i) (script j) = [] := by
      intro j hj
      refine List.filter_eq_nil_iff.mpr fun call hc => ?_
      simpa [own j call hc] using hj
    obtain ⟨before, after, rfl⟩ := List.append_of_mem (all i)
    rw [List.nodup_append, List.nodup_cons] at nodup
    obtain ⟨_, ⟨not_after, _⟩, apart⟩ := nodup
    have none_before : before.flatMap (fun j => callsTo key (· = i) (script j)) = [] :=
      List.flatMap_eq_nil_iff.mpr fun j hj => other_calls j (apart j hj i (List.mem_cons_self ..))
    have none_after : after.flatMap (fun j => callsTo key (· = i) (script j)) = [] := by
      refine List.flatMap_eq_nil_iff.mpr fun j hj => other_calls j ?_
      rintro rfl
      exact not_after hj
    unfold callsTo at own_calls none_before none_after ⊢
    rw [List.flatMap_append, List.flatMap_cons, List.filter_append, List.filter_append, List.filter_flatMap,
      List.filter_flatMap, none_before, none_after, own_calls, List.nil_append, List.append_nil]
  refine parts.ext _ _ fun i => ?_
  rw [parts.replay_callsTo (P := (· = i)) _ (fun _ _ => rfl) i rfl, chosen i]
  exact made i

end Runs

section Fewest

theorem sum_callsTo {order : List ι} (nodup : order.Nodup) (all : ∀ i, i ∈ order) (calls : List κ) :
    (order.map fun i => (callsTo key (· = i) calls).length).sum = calls.length := by
  induction calls with
  | nil => simp [callsTo]
  | cons call calls ih =>
    have split : ∀ i, (callsTo key (· = i) (call :: calls)).length =
        (callsTo key (· = i) calls).length + if key call = i then 1 else 0 := by
      intro i
      by_cases own : key call = i
      · simp [callsTo, own]
      · simp [callsTo, own]
    have once : (order.map fun i => if key call = i then 1 else 0).sum = 1 := by
      rw [List.sum_map_eq_nsmul_single (key call) _ fun i other _ => if_neg other.symm,
        List.count_eq_one_of_mem nodup (all _), if_pos rfl, one_nsmul]
    simp only [split, List.sum_map_add, ih, once, List.length_cons]

variable (parts : Parts run key part)
include parts

/-- When it is known for each part whether calls lead it from one value to another, and how many
    they must be, it is known for the object: the counts add up. -/
theorem Parts.fewest {allowed : κ → Prop} {possible : ι → Prop} {least : ι → ℕ} {order : List ι} (nodup : order.Nodup)
    (all : ∀ i, i ∈ order) {s t : σ}
    (alone : ∀ i k, (∃ calls, (∀ call ∈ calls, allowed call ∧ key call = i) ∧ calls.length ≤ k ∧
      part i (replay run calls s) = part i t) ↔ possible i ∧ least i ≤ k) (n : ℕ) :
    (∃ calls, (∀ call ∈ calls, allowed call) ∧ calls.length ≤ n ∧ replay run calls s = t) ↔
      (∀ i, possible i) ∧ (order.map least).sum ≤ n := by
  constructor
  · rintro ⟨calls, permitted, short, rfl⟩
    have each : ∀ i, possible i ∧ least i ≤ (callsTo key (· = i) calls).length := by
      intro i
      refine (alone i _).mp ⟨callsTo key (· = i) calls, ?_, le_rfl, ?_⟩
      · intro call hc
        obtain ⟨made, own⟩ := List.mem_filter.mp hc
        exact ⟨permitted call made, by simpa using own⟩
      · exact (parts.replay_callsTo (P := (· = i)) calls (fun _ _ => rfl) i rfl).symm
    refine ⟨fun i => (each i).1, ?_⟩
    calc (order.map least).sum
        ≤ (order.map fun i => (callsTo key (· = i) calls).length).sum := List.sum_le_sum fun i _ => (each i).2
      _ = calls.length := sum_callsTo nodup all calls
      _ ≤ n := short
  · rintro ⟨can, few⟩
    have scripts := fun i => (alone i (least i)).mpr ⟨can i, le_rfl⟩
    choose script own short made using scripts
    refine ⟨order.flatMap script, ?_, ?_, parts.assemble nodup all (fun i call hc => (own i call hc).2) made⟩
    · intro call hc
      obtain ⟨i, _, hi⟩ := List.mem_flatMap.mp hc
      exact (own i call hi).1
    · calc (order.flatMap script).length
          = (order.map fun i => (script i).length).sum := List.length_flatMap
        _ ≤ (order.map least).sum := List.sum_le_sum fun i _ => short i
        _ ≤ n := few

end Fewest

end Mhda.Interleaving
