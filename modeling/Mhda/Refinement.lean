import Mhda.Interleaving

set_option autoImplicit false

/-!
# Objects as implementations of an abstract machine

An abstract machine says by rules where each call leads and what it reports. An
object implements it when every abstract state has one object, and calls on the
object do what the rules say; then whole runs agree, reports included.

A client of the object sees what its calls throw and what an observer shows. A
normal form that calls and observer respect only identifies objects that no
client tells apart.
-/
namespace Mhda.Refinement
open Mhda.Transition Mhda.Transition.After Mhda.Interleaving

section Machines
variable {σ ε κ γ α : Type}
variable (run : κ → σ → After σ ε) (object : α → σ) (report : ε → γ) (Moves : κ → α → α → Option γ → Prop)

structure Implements : Prop where
  injective : Function.Injective object
  total : ∀ call a, ∃ b r, Moves call a b r
  step : ∀ call a b r, Moves call a b r →
    (run call (object a)).state = object b ∧ (run call (object a)).thrown.map report = r

inductive Runs : List κ → α → α → List (Option γ) → Prop where
  | nil (a : α) : Runs [] a a []
  | cons {call : κ} {calls : List κ} {a b c : α} {r : Option γ} {rs : List (Option γ)}
      (first : Moves call a b r) (rest : Runs calls b c rs) : Runs (call :: calls) a c (r :: rs)

variable {run object report Moves}

def reports (run : κ → σ → After σ ε) (report : ε → γ) (calls : List κ) (s : σ) : List (Option γ) :=
  (outcomes run calls s).map fun o => o.2.map report

theorem Implements.runs_iff (h : Implements run object report Moves) (calls : List κ) (a b : α)
    (rs : List (Option γ)) :
    Runs Moves calls a b rs ↔
      replay run calls (object a) = object b ∧ reports run report calls (object a) = rs := by
  induction calls generalizing a rs with
  | nil =>
    constructor
    · intro runs
      cases runs
      exact ⟨rfl, rfl⟩
    · rintro ⟨state, rfl⟩
      obtain rfl : a = b := h.injective state
      exact .nil a
  | cons call calls ih =>
    constructor
    · intro runs
      cases runs with
      | cons first rest =>
        obtain ⟨state, thrown⟩ := h.step _ _ _ _ first
        obtain ⟨final, later⟩ := (ih _ _).mp rest
        rw [← state] at final later
        exact ⟨final, List.cons_eq_cons.mpr ⟨thrown, later⟩⟩
    · rintro ⟨final, rfl⟩
      obtain ⟨a', r, first⟩ := h.total call a
      obtain ⟨state, thrown⟩ := h.step _ _ _ _ first
      have rest := (ih a' _).mpr ⟨state ▸ final, rfl⟩
      rw [← state] at rest
      subst thrown
      exact .cons first rest

end Machines

section Clients
variable {σ ε κ ω : Type} (run : κ → σ → After σ ε) (observe : σ → ω)

/-- Every run of calls throws the same on both objects, and the observer shows the same after it. -/
def Indistinguishable (s t : σ) : Prop :=
  ∀ calls, outcomes run calls s = outcomes run calls t ∧ observe (replay run calls s) = observe (replay run calls t)

structure Bisimulation (R : σ → σ → Prop) : Prop where
  observe : ∀ s t, R s t → observe s = observe t
  thrown : ∀ call s t, R s t → (run call s).thrown = (run call t).thrown
  state : ∀ call s t, R s t → R (run call s).state (run call t).state

/-- Calls and observer cannot tell an object from its normal form. -/
structure NormalForm (normal : σ → σ) : Prop where
  observe : ∀ s, observe (normal s) = observe s
  thrown : ∀ call s, (run call (normal s)).thrown = (run call s).thrown
  state : ∀ call s, normal (run call (normal s)).state = normal (run call s).state

variable {run observe}

theorem Bisimulation.indistinguishable {R : σ → σ → Prop} (h : Bisimulation run observe R) {s t : σ} (related : R s t) :
    Indistinguishable run observe s t := by
  intro calls
  induction calls generalizing s t with
  | nil => exact ⟨rfl, h.observe s t related⟩
  | cons call calls ih =>
    obtain ⟨thrown, shown⟩ := ih (h.state call s t related)
    refine ⟨?_, shown⟩
    rw [outcomes, outcomes, thrown, h.thrown call s t related]

theorem NormalForm.bisimulation {normal : σ → σ} (h : NormalForm run observe normal) :
    Bisimulation run observe fun s t => normal s = normal t where
  observe s t same := by rw [← h.observe s, same, h.observe t]
  thrown call s t same := by rw [← h.thrown call s, same, h.thrown call t]
  state call s t same := by rw [← h.state call s, same, h.state call t]

end Clients

end Mhda.Refinement
