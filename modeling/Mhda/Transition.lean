import Mathlib.Logic.Basic

set_option autoImplicit false

/-!
# Mutable objects with exceptions

A mutating call either finishes or throws; in both cases it leaves an object
behind. A system is an object type with its creation and its calls, and an
invariant of every call is an invariant of every history.
-/
namespace Mhda.Transition

/-- The object a mutating call leaves behind, and the exception it threw. -/
structure After (σ ε : Type) where
  state : σ
  thrown : Option ε

namespace After
variable {σ τ ε : Type}

def done (s : σ) : After σ ε := ⟨s, none⟩
def throw (s : σ) (e : ε) : After σ ε := ⟨s, some e⟩

/-- The strong guarantee: commit the new value, or keep the old one. -/
def commit (s : σ) : Except ε σ → After σ ε
  | .ok s' => done s'
  | .error e => throw s e

def lift (put : σ → τ) (x : After σ ε) : After τ ε := ⟨put x.state, x.thrown⟩

/-- The call as a function of its object: the new value, or the exception. -/
def result : After σ ε → Except ε σ
  | ⟨s, none⟩ => .ok s
  | ⟨_, some e⟩ => .error e

@[simp] theorem result_done (s : σ) : (done s : After σ ε).result = .ok s := rfl
@[simp] theorem result_throw (s : σ) (e : ε) : (throw s e).result = .error e := rfl
@[simp] theorem done_state (s : σ) : (done s : After σ ε).state = s := rfl
@[simp] theorem throw_state (s : σ) (e : ε) : (throw s e).state = s := rfl
@[simp] theorem done_thrown (s : σ) : (done s : After σ ε).thrown = none := rfl
@[simp] theorem throw_thrown (s : σ) (e : ε) : (throw s e).thrown = some e := rfl
@[simp] theorem lift_state (put : σ → τ) (x : After σ ε) : (x.lift put).state = put x.state := rfl
@[simp] theorem lift_thrown (put : σ → τ) (x : After σ ε) : (x.lift put).thrown = x.thrown := rfl

@[simp] theorem result_commit (s : σ) (r : Except ε σ) : (commit s r).result = r := by
  cases r <;> rfl

theorem result_lift (put : σ → τ) (x : After σ ε) : (x.lift put).result = x.result.map put := by
  obtain ⟨s, e⟩ := x
  cases e <;> rfl

theorem result_eq_error {x : After σ ε} {e : ε} : x.result = .error e ↔ x.thrown = some e := by
  obtain ⟨s, thrown⟩ := x
  cases thrown <;> simp [result]

theorem result_eq_ok {x : After σ ε} {s : σ} : x.result = .ok s ↔ x.state = s ∧ x.thrown = none := by
  obtain ⟨t, e⟩ := x
  cases e <;> simp [result]

theorem commit_state (s : σ) (r : Except ε σ) : (commit s r).state = s ∨ r = .ok (commit s r).state := by
  cases r with
  | ok s' => exact .inr rfl
  | error e => exact .inl rfl

section Keeps

/-- A call that throws leaves its object as it was. -/
def Keeps (s : σ) (x : After σ ε) : Prop := x.thrown ≠ none → x.state = s

theorem keeps_done (s t : σ) : Keeps s (done t : After σ ε) := fun h => absurd rfl h

theorem keeps_throw (s : σ) (e : ε) : Keeps s (throw s e) := fun _ => rfl

theorem keeps_commit (s : σ) (r : Except ε σ) : Keeps s (commit s r) := by
  cases r with
  | ok t => exact keeps_done s t
  | error e => exact keeps_throw s e

theorem Keeps.lift {put : σ → τ} {s : σ} {t : τ} {x : After σ ε} (h : Keeps s x) (hp : put s = t) :
    Keeps t (x.lift put) := by
  intro thrown
  rw [lift_state, h thrown, hp]

end Keeps

section Replay
variable {κ : Type} (run : κ → σ → After σ ε)

def replay (calls : List κ) (s : σ) : σ := calls.foldl (fun s call => (run call s).state) s

def finished : List κ → σ → List κ
  | [], _ => []
  | call :: calls, s =>
    let rest := finished calls (run call s).state
    if (run call s).thrown.isSome then rest else call :: rest

def KeepsAll : List κ → σ → Prop
  | [], _ => True
  | call :: calls, s => Keeps s (run call s) ∧ KeepsAll calls (run call s).state

theorem replay_finished {calls : List κ} {s : σ} (h : KeepsAll run calls s) :
    replay run (finished run calls s) s = replay run calls s := by
  induction calls generalizing s with
  | nil => rfl
  | cons call calls ih =>
    obtain ⟨keeps, rest⟩ := h
    have tail := ih rest
    unfold finished
    cases thrown : (run call s).thrown with
    | none =>
      rw [Option.isSome_none, if_neg (by simp)]
      exact tail
    | some e =>
      have same : (run call s).state = s := keeps (by simp [thrown])
      rw [Option.isSome_some, if_pos rfl]
      rw [same] at tail ⊢
      rw [tail]
      unfold replay
      rw [List.foldl_cons, same]

end Replay

end After

section Sequence
variable {ε α β : Type}

theorem bind_eq_ok {x : Except ε α} {f : α → Except ε β} {b : β} :
    x >>= f = .ok b ↔ ∃ a, x = .ok a ∧ f a = .ok b := by
  cases x <;> simp [bind, Except.bind]

theorem ok_bind (a : α) (f : α → Except ε β) : (Except.ok a >>= f) = f a := rfl
theorem error_bind (e : ε) (f : α → Except ε β) : (Except.error e >>= f) = .error e := rfl

theorem guard_eq_ok {P : Prop} [Decidable P] {e : ε} {x : Except ε α} {a : α} :
    (if P then .error e else x) = .ok a ↔ ¬ P ∧ x = .ok a := by
  by_cases h : P <;> simp [h]

theorem map_eq_ok {x : Except ε α} {f : α → β} {b : β} :
    x.map f = .ok b ↔ ∃ a, x = .ok a ∧ f a = b := by
  cases x <;> simp [Except.map]

def Fails (P : ε → Prop) (x : Except ε α) : Prop := ∀ e, x = .error e → P e

theorem fails_ok (P : ε → Prop) (a : α) : Fails P (.ok a : Except ε α) := by
  intro e h
  cases h

theorem fails_error {P : ε → Prop} {e : ε} (h : P e) : Fails P (.error e : Except ε α) := by
  intro e' he
  cases he
  exact h

theorem fails_guard {P : ε → Prop} {Q : Prop} [Decidable Q] {e : ε} {x : Except ε α} (he : P e)
    (hx : Fails P x) : Fails P (if Q then .error e else x) := by
  split
  · exact fails_error he
  · exact hx

theorem Fails.mono {P Q : ε → Prop} {x : Except ε α} (h : Fails P x) (hpq : ∀ e, P e → Q e) : Fails Q x :=
  fun e he => hpq e (h e he)

theorem Fails.bind_ok {P : ε → Prop} {x : Except ε α} {f : α → Except ε β} (hx : Fails P x)
    (hf : ∀ a, x = .ok a → Fails P (f a)) : Fails P (x >>= f) := by
  cases x with
  | ok a => exact hf a rfl
  | error e => exact fails_error (hx e rfl)

theorem Fails.bind {P : ε → Prop} {x : Except ε α} {f : α → Except ε β} (hx : Fails P x)
    (hf : ∀ a, Fails P (f a)) : Fails P (x >>= f) := hx.bind_ok fun a _ => hf a

theorem Fails.map {P : ε → Prop} {x : Except ε α} (f : α → β) (hx : Fails P x) : Fails P (x.map f) := by
  cases x with
  | ok a => exact fails_ok P (f a)
  | error e => exact fails_error (hx e rfl)

end Sequence

section Checks
variable {ε κ α β : Type} (code : ε → κ)

/-- The first check that does not hold decides the code, and without one the computation returns. -/
def Checked : List (Prop × κ) → Except ε α → Prop
  | [], x => ∃ a, x = .ok a
  | (P, k) :: checks, x => (¬ P → ∃ e, x = .error e ∧ code e = k) ∧ (P → Checked checks x)

theorem checked_error {P : Prop} {k : κ} {checks : List (Prop × κ)} {e : ε} (hp : ¬ P) (hk : code e = k) :
    Checked code ((P, k) :: checks) (.error e : Except ε α) :=
  ⟨fun _ => ⟨e, rfl, hk⟩, fun h => absurd h hp⟩

theorem checked_next {P : Prop} {k : κ} {checks : List (Prop × κ)} {x : Except ε α} (hp : P)
    (h : Checked code checks x) : Checked code ((P, k) :: checks) x :=
  ⟨fun hn => absurd hp hn, fun _ => h⟩

theorem Checked.bind {checks more : List (Prop × κ)} {x : Except ε α} {f : α → Except ε β}
    (hx : Checked code checks x) (hf : ∀ a, x = .ok a → Checked code more (f a)) :
    Checked code (checks ++ more) (x >>= f) := by
  induction checks with
  | nil =>
    obtain ⟨a, rfl⟩ := hx
    exact hf a rfl
  | cons check checks ih =>
    refine ⟨?_, fun hp => ih (hx.2 hp)⟩
    intro hp
    obtain ⟨e, rfl, hk⟩ := hx.1 hp
    exact ⟨e, rfl, hk⟩

theorem Checked.map {checks : List (Prop × κ)} {x : Except ε α} (hx : Checked code checks x) (f : α → β) :
    Checked code checks (x.map f) := by
  induction checks with
  | nil =>
    obtain ⟨a, rfl⟩ := hx
    exact ⟨f a, rfl⟩
  | cons check checks ih =>
    refine ⟨?_, fun hp => ih (hx.2 hp)⟩
    intro hp
    obtain ⟨e, rfl, hk⟩ := hx.1 hp
    exact ⟨e, rfl, hk⟩

theorem Checked.all {checks : List (Prop × κ)} {a : α} (h : Checked code checks (.ok a : Except ε α)) :
    ∀ check ∈ checks, check.1 := by
  induction checks with
  | nil => simp
  | cons check checks ih =>
    have holds : check.1 := by
      by_cases hp : check.1
      · exact hp
      · obtain ⟨e, he, _⟩ := h.1 hp
        cases he
    intro c hc
    rcases List.mem_cons.mp hc with rfl | hc
    · exact holds
    · exact ih (h.2 holds) c hc

theorem Checked.first {checks : List (Prop × κ)} {e : ε} (h : Checked code checks (.error e : Except ε α)) :
    ∃ before check after, checks = before ++ check :: after ∧ (∀ c ∈ before, c.1) ∧ ¬ check.1 ∧
      code e = check.2 := by
  induction checks with
  | nil =>
    obtain ⟨a, ha⟩ := h
    cases ha
  | cons check checks ih =>
    by_cases hp : check.1
    · obtain ⟨before, found, after, rfl, passed, fails, hk⟩ := ih (h.2 hp)
      refine ⟨check :: before, found, after, rfl, ?_, fails, hk⟩
      intro c hc
      rcases List.mem_cons.mp hc with rfl | hc
      · exact hp
      · exact passed c hc
    · obtain ⟨e', he, hk⟩ := h.1 hp
      cases he
      exact ⟨[], check, checks, rfl, by simp, hp, hk⟩

end Checks

/-- How objects come to be, and which object each call leaves behind. -/
structure System (σ : Type) where
  created : σ → Prop
  step : σ → σ → Prop

inductive System.Reachable {σ : Type} (S : System σ) : σ → Prop where
  | created {s : σ} (h : S.created s) : S.Reachable s
  | step {s t : σ} (h : S.Reachable s) (call : S.step s t) : S.Reachable t

/-- What creation establishes and every call keeps holds over every history. -/
theorem System.Reachable.invariant {σ : Type} {S : System σ} (I : σ → Prop)
    (hc : ∀ s, S.created s → I s) (hs : ∀ s t, I s → S.step s t → I t)
    {s : σ} (h : S.Reachable s) : I s := by
  induction h with
  | created h => exact hc _ h
  | step _ call ih => exact hs _ _ ih call

end Mhda.Transition
