import Mathlib.Algebra.Ring.Nat
import Mathlib.Data.List.Basic

set_option autoImplicit false

/-!
# Arrays and loops of a C program

An array is a list of cells, and a cell that was never written holds no value. What the
language leaves undefined has no result: the load of such a cell, an access or an address
outside the array. A size that does not fit its type has none either, so a run with a
result is also one in which no size wraps.
-/
namespace Mhda.Memory

abbrev Region (α : Type) := List (Option α)

theorem item_at {α : Type} {xs : List α} {i : ℕ} (d : α) (h : i < xs.length) : xs[i]? = some (xs.getD i d) := by
  rw [List.getD_eq_getElem?_getD, List.getElem?_eq_getElem h, Option.getD_some]

theorem some_bind {α β : Type} (a : α) (f : α → Option β) : (some a >>= f) = f a := rfl

section Access
variable {α : Type}

def uninitialised (n : ℕ) : Region α := List.replicate n none

def filled (xs : List α) : Region α := xs.map some

def load (m : Region α) (i : ℕ) : Option α := m[i]?.join

def store (m : Region α) (i : ℕ) (x : α) : Option (Region α) :=
  if i < m.length then some (m.set i (some x)) else none

def address (m : Region α) (i : ℕ) : Option (Region α) := if i ≤ m.length then some (m.drop i) else none

/-- `memcpy` of `n` cells, which may be cells without a value. -/
def copy (dst src : Region α) (n : ℕ) : Option (Region α) :=
  if n ≤ src.length ∧ n ≤ dst.length then some (src.take n ++ dst.drop n) else none

@[simp] theorem length_filled (xs : List α) : (filled xs).length = xs.length := List.length_map ..

theorem load_filled (xs : List α) (i : ℕ) : load (filled xs) i = xs[i]? := by
  rw [load, filled, List.getElem?_map]
  cases xs[i]? <;> rfl

theorem load_of_lt {xs : List α} {i : ℕ} (d : α) (h : i < xs.length) : load (filled xs) i = some (xs.getD i d) := by
  rw [load_filled, item_at d h]

theorem store_filled {xs : List α} {i : ℕ} (h : i < xs.length) (x : α) :
    store (filled xs) i x = some (filled (xs.set i x)) := by
  rw [store, length_filled, if_pos h, filled, filled, List.map_set]

theorem address_filled {xs : List α} {i : ℕ} (h : i ≤ xs.length) :
    address (filled xs) i = some (filled (xs.drop i)) := by
  rw [address, length_filled, if_pos h, filled, filled, List.map_drop]

theorem copy_filled {xs ys : List α} {n : ℕ} (src : n ≤ ys.length) (dst : n ≤ xs.length) :
    copy (filled xs) (filled ys) n = some (filled (ys.take n ++ xs.drop n)) := by
  rw [copy, length_filled, length_filled, if_pos ⟨src, dst⟩]
  simp only [filled, List.map_append, List.map_take, List.map_drop]

theorem store_within {front mid back : List α} {i j : ℕ} (start : i = front.length + j) (inside : j < mid.length) (x : α) :
    store (filled (front ++ (mid ++ back))) i x = some (filled (front ++ (mid.set j x ++ back))) := by
  have bound : i < (front ++ (mid ++ back)).length := by
    rw [List.length_append, List.length_append]
    omega
  have behind : ¬ i < front.length := by omega
  have at_ : i - front.length = j := by omega
  rw [store_filled bound, List.set_append, if_neg behind, at_, List.set_append, if_pos inside]

theorem load_take {m : Region α} {n i : ℕ} (h : i < n) : load (m.take n) i = load m i := by
  rw [load, load, List.getElem?_take_of_lt h]

end Access

section Initialisation
variable {α : Type}

/-- The first `n` cells of an array are written, with the values of a list. -/
structure Written (n : ℕ) (m : Region α) (xs : List α) : Prop where
  length : m.length = xs.length
  values : ∀ i, i < n → m[i]? = xs[i]?.map some

theorem written_uninitialised (xs : List α) : Written 0 (uninitialised xs.length) xs :=
  ⟨List.length_replicate, fun i h => absurd h (Nat.not_lt_zero i)⟩

namespace Written
variable {n i : ℕ} {m : Region α} {xs : List α}

theorem load (h : Written n m xs) (d : α) (hi : i < n) (bound : n ≤ xs.length) :
    load m i = some (xs.getD i d) := by
  have inside : i < xs.length := by omega
  rw [Memory.load, h.values i hi, item_at d inside]
  rfl

theorem store (h : Written n m xs) (bound : n < xs.length) (x : α) :
    ∃ m', Memory.store m n x = some m' ∧ Written (n + 1) m' (xs.set n x) := by
  have inside : n < m.length := by rw [h.length]; exact bound
  refine ⟨m.set n (some x), if_pos inside, ?_, ?_⟩
  · rw [List.length_set, List.length_set, h.length]
  · intro i hi
    rcases Nat.lt_succ_iff_lt_or_eq.mp hi with before | rfl
    · have other : n ≠ i := by omega
      rw [List.getElem?_set_ne other, List.getElem?_set_ne other, h.values i before]
    · rw [List.getElem?_set_self inside, List.getElem?_set_self bound]
      rfl

theorem filled (h : Written n m xs) (full : xs.length ≤ n) : m = filled xs := by
  refine List.ext_getElem? fun i => ?_
  rw [Memory.filled, List.getElem?_map]
  by_cases hi : i < n
  · exact h.values i hi
  · have outside : xs.length ≤ i := by omega
    rw [List.getElem?_eq_none outside, List.getElem?_eq_none (by rw [h.length]; exact outside)]
    rfl

end Written

end Initialisation

section Buffers
variable {α : Type}

/-- A buffer written from the front, with `free` cells behind. -/
def buffer (xs : List α) (free : ℕ) : Region α := filled xs ++ List.replicate free none

def read (m : Region α) (n : ℕ) : Option (List α) := if n ≤ m.length then (m.take n).mapM id else none

theorem length_buffer (xs : List α) (free : ℕ) : (buffer xs free).length = xs.length + free := by
  rw [buffer, List.length_append, length_filled, List.length_replicate]

theorem buffer_load {xs : List α} {free i : ℕ} (h : i < xs.length) : load (buffer xs free) i = xs[i]? := by
  rw [← load_filled, load, buffer, List.getElem?_append_left (by rw [length_filled]; exact h)]
  rfl

theorem buffer_store (xs : List α) (free : ℕ) (x : α) :
    store (buffer xs (free + 1)) xs.length x = some (buffer (xs ++ [x]) free) := by
  have inside : xs.length < (buffer xs (free + 1)).length := by
    rw [length_buffer]
    omega
  have here : xs.length - (filled xs).length = 0 := by
    rw [length_filled]
    omega
  rw [store, if_pos inside, buffer, List.set_append_right _ _ (Nat.le_of_eq (length_filled xs)), here, List.replicate_succ,
    List.set_cons_zero, buffer, filled, filled, List.map_append, List.append_assoc]
  rfl

theorem mapM_filled (xs : List α) : (filled xs).mapM id = some xs := by
  induction xs with
  | nil => rfl
  | cons x xs ih =>
    rw [filled, List.map_cons, List.mapM_cons]
    rw [filled] at ih
    rw [ih]
    rfl

theorem buffer_read (xs : List α) (free : ℕ) : read (buffer xs free) xs.length = some xs := by
  have inside : xs.length ≤ (buffer xs free).length := by
    rw [length_buffer]
    omega
  rw [read, if_pos inside, buffer, List.take_left' (length_filled xs), mapM_filled]

end Buffers

section Size

def size (n : ℕ) : Option ℕ := if n < 2 ^ 64 then some n else none

def sub (a b : ℕ) : Option ℕ := if b ≤ a then some (a - b) else none

theorem size_some {n : ℕ} (h : n < 2 ^ 64) : size n = some n := if_pos h

theorem sub_some {a b : ℕ} (h : b ≤ a) : sub a b = some (a - b) := if_pos h

end Size

section Loops
variable {σ τ : Type}

/-- `for (i = lo; i < hi; ++i)`. -/
def forLoop (lo hi : ℕ) (body : ℕ → σ → Option σ) (s : σ) : Option σ :=
  (List.range' lo (hi - lo)).foldlM (fun s i => body i s) s

theorem forLoop_done {lo hi : ℕ} (h : hi ≤ lo) (body : ℕ → σ → Option σ) (s : σ) : forLoop lo hi body s = some s := by
  rw [forLoop, Nat.sub_eq_zero_of_le h]
  rfl

theorem forLoop_step {lo hi : ℕ} (h : lo < hi) (body : ℕ → σ → Option σ) (s : σ) :
    forLoop lo hi body s = body lo s >>= forLoop (lo + 1) hi body := by
  have count : hi - lo = (hi - (lo + 1)) + 1 := by omega
  rw [forLoop, count, List.range'_succ, List.foldlM_cons]
  rfl

theorem forLoop_invariant {I : ℕ → σ → Prop} {body : ℕ → σ → Option σ} {lo hi : ℕ} {s : σ} (le : lo ≤ hi)
    (step : ∀ i s, lo ≤ i → i < hi → I i s → ∃ s', body i s = some s' ∧ I (i + 1) s') (start : I lo s) :
    ∃ s', forLoop lo hi body s = some s' ∧ I hi s' := by
  induction h : hi - lo generalizing lo s with
  | zero =>
    obtain rfl : lo = hi := by omega
    exact ⟨s, forLoop_done (Nat.le_refl lo) body s, start⟩
  | succ n ih =>
    have below : lo < hi := by omega
    obtain ⟨s₁, first, kept⟩ := step lo s (Nat.le_refl lo) below start
    have later : ∀ i s, lo + 1 ≤ i → i < hi → I i s → ∃ s', body i s = some s' ∧ I (i + 1) s' := by
      intro i s hi
      exact step i s (by omega)
    obtain ⟨s', rest, final⟩ := ih (by omega) later kept (by omega)
    refine ⟨s', ?_, final⟩
    rw [forLoop_step below, first]
    exact rest

theorem forLoop_ends {I : ℕ → σ → Prop} {body : ℕ → σ → Option σ} {lo hi : ℕ} {s last : σ} (le : lo ≤ hi)
    (step : ∀ i s, lo ≤ i → i < hi → I i s → ∃ s', body i s = some s' ∧ I (i + 1) s') (start : I lo s)
    (unique : ∀ s', I hi s' → s' = last) : forLoop lo hi body s = some last := by
  obtain ⟨s', run, final⟩ := forLoop_invariant le step start
  rw [run, unique s' final]

/-- A loop whose body follows a pure step, under a relation that knows the round, follows the fold. -/
theorem forLoop_refines {R : ℕ → σ → τ → Prop} {body : ℕ → σ → Option σ} {next : τ → ℕ → τ} {lo hi : ℕ} {s : σ} {t : τ}
    (le : lo ≤ hi) (step : ∀ i s t, lo ≤ i → i < hi → R i s t → ∃ s', body i s = some s' ∧ R (i + 1) s' (next t i))
    (start : R lo s t) :
    ∃ s', forLoop lo hi body s = some s' ∧ R hi s' ((List.range' lo (hi - lo)).foldl next t) := by
  refine forLoop_invariant (I := fun i s => R i s ((List.range' lo (i - lo)).foldl next t)) le ?_ ?_
  · intro i s above below related
    obtain ⟨s', run, next⟩ := step i s _ above below related
    have count : i + 1 - lo = (i - lo) + 1 := by omega
    have last : lo + (i - lo) = i := by omega
    refine ⟨s', run, ?_⟩
    rw [count, List.range'_1_concat, last, List.foldl_append]
    exact next
  · rw [Nat.sub_self]
    exact start

theorem forLoop_view {body : ℕ → σ → Option σ} {next : τ → ℕ → τ} {n : ℕ} (view : τ → σ) (Keeps : τ → Prop) {t : τ}
    (start : Keeps t) (step : ∀ i t, i < n → Keeps t → body i (view t) = some (view (next t i)) ∧ Keeps (next t i)) :
    forLoop 0 n body (view t) = some (view ((List.range n).foldl next t)) ∧ Keeps ((List.range n).foldl next t) := by
  have follows : ∀ i s t, 0 ≤ i → i < n → (s = view t ∧ Keeps t) →
      ∃ s', body i s = some s' ∧ (s' = view (next t i) ∧ Keeps (next t i)) := by
    intro i s t _ hi ⟨seen, kept⟩
    obtain ⟨run, keeps⟩ := step i t hi kept
    exact ⟨_, by rw [seen]; exact run, rfl, keeps⟩
  obtain ⟨s', run, seen, keeps⟩ :=
    forLoop_refines (R := fun _ s t => s = view t ∧ Keeps t) (Nat.zero_le n) follows ⟨rfl, start⟩
  rw [Nat.sub_zero, ← List.range_eq_range'] at seen keeps
  exact ⟨by rw [run, seen], keeps⟩

theorem forLoop_fold {body : ℕ → σ → Option σ} {next : τ → ℕ → τ} {n : ℕ} (view : τ → σ)
    (step : ∀ i t, i < n → body i (view t) = some (view (next t i))) (t : τ) :
    forLoop 0 n body (view t) = some (view ((List.range n).foldl next t)) :=
  (forLoop_view view (fun _ => True) trivial fun i t hi _ => ⟨step i t hi, trivial⟩).1

theorem forLoop_groups {α : Type} {k n : ℕ} {d : α} {group : ℕ → List α} {body : ℕ → Region α → Option (Region α)}
    (step : ∀ i front back, i < n → front.length = i * k →
      body i (filled (front ++ (List.replicate k d ++ back))) = some (filled (front ++ (group i ++ back))))
    (width : ∀ i, i < n → (group i).length = k) :
    forLoop 0 n body (filled (List.replicate (n * k) d)) = some (filled ((List.range n).flatMap group)) := by
  have before : ∀ i, i ≤ n → ((List.range i).flatMap group).length = i * k := by
    intro i
    induction i with
    | zero => simp
    | succ i ih =>
      intro hi
      rw [List.range_succ, List.flatMap_append, List.length_append, ih (by omega), List.flatMap_singleton,
        width i (by omega), Nat.succ_mul]
  refine forLoop_ends (I := fun i m => m = filled ((List.range i).flatMap group ++ List.replicate ((n - i) * k) d))
    (Nat.zero_le n) ?_ (by simp) (by simp)
  intro i m _ hi reached
  have next : (n - i) * k = k + (n - (i + 1)) * k := by
    have count : n - i = (n - (i + 1)) + 1 := by omega
    rw [count, Nat.succ_mul, Nat.add_comm]
  refine ⟨_, ?_, rfl⟩
  rw [reached, next, List.replicate_add, step i _ _ hi (before i (by omega)), List.range_succ, List.flatMap_append,
    List.flatMap_singleton, List.append_assoc]

variable {ρ : Type}

/-- A loop with at most so many rounds. A round goes on with a state or leaves with a result. -/
def loop (round : σ → Option (σ ⊕ ρ)) : ℕ → σ → Option ρ
  | 0, _ => none
  | fuel + 1, s => round s >>= Sum.elim (loop round fuel) some

/-- A loop that decreases a measure whenever it goes on leaves with a result. -/
theorem loop_leaves {round : σ → Option (σ ⊕ ρ)} {I : σ → Prop} {P : ρ → Prop} {μ : σ → ℕ}
    (step : ∀ s, I s → (∃ s', round s = some (.inl s') ∧ I s' ∧ μ s' < μ s) ∨ ∃ r, round s = some (.inr r) ∧ P r)
    {fuel : ℕ} {s : σ} (start : I s) (enough : μ s < fuel) : ∃ r, loop round fuel s = some r ∧ P r := by
  induction fuel generalizing s with
  | zero => omega
  | succ fuel ih =>
    rcases step s start with ⟨s', run, kept, less⟩ | ⟨r, run, post⟩
    · obtain ⟨r, rest, post⟩ := ih kept (by omega)
      exact ⟨r, by rw [loop, run, some_bind]; exact rest, post⟩
    · exact ⟨r, by rw [loop, run]; rfl, post⟩

end Loops

section Conditions

/-- `a && b`: the right side runs only behind a true left side. -/
def both (a b : Option Bool) : Option Bool := a >>= fun x => if x then b else some false

/-- `a || b`. -/
def either (a b : Option Bool) : Option Bool := a >>= fun x => if x then some true else b

theorem both_some (a : Bool) {b : Option Bool} {c : Bool} (h : a = true → b = some c) :
    both (some a) b = some (a && c) := by
  cases a with
  | false => rfl
  | true => exact h rfl

end Conditions

section Views
variable {α : Type}

/-- `substr(pos, n)`, which throws behind the end. -/
def substr (s : List α) (pos n : ℕ) : Option (List α) := if pos ≤ s.length then some ((s.drop pos).take n) else none

/-- `substr(pos)`. -/
def substrFrom (s : List α) (pos : ℕ) : Option (List α) := if pos ≤ s.length then some (s.drop pos) else none

def removePrefix (s : List α) (n : ℕ) : Option (List α) := if n ≤ s.length then some (s.drop n) else none

def removeSuffix (s : List α) (n : ℕ) : Option (List α) :=
  if n ≤ s.length then some (s.take (s.length - n)) else none

end Views

end Mhda.Memory
