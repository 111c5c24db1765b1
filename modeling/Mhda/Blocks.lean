import Mathlib.Data.List.Basic

set_option autoImplicit false

namespace Mhda.Blocks

section Cut
variable {α : Type} {n : ℕ}

def block (n : ℕ) (xs : List α) (i : ℕ) : List α := (xs.drop (i * n)).take n

/-- The full blocks of a list; a shorter rest is left out. -/
def cut (n : ℕ) (xs : List α) : List (List α) := (List.range (xs.length / n)).map (block n xs)

def rest (n : ℕ) (xs : List α) : List α := xs.drop (xs.length / n * n)

theorem length_rest (xs : List α) : (rest n xs).length = xs.length % n := by
  have split := Nat.div_add_mod' xs.length n
  rw [rest, List.length_drop]
  omega

theorem block_append_left {xs ys : List α} {i : ℕ} (h : (i + 1) * n ≤ xs.length) :
    block n (xs ++ ys) i = block n xs i := by
  have start : i * n + n ≤ xs.length := by
    rw [← Nat.succ_mul]
    exact h
  rw [block, block, List.drop_append_of_le_length (by omega),
    List.take_append_of_le_length (by rw [List.length_drop]; omega)]

theorem length_block {xs : List α} {i : ℕ} (h : (i + 1) * n ≤ xs.length) : (block n xs i).length = n := by
  rw [Nat.succ_mul] at h
  rw [block, List.length_take, List.length_drop]
  omega

theorem cut_append (hn : 0 < n) {xs : List α} (h : n ∣ xs.length) (ys : List α) :
    cut n (xs ++ ys) = cut n xs ++ cut n ys := by
  obtain ⟨k, hk⟩ := h
  have count : (xs ++ ys).length / n = k + ys.length / n := by
    rw [List.length_append, hk, Nat.mul_add_div hn]
  have front : xs.length / n = k := by
    rw [hk, Nat.mul_div_cancel_left _ hn]
  rw [cut, cut, cut, count, front, List.range_add, List.map_append, List.map_map]
  congr 1
  · refine List.map_congr_left fun i hi => block_append_left ?_
    rw [hk, Nat.mul_comm n]
    exact Nat.mul_le_mul_right n (List.mem_range.mp hi)
  · refine List.map_congr_left fun i _ => ?_
    rw [Function.comp_apply, block, block, Nat.add_mul, ← List.drop_drop, Nat.mul_comm k, ← hk,
      List.drop_left]

theorem cut_single (hn : 0 < n) {xs : List α} (h : xs.length = n) : cut n xs = [xs] := by
  rw [cut, h, Nat.div_self hn]
  simp [block, ← h]

theorem cut_rest (hn : 0 < n) (xs : List α) : cut n (xs.take (xs.length / n * n)) = cut n xs := by
  have short : xs.length / n * n ≤ xs.length := Nat.div_mul_le_self _ _
  have count : (xs.take (xs.length / n * n)).length / n = xs.length / n := by
    rw [List.length_take, Nat.min_eq_left short, Nat.mul_div_cancel _ hn]
  rw [cut, cut, count]
  refine List.map_congr_left fun i hi => ?_
  have fits : (i + 1) * n ≤ (xs.take (xs.length / n * n)).length := by
    rw [List.length_take, Nat.min_eq_left short]
    exact Nat.mul_le_mul_right n (List.mem_range.mp hi)
  have whole : block n (xs.take (xs.length / n * n) ++ xs.drop (xs.length / n * n)) i =
      block n (xs.take (xs.length / n * n)) i := block_append_left fits
  rw [List.take_append_drop] at whole
  exact whole.symm

theorem flatten_cut (hn : 0 < n) (k : ℕ) (xs : List α) (h : xs.length = k * n) : (cut n xs).flatten = xs := by
  induction k generalizing xs with
  | zero =>
    have empty : xs = [] := List.length_eq_zero_iff.mp (by omega)
    subst empty
    simp [cut]
  | succ k ih =>
    have first : (xs.take n).length = n := by
      rw [List.length_take, h, Nat.succ_mul]
      omega
    have others : (xs.drop n).length = k * n := by
      rw [List.length_drop, h, Nat.succ_mul]
      omega
    have whole : cut n (xs.take n ++ xs.drop n) = cut n (xs.take n) ++ cut n (xs.drop n) :=
      cut_append hn (by simp [first]) _
    rw [List.take_append_drop] at whole
    rw [whole, List.flatten_append, cut_single hn first, ih _ others]
    simp

/-- What a list of whole blocks ends with stands at the end of its last block. -/
theorem suffix_last (hn : 0 < n) {xs field : List α} (h : n ∣ xs.length) (hf : field <:+ xs)
    (short : field.length ≤ n) {b : List α} (last : (cut n xs).getLast? = some b) : field <:+ b := by
  obtain ⟨k, len⟩ := h
  have whole := flatten_cut hn k xs (by rw [len, Nat.mul_comm])
  obtain ⟨front, split⟩ := List.getLast?_eq_some_iff.mp last
  have full : b.length = n := by
    obtain ⟨i, hi, rfl⟩ := List.mem_map.mp (List.mem_of_getLast? last)
    rw [List.mem_range, len, Nat.mul_div_cancel_left _ hn] at hi
    refine length_block ?_
    rw [len, Nat.mul_comm n]
    exact Nat.mul_le_mul_right n hi
  rw [split, List.flatten_append, List.flatten_singleton] at whole
  exact List.suffix_of_suffix_length_le hf ⟨front.flatten, whole⟩ (by omega)

end Cut

section Words
variable {α β : Type}

/-- A list is read back from its words when they are different and of one length. -/
theorem flatMap_injective {f : α → List β} {k : ℕ} (hk : 0 < k) (len : ∀ a, (f a).length = k)
    (hf : Function.Injective f) : Function.Injective fun xs : List α => xs.flatMap f := by
  have full : ∀ a xs, f a ++ xs ≠ [] := by
    intro a xs empty
    have short := congrArg List.length empty
    rw [List.length_append, len, List.length_nil] at short
    omega
  intro xs
  induction xs with
  | nil =>
    intro ys h
    cases ys with
    | nil => rfl
    | cons y ys => exact absurd h.symm (full y _)
  | cons x xs ih =>
    intro ys h
    cases ys with
    | nil => exact absurd h (full x _)
    | cons y ys =>
      obtain ⟨word, rest⟩ := List.append_inj h ((len x).trans (len y).symm)
      rw [hf word, ih rest]

end Words

section Write
variable {α : Type}

/-- Elements written one after the other, each just before the last, replace what stood there. -/
theorem write_downward (f : ℕ → α) (k p : ℕ) (front old back : List α) (hk : old.length = k)
    (hp : front.length + k = p) :
    (List.range k).foldl (fun t i => t.set (p - 1 - i) (f i)) (front ++ old ++ back) =
      front ++ ((List.range k).map f).reverse ++ back := by
  induction k generalizing front old with
  | zero =>
    obtain rfl := List.length_eq_zero_iff.mp hk
    simp
  | succ k ih =>
    cases old with
    | nil => simp at hk
    | cons x old =>
      have shift : front ++ x :: old ++ back = (front ++ [x]) ++ old ++ back := by simp
      have later := ih (front ++ [x]) old (by simpa using hk) (by simp; omega)
      have here : p - 1 - k = front.length := by omega
      rw [List.range_succ, List.foldl_append, shift, later, List.foldl_cons, List.foldl_nil, here]
      simp

end Write

end Mhda.Blocks
