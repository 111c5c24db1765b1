import Mathlib.Data.List.DropRight
import Mathlib.Tactic.IntervalCases

set_option autoImplicit false

namespace Mhda.ByteString

abbrev Byte := UInt8
abbrev Bytes := List Byte

def ch (c : Char) : Byte := UInt8.ofNat c.toNat

def lit (s : String) : Bytes := s.toList.map ch

/-- A decidable fact about one byte is checked on the 256 values. -/
theorem forall_byte {p : Byte → Prop} (h : ∀ n : Fin 256, p (UInt8.ofNat n.val)) (c : Byte) : p c := by
  have hc := h ⟨c.toNat, c.toNat_lt⟩
  simpa using hc

section Trim
variable {α : Type} (p : α → Bool)

theorem rdropWhile_append_of_last (xs ys : List α) (x : α) (h : ¬ p x) :
    ((xs ++ [x]) ++ ys).rdropWhile p = (xs ++ [x]) ++ ys.rdropWhile p := by
  induction ys using List.reverseRecOn with
  | nil => simp [List.rdropWhile_concat_neg _ _ _ h]
  | append_singleton ys y ih =>
    rw [← List.append_assoc]
    by_cases hy : p y
    · rw [List.rdropWhile_concat_pos _ _ _ hy, List.rdropWhile_concat_pos _ _ _ hy, ih]
    · rw [List.rdropWhile_concat_neg _ _ _ hy, List.rdropWhile_concat_neg _ _ _ hy, List.append_assoc]

theorem dropWhile_eq_self_of_head (xs : List α) (h : ∀ x ∈ xs.head?, ¬ p x) : xs.dropWhile p = xs := by
  cases xs with
  | nil => rfl
  | cons x xs => exact List.dropWhile_cons_of_neg (h x rfl)

theorem rdropWhile_eq_self_of_last (xs : List α) (h : ∀ x ∈ xs.getLast?, ¬ p x) :
    xs.rdropWhile p = xs := by
  rw [List.rdropWhile_eq_self_iff]
  intro hne
  exact h _ (List.getLast?_eq_some_getLast hne)

end Trim

end Mhda.ByteString
