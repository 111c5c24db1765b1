import Mathlib.Data.List.Basic
import Mathlib.Data.List.Induction

set_option autoImplicit false

namespace Mhda.IteratedHash
variable {σ β μ : Type} (compress : σ → β → σ) (iv : σ)

/-- Somewhere in the runs over two lists of blocks, different inputs of the compression function
    have one output. -/
def Collides (l m : List β) : Prop :=
  ∃ l₁ b l₂ m₁ c m₂, l = l₁ ++ b :: l₂ ∧ m = m₁ ++ c :: m₂ ∧
    (l₁.foldl compress iv, b) ≠ (m₁.foldl compress iv, c) ∧
    compress (l₁.foldl compress iv) b = compress (m₁.foldl compress iv) c

variable {compress iv}

theorem Collides.append {l m : List β} (h : Collides compress iv l m) (l' m' : List β) :
    Collides compress iv (l ++ l') (m ++ m') := by
  obtain ⟨l₁, b, l₂, m₁, c, m₂, rfl, rfl, differ, same⟩ := h
  exact ⟨l₁, b, l₂ ++ l', m₁, c, m₂ ++ m', by simp, by simp, differ, same⟩

theorem collides_last {l m : List β} {b c : β}
    (h : (l ++ [b]).foldl compress iv = (m ++ [c]).foldl compress iv) :
    (l.foldl compress iv = m.foldl compress iv ∧ b = c) ∨ Collides compress iv (l ++ [b]) (m ++ [c]) := by
  rw [List.foldl_concat, List.foldl_concat] at h
  by_cases inputs : (l.foldl compress iv, b) = (m.foldl compress iv, c)
  · exact .inl (Prod.mk.inj inputs)
  · exact .inr ⟨l, b, [], m, c, [], rfl, rfl, inputs, h⟩

theorem collides_of_length {l m : List β} (len : l.length = m.length)
    (h : l.foldl compress iv = m.foldl compress iv) : l = m ∨ Collides compress iv l m := by
  induction l using List.reverseRecOn generalizing m with
  | nil => exact .inl (List.length_eq_zero_iff.mp len.symm).symm
  | append_singleton l b ih =>
    rcases m.eq_nil_or_concat' with rfl | ⟨m, c, rfl⟩
    · simp at len
    · rcases collides_last h with ⟨before, rfl⟩ | found
      · rcases ih (by simpa using len) before with rfl | found
        · exact .inl rfl
        · exact .inr (found.append [b] [b])
      · exact .inr found

/-- A padding that can be undone and whose last block tells how many blocks there are. -/
structure Strengthened (pad : μ → List β) (P : μ → Prop) : Prop where
  nonempty : ∀ m, pad m ≠ []
  injective : ∀ m n, P m → P n → pad m = pad n → m = n
  length : ∀ m n, P m → P n → (pad m).getLast? = (pad n).getLast? → (pad m).length = (pad n).length

theorem Strengthened.collides {pad : μ → List β} {P : μ → Prop} (strong : Strengthened pad P) {m n : μ}
    (hm : P m) (hn : P n) (h : (pad m).foldl compress iv = (pad n).foldl compress iv) :
    m = n ∨ Collides compress iv (pad m) (pad n) := by
  by_cases last : (pad m).getLast? = (pad n).getLast?
  · rcases collides_of_length (strong.length m n hm hn last) h with same | found
    · exact .inl (strong.injective m n hm hn same)
    · exact .inr found
  · obtain ⟨l, b, hl⟩ := (pad m).eq_nil_or_concat'.resolve_left (strong.nonempty m)
    obtain ⟨k, c, hk⟩ := (pad n).eq_nil_or_concat'.resolve_left (strong.nonempty n)
    rw [hl, hk] at h last ⊢
    rcases collides_last h with ⟨_, rfl⟩ | found
    · simp at last
    · exact .inr found

end Mhda.IteratedHash
