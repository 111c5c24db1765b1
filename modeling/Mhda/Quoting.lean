import Mhda.DetailFacts

set_option autoImplicit false

/-!
# Quoted text

A quoted byte string is a sequence of escape words and a closing quote. No word
is the beginning of another one, so the string is read back from its quotation.
-/
namespace Mhda.Quoting
open Mhda.ByteString Mhda.Detail Mhda.DetailFacts Mhda.Numeral

/-- One word a symbol, which a reader cuts off the front of any text, and a stop that starts no word. -/
structure WordCode (α β : Type) where
  word : α → List β
  read : List β → Option (α × List β)
  stop : β
  read_word : ∀ a rest, read (word a ++ rest) = some (a, rest)
  word_start : ∀ a, ∀ b ∈ (word a).head?, b ≠ stop
  word_ne_nil : ∀ a, word a ≠ []

namespace WordCode
variable {α β : Type} (code : WordCode α β)

def text (s : List α) : List β := s.flatMap code.word ++ [code.stop]

/-- Reads words up to the stop; the fuel bounds their number. -/
def readText [DecidableEq β] : ℕ → List β → Option (List α × List β)
  | 0, _ => none
  | _ + 1, [] => none
  | fuel + 1, b :: t =>
    if b = code.stop then some ([], t)
    else (code.read (b :: t)).bind fun p => (readText fuel p.2).map fun q => (p.1 :: q.1, q.2)

theorem readText_text [DecidableEq β] (s : List α) (rest : List β) (fuel : ℕ) (hf : s.length < fuel) :
    code.readText fuel (code.text s ++ rest) = some (s, rest) := by
  induction s generalizing fuel with
  | nil =>
    obtain ⟨fuel, rfl⟩ := Nat.exists_eq_add_one.mpr hf
    simp [text, readText]
  | cons a s ih =>
    obtain ⟨fuel, rfl⟩ := Nat.exists_eq_add_one.mpr (Nat.zero_lt_of_lt hf)
    have tail := ih fuel (by simpa using hf)
    have split : code.text (a :: s) ++ rest = code.word a ++ (code.text s ++ rest) := by simp [text]
    have read := code.read_word a (code.text s ++ rest)
    rw [split]
    cases hw : code.word a with
    | nil => exact absurd hw (code.word_ne_nil a)
    | cons b word =>
      have start : b ≠ code.stop := code.word_start a b (by simp [hw])
      rw [hw] at read
      rw [List.cons_append] at read ⊢
      rw [readText, if_neg start, read, Option.bind_some, tail]
      rfl

theorem length_le_text (s : List α) : s.length < (code.text s).length := by
  induction s with
  | nil => simp [text]
  | cons a s ih =>
    have word := List.length_pos_of_ne_nil (code.word_ne_nil a)
    simp only [text, List.flatMap_cons, List.length_append, List.length_cons] at ih ⊢
    omega

end WordCode

section Escapes

def backslash : Byte := 0x5c

/-- The byte behind a backslash, other than the `x` of a hexadecimal word. -/
def named (d : Byte) : Byte :=
  if d = ch 'n' then 0x0a else if d = ch 'r' then 0x0d else if d = ch 't' then 0x09 else d

def readHex : Bytes → Option (Byte × Bytes)
  | h :: l :: t =>
    (hexDigit h).bind fun high => (hexDigit l).map fun low => (UInt8.ofNat (high * 16 + low), t)
  | _ => none

/-- Reads one escape word, or one byte that stands for itself. -/
def readEscape : Bytes → Option (Byte × Bytes)
  | [] => none
  | c :: t =>
    if c ≠ backslash then some (c, t)
    else match t with
      | [] => none
      | d :: t => if d = ch 'x' then readHex t else some (named d, t)

theorem readHex_append {t u rest : Bytes} {c : Byte} (h : readHex t = some (c, u)) :
    readHex (t ++ rest) = some (c, u ++ rest) := by
  match t with
  | [] => cases h
  | [_] => cases h
  | a :: b :: t =>
    simp only [readHex, Option.bind_eq_some_iff, Option.map_eq_some_iff, Prod.mk.injEq] at h
    obtain ⟨high, hhigh, low, hlow, rfl, rfl⟩ := h
    simp [readHex, hhigh, hlow]

theorem readEscape_append {t u rest : Bytes} {c : Byte} (h : readEscape t = some (c, u)) :
    readEscape (t ++ rest) = some (c, u ++ rest) := by
  match t with
  | [] => cases h
  | a :: t =>
    by_cases slash : a = backslash
    · subst slash
      match t with
      | [] => cases h
      | d :: t =>
        by_cases hex : d = ch 'x'
        · subst hex
          exact readHex_append h
        · simp only [readEscape, hex, ne_eq, not_true_eq_false, if_false, Option.some.injEq,
            Prod.mk.injEq] at h
          simp [readEscape, hex, h]
    · simp only [readEscape, ne_eq, slash, not_false_eq_true, if_true, Option.some.injEq,
        Prod.mk.injEq] at h
      obtain ⟨rfl, rfl⟩ := h
      simp [readEscape, slash]

theorem readEscape_quoteByte (c : Byte) : readEscape (quoteByte c) = some (c, []) := by
  revert c
  apply forall_byte
  decide +kernel

theorem quoteByte_start (c : Byte) : quoteByte c ≠ [] ∧ (quoteByte c).head? ≠ some (ch '"') := by
  revert c
  apply forall_byte
  decide +kernel

def escapes : WordCode Byte Byte where
  word := quoteByte
  read := readEscape
  stop := ch '"'
  read_word c rest := readEscape_append (readEscape_quoteByte c)
  word_start c b hb := by
    rintro rfl
    exact (quoteByte_start c).2 hb
  word_ne_nil c := (quoteByte_start c).1

theorem quote_eq (s : Bytes) : quote s = ch '"' :: escapes.text s := rfl

/-- The quoted byte string at the front of a text, and what follows its closing quote. -/
def unquote : Bytes → Option (Bytes × Bytes)
  | [] => none
  | c :: t => if c = ch '"' then escapes.readText t.length t else none

theorem unquote_quote (s rest : Bytes) : unquote (quote s ++ rest) = some (s, rest) := by
  have fuel : s.length < (escapes.text s ++ rest).length := by
    have := escapes.length_le_text s
    rw [List.length_append]
    omega
  rw [quote_eq, List.cons_append, unquote, if_pos rfl]
  exact escapes.readText_text s rest _ fuel

theorem quote_injective : Function.Injective quote := by
  intro s t h
  have read := unquote_quote s []
  rw [h, unquote_quote] at read
  simpa using read.symm

/-- Every double quote, and every backslash, is escaped by a backslash before it. -/
def escaped : Bytes → Bool
  | [] => true
  | c :: t =>
    if c = backslash then
      match t with
      | [] => false
      | _ :: t => escaped t
    else c != ch '"' && escaped t

theorem escaped_append {s t : Bytes} (hs : escaped s = true) (ht : escaped t = true) :
    escaped (s ++ t) = true := by
  fun_induction escaped s with
  | case1 => exact ht
  | case2 => cases hs
  | case3 d s ih => exact ih hs
  | case4 c s slash ih =>
    rw [Bool.and_eq_true] at hs
    have tail := ih hs.2
    rw [List.cons_append]
    unfold escaped
    simp [slash, hs.1, tail]

theorem escaped_quoteByte (c : Byte) : escaped (quoteByte c) = true := by
  revert c
  apply forall_byte
  decide +kernel

/-- Between its quotes a quoted string has none that is not escaped. -/
theorem quote_body (s : Bytes) : ∃ body, quote s = ch '"' :: body ++ [ch '"'] ∧ escaped body = true := by
  refine ⟨s.flatMap quoteByte, rfl, ?_⟩
  induction s with
  | nil => rfl
  | cons c s ih => exact escaped_append (escaped_quoteByte c) ih

end Escapes

section Printable

/-- Only bytes that a terminal or a log shows as they are. -/
def Printable (s : Bytes) : Prop := ∀ c ∈ s, 0x20 ≤ c.toNat ∧ c.toNat ≤ 0x7e

def printable (s : Bytes) : Bool := s.all fun c => decide (0x20 ≤ c.toNat ∧ c.toNat ≤ 0x7e)

theorem printable_iff (s : Bytes) : printable s = true ↔ Printable s := by
  simp [printable, Printable]

instance (s : Bytes) : Decidable (Printable s) := decidable_of_iff _ (printable_iff s)

theorem Printable.append {s t : Bytes} (hs : Printable s) (ht : Printable t) : Printable (s ++ t) := by
  intro c hc
  rcases List.mem_append.mp hc with hc | hc
  · exact hs c hc
  · exact ht c hc

theorem printable_nil : Printable [] := by simp [Printable]

theorem printable_nssByte (c : Byte) : nssByte c = true → 0x20 ≤ c.toNat ∧ c.toNat ≤ 0x7e := by
  revert c
  apply forall_byte
  decide +kernel

theorem printable_nssText {s : Bytes} (h : NssText s) : Printable s :=
  fun c hc => printable_nssByte c (h c hc)

theorem printable_quoteByte (c : Byte) : Printable (quoteByte c) := by
  revert c
  apply forall_byte
  decide +kernel

theorem printable_quote (s : Bytes) : Printable (quote s) := by
  intro c hc
  rw [quote, List.mem_append, List.mem_cons, List.mem_flatMap, List.mem_singleton] at hc
  rcases hc with (rfl | ⟨d, _, hc⟩) | rfl
  · decide
  · exact printable_quoteByte d c hc
  · decide

end Printable

end Mhda.Quoting
