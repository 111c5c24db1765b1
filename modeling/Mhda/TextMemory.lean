import Mhda.DetailFacts
import Mhda.NssParser
import Mhda.Parser
import Mhda.Memory

set_option autoImplicit false

namespace Mhda.TextMemory
open Mhda.ByteString Mhda.Errors Mhda.Nss Mhda.Memory

section Program

/-- `while (i < s.size() && is_ascii_space(s[i])) ++i`. -/
def skipSpaces (s : Bytes) : ℕ → Option (ℕ ⊕ ℕ) := fun i => do
  let space ← both (some (decide (i < s.length))) (do some (Detail.isAsciiSpace (← s[i]?)))
  if space then some (.inl (← size (i + 1))) else some (.inr i)

/-- `while (j > i && is_ascii_space(s[j - 1])) --j`. -/
def skipSpacesBack (s : Bytes) (i : ℕ) : ℕ → Option (ℕ ⊕ ℕ) := fun j => do
  let space ← both (some (decide (i < j))) (do some (Detail.isAsciiSpace (← s[(← sub j 1)]?)))
  if space then some (.inl (← sub j 1)) else some (.inr j)

def trim (s : Bytes) : Option Bytes := do
  let i ← loop (skipSpaces s) (s.length + 1) 0
  let j ← loop (skipSpacesBack s i) (s.length + 1) s.length
  substr s i (← sub j i)

def trimRight (s : Bytes) : Option Bytes := do
  let j ← loop (skipSpacesBack s 0) (s.length + 1) s.length
  substr s 0 j

/-- A round of the loop that leaves with `false` at the first difference. -/
def foldRound (a b : Bytes) : ℕ → Option (ℕ ⊕ Bool) := fun i => do
  if i < a.length then
    if Detail.asciiLower (← a[i]?) = Detail.asciiLower (← b[i]?) then some (.inl (← size (i + 1))) else some (.inr false)
  else some (.inr true)

def equalAsciiFold (a b : Bytes) : Option Bool :=
  if a.length ≠ b.length then some false else loop (foldRound a b) (a.length + 1) 0

def hasPrefixFold (s pre : Bytes) : Option Bool := do
  if s.length < pre.length then some false else equalAsciiFold (← substr s 0 pre.length) pre

/-- `find_first_of("?#")`. -/
def findRqf (s : Bytes) : Option ℕ := s.findIdx? Detail.opensRqf

def stripRqf (nss : Bytes) : Option Bytes :=
  match findRqf nss with
  | none => some nss
  | some i => substr nss 0 i

def splitRound (s : Bytes) (sep : Byte) (i : ℕ) (state : List Bytes × ℕ) : Option (List Bytes × ℕ) := do
  let ends ← either (some (i == s.length)) (do some ((← s[i]?) == sep))
  if ends then
    let field ← substr s state.2 (← sub i state.2)
    some (state.1 ++ [field], ← size (i + 1))
  else some state

/-- The positions run to the size itself, where the last field ends. -/
def split (s : Bytes) (sep : Byte) : Option (List Bytes) := do
  let last ← forLoop 0 (s.length + 1) (splitRound s sep) ([], 0)
  some last.1

def parseUint32 (s : Bytes) : Option (Option UInt32) := do
  if s.isEmpty then some none
  else
    let hex ← both (both (some (decide (2 ≤ s.length))) (do some ((← s[0]?) == ch '0')))
      (either (do some ((← s[1]?) == ch 'x')) (do some ((← s[1]?) == ch 'X')))
    if hex then
      let body ← removePrefix s 2
      if body.isEmpty then some none else some ((Detail.parseInBase body 16).bind Detail.narrow32)
    else some ((Detail.parseInBase s 10).bind Detail.narrow32)

/-- The loop over `parts`, by positions two at a time. -/
def nssRound (parts : List Bytes) : ℕ × Components → Option ((ℕ × Components) ⊕ Except ParseError Components) :=
  fun (i, out) => do
    if i < parts.length then
      let key ← parts[i]?
      if key.isEmpty then some (.inr (.error (invalidNss (lit "empty component key"))))
      else if !key.all Detail.nssByte then
        some (.inr (.error (invalidNss (lit "byte not allowed in component key " ++ Detail.quote key))))
      else
        let value ← parts[(← size (i + 1))]?
        if value.isEmpty then some (.inr (.error (invalidNss (lit "empty value for " ++ Detail.quote key))))
        else if !value.all Detail.nssByte then
          some (.inr (.error (invalidNss (lit "byte not allowed in value for " ++ Detail.quote key))))
        else if !isKnownComponent key then
          if isKnownComponent (Detail.toLower key) then
            some (.inr (.error (invalidNss (lit "component key " ++ Detail.quote key ++ lit " must be lowercase"))))
          else some (.inl (← size (i + 2), out))
        else if (out.lookup key).isSome then
          some (.inr (.error (invalidNss (lit "duplicate component " ++ Detail.quote key))))
        else some (.inl (← size (i + 2), out ++ [(key, value)]))
    else some (.inr (.ok out))

def parseNssMap (nss : Bytes) : Option (Except ParseError Components) := do
  if nss.isEmpty then some (.ok [])
  else match findRqf nss with
    | some i => some (.error (invalidNss (lit "'" ++ [← nss[i]?] ++ lit "' inside the NSS")))
    | none =>
      let parts ← split nss (ch ':')
      if parts.length % 2 ≠ 0 then
        some (.error (invalidNss (lit "missing value for " ++ Detail.quote (← parts.getLast?))))
      else loop (nssRound parts) (parts.length + 1) (0, [])

def withMap {α : Type} (nss : Bytes) (rest : Components → Except ParseError α) : Option (Except ParseError α) := do
  match ← parseNssMap nss with
  | .error e => some (.error e)
  | .ok components => some (rest components)

def parseAddressNss (nss : Bytes) : Option (Except ParseError Addresses.Address) :=
  withMap nss fun components =>
    if (components.lookup compNetworkType).isNone then .error (.bare .missingNetworkType)
    else Parser.parseAddressFromComponents components

def parseUrn (src : Bytes) : Option (Except ParseError Addresses.Address) := do
  let trimmed ← trim src
  if !(← hasPrefixFold trimmed prefixMhda) then some (.error (.bare .invalidUrn))
  else parseAddressNss (← trimRight (← stripRqf (← substrFrom trimmed prefixMhda.length)))

def parseNss (nss : Bytes) : Option (Except ParseError Addresses.Address) := do
  parseAddressNss (← trim nss)

def fromNss (nss : Bytes) : Option (Except ParseError Chains.Chain) := do
  withMap (← trim nss) fun components =>
    if (components.lookup compNetworkType).isNone then .error (.bare .missingNetworkType)
    else Chains.Chain.buildChain components

def fromKey (key : Bytes) : Option (Except ParseError Chains.Chain) := do
  let trimmed ← trim key
  if !trimmed.isEmpty && trimmed.count (ch ':') % 2 == 0 then
    some (.error ⟨.invalidChainKey, lit "not a sequence of key:value pairs: " ++ Detail.quote trimmed⟩)
  else withMap trimmed fun components =>
    if (components.lookup compCoinType).isSome then .error (.bare .coinTypeInChainKey)
    else match components.find? fun kv => kv.1 != compNetworkType && kv.1 != compChainId with
      | some kv => .error ⟨.invalidChainKey, lit "unexpected component " ++ Detail.quote kv.1⟩
      | none =>
        if (components.lookup compNetworkType).isNone then .error (.bare .missingNetworkType)
        else do
          let out ← Chains.Chain.buildChain components
          if out.str ≠ trimmed then
            .error ⟨.invalidChainKey, lit "not in canonical form: " ++ Detail.quote trimmed⟩
          else .ok out

end Program

section Scans

theorem position {α : Type} {s : List α} {i : ℕ} (h : i < s.length) :
    ∃ c, s[i]? = some c ∧ s.drop i = c :: s.drop (i + 1) :=
  ⟨s[i], List.getElem?_eq_getElem h, List.drop_eq_getElem_cons h⟩

theorem take_next {α : Type} {s : List α} {i j : ℕ} {c : α} (above : i ≤ j) (read : s[j]? = some c) :
    (s.drop i).take (j + 1 - i) = (s.drop i).take (j - i) ++ [c] := by
  have count : j + 1 - i = (j - i) + 1 := by omega
  have at_ : i + (j - i) = j := by omega
  rw [count, List.take_add_one, List.getElem?_drop, at_, read]
  rfl

theorem skipSpaces_at {s : Bytes} {i : ℕ} {c : Byte} (fits : s.length < 2 ^ 63) (hi : i < s.length) (read : s[i]? = some c) :
    skipSpaces s i = some (if Detail.isAsciiSpace c then .inl (i + 1) else .inr i) := by
  simp only [skipSpaces, decide_eq_true hi, both, some_bind, if_true, read, size_some (show i + 1 < 2 ^ 64 by omega)]
  split <;> rfl

theorem skipSpaces_end {s : Bytes} {i : ℕ} (hi : ¬ i < s.length) : skipSpaces s i = some (.inr i) := by
  simp only [skipSpaces, decide_eq_false hi]
  rfl

theorem skipSpacesBack_at {s : Bytes} {i j : ℕ} {c : Byte} (hj : i < j) (read : s[j - 1]? = some c) :
    skipSpacesBack s i j = some (if Detail.isAsciiSpace c then .inl (j - 1) else .inr j) := by
  simp only [skipSpacesBack, decide_eq_true hj, both, some_bind, if_true, sub_some (show 1 ≤ j by omega), read]
  split <;> rfl

theorem skipSpacesBack_end {s : Bytes} {i j : ℕ} (hj : ¬ i < j) : skipSpacesBack s i j = some (.inr j) := by
  simp only [skipSpacesBack, decide_eq_false hj]
  rfl

theorem skipSpaces_leaves {s : Bytes} (fits : s.length < 2 ^ 63) :
    ∃ i, loop (skipSpaces s) (s.length + 1) 0 = some i ∧ i ≤ s.length ∧
      s.drop i = s.dropWhile Detail.isAsciiSpace := by
  let inv : ℕ → Prop := fun i =>
    i ≤ s.length ∧ (s.drop i).dropWhile Detail.isAsciiSpace = s.dropWhile Detail.isAsciiSpace
  have step : ∀ i, inv i → (∃ i', skipSpaces s i = some (.inl i') ∧ inv i' ∧ s.length - i' < s.length - i) ∨
      ∃ j, skipSpaces s i = some (.inr j) ∧ (j ≤ s.length ∧ s.drop j = s.dropWhile Detail.isAsciiSpace) := by
    intro i ⟨bound, same⟩
    by_cases hi : i < s.length
    · obtain ⟨c, read, suffix⟩ := position hi
      rw [suffix] at same
      have run := skipSpaces_at fits hi read
      by_cases space : Detail.isAsciiSpace c = true
      · rw [if_pos space] at run
        rw [List.dropWhile_cons_of_pos space] at same
        exact .inl ⟨i + 1, run, ⟨by omega, same⟩, by omega⟩
      · rw [if_neg space] at run
        rw [List.dropWhile_cons_of_neg space, ← suffix] at same
        exact .inr ⟨i, run, bound, same⟩
    · have all : i = s.length := by omega
      rw [all, List.drop_length] at same
      exact .inr ⟨i, skipSpaces_end hi, bound, by rw [all, List.drop_length]; exact same⟩
  exact loop_leaves (μ := fun i => s.length - i) step ⟨Nat.zero_le _, rfl⟩ (by omega)

theorem skipSpacesBack_leaves {s : Bytes} {i : ℕ} (start : i ≤ s.length) :
    ∃ j, loop (skipSpacesBack s i) (s.length + 1) s.length = some j ∧ i ≤ j ∧
      (s.drop i).take (j - i) = (s.drop i).rdropWhile Detail.isAsciiSpace := by
  let inv : ℕ → Prop := fun j => i ≤ j ∧ j ≤ s.length ∧
    ((s.drop i).take (j - i)).rdropWhile Detail.isAsciiSpace = (s.drop i).rdropWhile Detail.isAsciiSpace
  have step : ∀ j, inv j → (∃ j', skipSpacesBack s i j = some (.inl j') ∧ inv j' ∧ j' < j) ∨
      ∃ k, skipSpacesBack s i j = some (.inr k) ∧
        (i ≤ k ∧ (s.drop i).take (k - i) = (s.drop i).rdropWhile Detail.isAsciiSpace) := by
    intro j ⟨above, bound, same⟩
    by_cases hj : i < j
    · obtain ⟨c, read, -⟩ := position (show j - 1 < s.length by omega)
      have last := take_next (show i ≤ j - 1 by omega) read
      rw [Nat.sub_add_cancel (show 1 ≤ j by omega)] at last
      rw [last] at same
      have run := skipSpacesBack_at hj read
      by_cases space : Detail.isAsciiSpace c = true
      · rw [if_pos space] at run
        rw [List.rdropWhile_concat_pos _ _ _ space] at same
        exact .inl ⟨j - 1, run, ⟨by omega, by omega, same⟩, by omega⟩
      · rw [if_neg space] at run
        rw [List.rdropWhile_concat_neg _ _ _ space, ← last] at same
        exact .inr ⟨j, run, above, same⟩
    · have all : j - i = 0 := by omega
      rw [all, List.take_zero] at same
      exact .inr ⟨j, skipSpacesBack_end hj, above, by rw [all, List.take_zero]; exact same⟩
  refine loop_leaves (μ := fun j => j) step ⟨start, Nat.le_refl _, ?_⟩ (by omega)
  rw [List.take_of_length_le (by rw [List.length_drop])]

theorem trim_run {s : Bytes} (fits : s.length < 2 ^ 63) : trim s = some (Detail.trim s) := by
  obtain ⟨i, front, bound, from_⟩ := skipSpaces_leaves fits
  obtain ⟨j, back, above, upTo⟩ := skipSpacesBack_leaves bound
  rw [trim, front, some_bind, back, some_bind, sub_some above, some_bind, substr, if_pos bound, upTo, from_]
  rfl

theorem trimRight_run (s : Bytes) : trimRight s = some (Detail.trimRight s) := by
  obtain ⟨j, back, -, upTo⟩ := skipSpacesBack_leaves (Nat.zero_le s.length)
  rw [List.drop_zero, Nat.sub_zero] at upTo
  rw [trimRight, back, some_bind, substr, if_pos (Nat.zero_le _), List.drop_zero, upTo]
  rfl

end Scans

section Prefixes

theorem equalAsciiFold_run {a b : Bytes} (fits : a.length < 2 ^ 63) :
    equalAsciiFold a b = some (Detail.equalAsciiFold a b) := by
  by_cases same : a.length = b.length
  swap
  · have differ : (a.length == b.length) = false := beq_eq_false_iff_ne.mpr same
    rw [equalAsciiFold, if_pos same, Detail.equalAsciiFold, differ]
    rfl
  let agree : Bytes → Bytes → Bool := fun a b => (a.zip b).all fun p => Detail.asciiLower p.1 == Detail.asciiLower p.2
  have step : ∀ i, (i ≤ a.length ∧ agree (a.drop i) (b.drop i) = agree a b) →
      (∃ i', foldRound a b i = some (.inl i') ∧ (i' ≤ a.length ∧ agree (a.drop i') (b.drop i') = agree a b) ∧
        a.length - i' < a.length - i) ∨ ∃ r, foldRound a b i = some (.inr r) ∧ r = agree a b := by
    intro i ⟨bound, rest⟩
    by_cases hi : i < a.length
    · obtain ⟨x, readA, suffixA⟩ := position hi
      obtain ⟨y, readB, suffixB⟩ := position (same ▸ hi)
      simp only [agree, suffixA, suffixB, List.zip_cons_cons, List.all_cons] at rest
      have run : foldRound a b i = if Detail.asciiLower x = Detail.asciiLower y then some (.inl (i + 1)) else some (.inr false) := by
        simp only [foldRound, hi, if_true, readA, readB, some_bind, size_some (show i + 1 < 2 ^ 64 by omega)]
      by_cases fold : Detail.asciiLower x = Detail.asciiLower y
      · rw [if_pos fold] at run
        rw [beq_iff_eq.mpr fold, Bool.true_and] at rest
        exact .inl ⟨i + 1, run, ⟨by omega, rest⟩, by omega⟩
      · rw [if_neg fold] at run
        rw [beq_eq_false_iff_ne.mpr fold, Bool.false_and] at rest
        exact .inr ⟨false, run, rest⟩
    · have all : i = a.length := by omega
      rw [all, List.drop_length] at rest
      exact .inr ⟨true, if_neg hi, rest⟩
  obtain ⟨r, run, value⟩ := loop_leaves (μ := fun i => a.length - i) step ⟨Nat.zero_le _, rfl⟩
    (show a.length - 0 < a.length + 1 by omega)
  have whole : (a.length == b.length) = true := beq_iff_eq.mpr same
  rw [equalAsciiFold, if_neg (not_not.mpr same), run, value, Detail.equalAsciiFold, whole, Bool.true_and]

theorem hasPrefixFold_run {s pre : Bytes} (fits : s.length < 2 ^ 63) :
    hasPrefixFold s pre = some (Detail.hasPrefixFold s pre) := by
  by_cases short : s.length < pre.length
  · rw [hasPrefixFold, if_pos short, Detail.hasPrefixFold, if_pos short]
  · have front : (s.take pre.length).length < 2 ^ 63 := by
      rw [List.length_take]
      omega
    rw [hasPrefixFold, if_neg short, substr, if_pos (Nat.zero_le _), some_bind, List.drop_zero, equalAsciiFold_run front,
      Detail.hasPrefixFold, if_neg short]

theorem stripRqf_run (nss : Bytes) : stripRqf nss = some (Detail.stripRqf nss) := by
  have cut : Detail.stripRqf nss = nss.take (nss.findIdx Detail.opensRqf) := by
    rw [Detail.stripRqf, List.takeWhile_eq_take_findIdx_not]
    simp only [Bool.not_not]
  cases found : nss.findIdx? Detail.opensRqf with
  | none =>
    have behind := List.findIdx?_eq_none_iff_findIdx_eq.mp found
    simp only [stripRqf, findRqf, found, cut, behind, List.take_length]
  | some i =>
    obtain ⟨-, at_⟩ := List.findIdx?_eq_some_iff_findIdx_eq.mp found
    simp only [stripRqf, findRqf, found, substr, Nat.zero_le, if_true, List.drop_zero, cut, at_]

end Prefixes

section Fields

/-- Before the end the fields so far and the split of the suffix are the split; at the end they are all of it. -/
structure SplitAt (s : Bytes) (sep : Byte) (i : ℕ) (state : List Bytes × ℕ) : Prop where
  open_ : i ≤ s.length → state.2 ≤ i ∧ sep ∉ (s.drop state.2).take (i - state.2) ∧
    state.1 ++ (s.drop state.2).splitOn sep = s.splitOn sep
  closed : s.length < i → state.1 = s.splitOn sep

theorem splitRound_keeps {s : Bytes} {sep : Byte} {i : ℕ} {state : List Bytes × ℕ} (fits : s.length < 2 ^ 63)
    (below : i < s.length + 1) (inv : SplitAt s sep i state) :
    ∃ state', splitRound s sep i state = some state' ∧ SplitAt s sep (i + 1) state' := by
  obtain ⟨out, start⟩ := state
  obtain ⟨le, absent, joined⟩ := inv.open_ (by omega)
  have field : substr s start (i - start) = some ((s.drop start).take (i - start)) := if_pos (by omega)
  have next : size (i + 1) = some (i + 1) := size_some (by omega)
  have suffix : s.drop start = (s.drop start).take (i - start) ++ s.drop i := by
    have cut := List.take_append_drop (i - start) (s.drop start)
    have at_ : start + (i - start) = i := by omega
    rw [List.drop_drop, at_] at cut
    exact cut.symm
  by_cases end_ : i = s.length
  · have run : splitRound s sep i (out, start) = some (out ++ [(s.drop start).take (i - start)], i + 1) := by
      simp only [splitRound, beq_iff_eq.mpr end_, either, if_true, some_bind, sub_some le, field, next]
    rw [end_, List.drop_length, List.append_nil] at suffix
    rw [end_, ← suffix] at absent
    refine ⟨_, run, fun h => absurd h (by omega), fun _ => ?_⟩
    rw [← joined, List.splitOn_eq_singleton absent, end_, ← suffix]
  · obtain ⟨c, read, head⟩ := position (show i < s.length by omega)
    have before : (i == s.length) = false := beq_eq_false_iff_ne.mpr end_
    rw [head] at suffix
    by_cases sepHere : c = sep
    · have run : splitRound s sep i (out, start) = some (out ++ [(s.drop start).take (i - start)], i + 1) := by
        simp only [splitRound, before, either, Bool.false_eq_true, if_false, some_bind, read, beq_iff_eq.mpr sepHere,
          if_true, sub_some le, field, next]
      refine ⟨_, run, fun _ => ⟨Nat.le_refl _, by simp, ?_⟩, fun h => absurd h (by omega)⟩
      rw [suffix, sepHere, List.splitOn_append_cons_self_of_not_mem absent] at joined
      rw [← joined, List.append_assoc]
      rfl
    · have run : splitRound s sep i (out, start) = some (out, start) := by
        simp only [splitRound, before, either, Bool.false_eq_true, if_false, some_bind, read,
          beq_eq_false_iff_ne.mpr sepHere]
      refine ⟨_, run, fun _ => ⟨by omega, ?_, joined⟩, fun h => absurd h (by omega)⟩
      rw [take_next le read, List.mem_append, List.mem_singleton, not_or]
      exact ⟨absent, fun h => sepHere h.symm⟩

theorem split_run {s : Bytes} (sep : Byte) (fits : s.length < 2 ^ 63) : split s sep = some (Detail.split s sep) := by
  have start : SplitAt s sep 0 ([], 0) := by
    refine ⟨fun _ => ⟨Nat.le_refl _, ?_, ?_⟩, fun h => absurd h (Nat.not_lt_zero _)⟩
    · simp
    · simp
  obtain ⟨last, run, fields⟩ := forLoop_invariant (Nat.zero_le (s.length + 1))
    (fun i state _ below inv => splitRound_keeps fits below inv) start
  rw [split, run, some_bind, fields.closed (Nat.lt_succ_self _)]
  rfl

end Fields

section Components

theorem parseUint32_run (s : Bytes) : parseUint32 s = some (Detail.parseUint32 s) := by
  match s with
  | [] => rfl
  | [c] => rfl
  | c :: d :: body =>
    have long : decide (2 ≤ (c :: d :: body).length) = true := decide_eq_true (by simp)
    have tail : removePrefix (c :: d :: body) 2 = some body := if_pos (by simp)
    simp only [parseUint32, List.isEmpty_cons, Bool.false_eq_true, if_false, long, both, either, some_bind, if_true,
      List.getElem?_cons_zero, List.getElem?_cons_succ, Detail.parseUint32, tail]
    by_cases zero : c = ch '0'
    swap
    · simp only [zero, beq_eq_false_iff_ne.mpr zero, Bool.false_eq_true, false_and, if_false, some_bind]
    by_cases lower : d = ch 'x'
    · simp only [zero, lower, beq_self_eq_true, if_true, true_and, true_or, some_bind]
      split <;> rfl
    by_cases upper : d = ch 'X'
    · have other : (ch 'X' == ch 'x') = false := by decide
      simp only [zero, upper, other, beq_self_eq_true, if_true, true_and, or_true, some_bind, Bool.false_eq_true, if_false]
      split <;> rfl
    · simp only [zero, beq_eq_false_iff_ne.mpr lower, beq_eq_false_iff_ne.mpr upper, beq_self_eq_true, if_true, lower,
        upper, or_self, and_false, some_bind, Bool.false_eq_true, if_false]

structure NssAt (parts : List Bytes) (state : ℕ × Components) (result : Except ParseError Components) : Prop where
  even : state.1 % 2 = 0
  inside : state.1 ≤ parts.length
  rest : parseNssLoop (parts.drop state.1) state.2 = result

theorem nssRound_keeps {parts : List Bytes} {i : ℕ} {out : Components} {result : Except ParseError Components}
    (fits : parts.length < 2 ^ 64) (pairs : parts.length % 2 = 0) (inv : NssAt parts (i, out) result) :
    (∃ next, nssRound parts (i, out) = some (.inl next) ∧ NssAt parts next result ∧
      parts.length - next.1 < parts.length - i) ∨ nssRound parts (i, out) = some (.inr result) := by
  obtain ⟨even, inside, rest⟩ := inv
  simp only at even inside rest
  by_cases hi : i < parts.length
  swap
  · have all : i = parts.length := by omega
    rw [all, List.drop_length] at rest
    refine .inr ?_
    simp only [nssRound, hi, if_false, ← rest]
    rfl
  obtain ⟨key, readKey, suffix⟩ := position hi
  obtain ⟨value, readValue, suffix'⟩ := position (show i + 1 < parts.length by omega)
  rw [suffix, suffix', parseNssLoop] at rest
  have sizes : size (i + 1) = some (i + 1) ∧ size (i + 2) = some (i + 2) :=
    ⟨size_some (by omega), size_some (by omega)⟩
  have goes : ∀ out', parseNssLoop (parts.drop (i + 2)) out' = result →
      NssAt parts (i + 2, out') result ∧ parts.length - (i + 2) < parts.length - i := by
    intro out' later
    exact ⟨⟨show (i + 2) % 2 = 0 by omega, show i + 2 ≤ parts.length by omega, later⟩, by omega⟩
  simp only [nssRound, hi, if_true, readKey, some_bind, sizes.1, sizes.2, readValue]
  by_cases noKey : key.isEmpty = true
  · rw [if_pos noKey] at rest ⊢
    exact .inr (by rw [rest])
  rw [if_neg noKey] at rest ⊢
  by_cases badKey : (!key.all Detail.nssByte) = true
  · rw [if_pos badKey] at rest ⊢
    exact .inr (by rw [rest])
  rw [if_neg badKey] at rest ⊢
  by_cases noValue : value.isEmpty = true
  · rw [if_pos noValue] at rest ⊢
    exact .inr (by rw [rest])
  rw [if_neg noValue] at rest ⊢
  by_cases badValue : (!value.all Detail.nssByte) = true
  · rw [if_pos badValue] at rest ⊢
    exact .inr (by rw [rest])
  rw [if_neg badValue] at rest ⊢
  by_cases unknown : (!isKnownComponent key) = true
  · rw [if_pos unknown] at rest ⊢
    by_cases upper : isKnownComponent (Detail.toLower key) = true
    · rw [if_pos upper] at rest ⊢
      exact .inr (by rw [rest])
    · rw [if_neg upper] at rest ⊢
      exact .inl ⟨_, rfl, goes out rest⟩
  rw [if_neg unknown] at rest ⊢
  by_cases duplicate : (out.lookup key).isSome = true
  · rw [if_pos duplicate] at rest ⊢
    exact .inr (by rw [rest])
  · rw [if_neg duplicate] at rest ⊢
    exact .inl ⟨_, rfl, goes _ rest⟩

theorem length_split (s : Bytes) (sep : Byte) : (Detail.split s sep).length ≤ s.length + 1 := by
  induction s with
  | nil => simp [Detail.split]
  | cons c s ih =>
    rw [Detail.split] at ih
    rw [Detail.split, List.splitOn_cons_eq_if_modifyHead]
    split <;> simp only [List.length_cons, List.length_modifyHead] <;> omega

theorem nssLoop_run {parts : List Bytes} (fits : parts.length < 2 ^ 64) (pairs : parts.length % 2 = 0) :
    loop (nssRound parts) (parts.length + 1) (0, []) = some (parseNssLoop parts []) := by
  have step : ∀ state, NssAt parts state (parseNssLoop parts []) →
      (∃ next, nssRound parts state = some (.inl next) ∧ NssAt parts next (parseNssLoop parts []) ∧
        parts.length - next.1 < parts.length - state.1) ∨
      ∃ r, nssRound parts state = some (.inr r) ∧ r = parseNssLoop parts [] := by
    intro state inv
    rcases nssRound_keeps fits pairs inv with goes | done
    · exact .inl goes
    · exact .inr ⟨_, done, rfl⟩
  have start : NssAt parts (0, []) (parseNssLoop parts []) := ⟨rfl, Nat.zero_le _, rfl⟩
  have enough : parts.length - (0, ([] : Components)).1 < parts.length + 1 := by simp only; omega
  obtain ⟨r, run, same⟩ := loop_leaves (μ := fun state : ℕ × Components => parts.length - state.1) step start enough
  rw [run, same]

theorem parseNssMap_run {nss : Bytes} (fits : nss.length < 2 ^ 63) : parseNssMap nss = some (Nss.parseNssMap nss) := by
  rw [parseNssMap, Nss.parseNssMap]
  by_cases empty : nss.isEmpty = true
  · rw [if_pos empty, if_pos empty]
  rw [if_neg empty, if_neg empty, List.find?_eq_bind_findIdx?_getElem?, findRqf]
  cases found : nss.findIdx? Detail.opensRqf with
  | some i =>
    obtain ⟨hi, -⟩ := List.findIdx?_eq_some_iff_findIdx_eq.mp found
    obtain ⟨c, read, -⟩ := position hi
    simp only [Option.bind_some, read, some_bind]
  | none =>
    have count := length_split nss (ch ':')
    simp only [Option.bind_none, split_run _ fits, some_bind]
    generalize Detail.split nss (ch ':') = parts at count
    by_cases odd : parts.length % 2 ≠ 0
    · have some_ : parts ≠ [] := by
        intro none
        rw [none] at odd
        exact odd rfl
      have back := List.getLast?_eq_some_getLast some_
      have default : parts.getLastD [] = parts.getLast some_ := by
        rw [List.getLastD_eq_getLast?, back]
        rfl
      rw [if_pos odd, if_pos odd, back, default]
      rfl
    · rw [if_neg odd, if_neg odd]
      exact nssLoop_run (by omega) (by omega)

end Components

section EntryPoints

theorem length_cut (s : Bytes) (n : ℕ) : (Detail.trimRight (Detail.stripRqf (s.drop n))).length ≤ s.length := by
  have back := (List.rdropWhile_prefix Detail.isAsciiSpace (Detail.stripRqf (s.drop n))).length_le
  have front := (List.takeWhile_prefix (fun c => !Detail.opensRqf c) (l := s.drop n)).length_le
  rw [List.length_drop] at front
  rw [Detail.trimRight]
  rw [Detail.stripRqf] at back ⊢
  omega

theorem withMap_run {α : Type} {nss : Bytes} (fits : nss.length < 2 ^ 63) (rest : Components → Except ParseError α) :
    withMap nss rest = some (Nss.parseNssMap nss >>= rest) := by
  rw [withMap, parseNssMap_run fits, some_bind]
  cases Nss.parseNssMap nss <;> rfl

/-- No text makes an entry point read outside a text or a list of parts, and what comes back is the pure result. -/
theorem texts_defined {s : Bytes} (fits : s.length < 2 ^ 63) :
    parseUrn s = some (Parser.parseUrn s) ∧ parseNss s = some (Parser.parseNss s) ∧
      fromNss s = some (Chains.Chain.fromNss s) ∧ fromKey s = some (Chains.Chain.fromKey s) ∧
      trim s = some (Detail.trim s) ∧ parseUint32 s = some (Detail.parseUint32 s) := by
  have trimmed : (Detail.trim s).length < 2 ^ 63 := by
    have le := DetailFacts.length_trim s
    omega
  have run := trim_run fits
  refine ⟨?_, ?_, ?_, ?_, run, parseUint32_run s⟩
  · simp only [parseUrn, run, some_bind, hasPrefixFold_run trimmed, Parser.parseUrn]
    by_cases spelled : Detail.hasPrefixFold (Detail.trim s) prefixMhda = true
    · have long : prefixMhda.length ≤ (Detail.trim s).length := by
        by_contra short
        rw [Detail.hasPrefixFold, if_pos (by omega)] at spelled
        cases spelled
      have cut := length_cut (Detail.trim s) prefixMhda.length
      simp only [spelled, Bool.not_true, Bool.false_eq_true, if_false, substrFrom, long, if_true, some_bind, stripRqf_run,
        trimRight_run]
      exact withMap_run (by omega) _
    · simp only [spelled, Bool.not_false, if_true]
  · rw [parseNss, run, some_bind]
    exact withMap_run trimmed _
  · rw [fromNss, run, some_bind]
    exact withMap_run trimmed _
  · simp only [fromKey, run, some_bind, Chains.Chain.fromKey]
    split
    · rfl
    · exact withMap_run trimmed _

/-- A key without its value, behind a space. -/
theorem texts_defined_dangling :
    parseUrn (lit " urn:mhda:nt") = some (Parser.parseUrn (lit " urn:mhda:nt")) ∧
      parseNss (lit " urn:mhda:nt") = some (Parser.parseNss (lit " urn:mhda:nt")) ∧
      fromNss (lit " urn:mhda:nt") = some (Chains.Chain.fromNss (lit " urn:mhda:nt")) ∧
      fromKey (lit " urn:mhda:nt") = some (Chains.Chain.fromKey (lit " urn:mhda:nt")) ∧
      trim (lit " urn:mhda:nt") = some (Detail.trim (lit " urn:mhda:nt")) ∧
      parseUint32 (lit " urn:mhda:nt") = some (Detail.parseUint32 (lit " urn:mhda:nt")) :=
  texts_defined (by decide)

end EntryPoints

end Mhda.TextMemory
