import Mhda.Independence
import Mhda.NssRoutes
import Mhda.Quoting

set_option autoImplicit false

/-!
# The order of the component map

The map is a hash table, so a loop over it visits the components in an order that the
language leaves open, and a lookup does not depend on it. Everything that works on the map
is run here on any arrangement of its components.
-/
namespace Mhda.IterationOrder
open Mhda.ByteString Mhda.Errors Mhda.Detail Mhda.Nss Mhda.KeyValue Mhda.NssTokens Mhda.Transition Mhda.Chains
open Mhda.Addresses Mhda.Parser Mhda.Independence Mhda.Quoting

/-- An arrangement of every map. -/
def Arranges (order : Components → Components) : Prop := ∀ m, (order m).Perm m

section Readers
variable (order : Components → Components)

def parseAddressNssIn (nss : Bytes) : Except ParseError Address := do
  let components ← parseNssMap nss
  decodeMap (order components)

def parseUrnIn (src : Bytes) : Except ParseError Address :=
  let trimmed := trim src
  if !hasPrefixFold trimmed prefixMhda then .error (.bare .invalidUrn)
  else parseAddressNssIn order (trimRight (stripRqf (trimmed.drop prefixMhda.length)))

def parseNssIn (nss : Bytes) : Except ParseError Address := parseAddressNssIn order (trim nss)

def chainOf (m : Components) : Except ParseError Chain :=
  if (m.lookup compNetworkType).isNone then .error (.bare .missingNetworkType) else Chain.buildChain m

def fromNssIn (nss : Bytes) : Except ParseError Chain := do
  let components ← parseNssMap (trim nss)
  chainOf (order components)

def unexpected (kv : Bytes × Bytes) : Bool := kv.1 != compNetworkType && kv.1 != compChainId

/-- What `from_key` does with the map; the loop stops at the first unexpected component it visits. -/
def keyOf (trimmed : Bytes) (m : Components) : Except ParseError Chain :=
  if (m.lookup compCoinType).isSome then .error (.bare .coinTypeInChainKey)
  else match m.find? unexpected with
    | some kv => .error ⟨.invalidChainKey, lit "unexpected component " ++ quote kv.1⟩
    | none =>
      if (m.lookup compNetworkType).isNone then .error (.bare .missingNetworkType)
      else do
        let out ← Chain.buildChain m
        if out.str ≠ trimmed then .error ⟨.invalidChainKey, lit "not in canonical form: " ++ quote trimmed⟩
        else .ok out

def fromKeyIn (key : Bytes) : Except ParseError Chain :=
  let trimmed := trim key
  if !trimmed.isEmpty && trimmed.count (ch ':') % 2 == 0 then
    .error ⟨.invalidChainKey, lit "not a sequence of key:value pairs: " ++ quote trimmed⟩
  else do
    let components ← parseNssMap trimmed
    keyOf trimmed (order components)

end Readers

/-- Kept in the order of the text, the map gives the entry points themselves. -/
theorem readers_in_text_order (s : Bytes) :
    parseUrnIn id s = parseUrn s ∧ parseNssIn id s = parseNss s ∧ fromNssIn id s = Chain.fromNss s ∧
      fromKeyIn id s = Chain.fromKey s :=
  ⟨rfl, rfl, rfl, rfl⟩

section Lookups
variable {m m' : Components}

theorem buildChain_congr (h : ∀ k, m.lookup k = m'.lookup k) : Chain.buildChain m = Chain.buildChain m' := by
  unfold Chain.buildChain
  rw [h, h, h]

theorem chainOf_congr (h : ∀ k, m.lookup k = m'.lookup k) : chainOf m = chainOf m' := by
  rw [chainOf, chainOf, h, buildChain_congr h]

theorem lookup_arranged {order : Components → Components} (h : Arranges order) {nss : Bytes}
    (parsed : parseNssMap nss = .ok m) (k : Bytes) : (order m).lookup k = m.lookup k := by
  obtain ⟨ps, -, wf, rfl⟩ := (parseNssMap_eq_ok nss m).mp parsed
  exact (lookup_perm (h (known ps)).symm wf.2 k).symm

theorem find_perm (h : m.Perm m') : (m.find? unexpected).isSome = (m'.find? unexpected).isSome := by
  rw [Bool.eq_iff_iff, List.find?_isSome, List.find?_isSome]
  simp only [h.mem_iff]

end Lookups

section Keys
variable {order : Components → Components} {m : Components} {s : Bytes}

def Dangling (trimmed : Bytes) : Prop := (!trimmed.isEmpty && trimmed.count (ch ':') % 2 == 0) = true

theorem fromKeyIn_parsed (whole : ¬ Dangling (trim s)) (parsed : parseNssMap (trim s) = .ok m) :
    fromKeyIn order s = keyOf (trim s) (order m) := by
  rw [Dangling] at whole
  rw [fromKeyIn, if_neg whole, parsed]
  rfl

theorem fromKeyIn_unparsed (h : ∀ m, parseNssMap (trim s) = .ok m → Dangling (trim s)) :
    fromKeyIn order s = Chain.fromKey s := by
  rw [← (readers_in_text_order s).2.2.2, fromKeyIn, fromKeyIn]
  split
  · rfl
  · rename_i whole
    cases parsed : parseNssMap (trim s) with
    | error e => rfl
    | ok m => exact absurd (h m parsed) whole

theorem keyOf_clean {m' : Components} (t : Bytes) (h : ∀ k, m.lookup k = m'.lookup k) (clean : m.find? unexpected = none)
    (clean' : m'.find? unexpected = none) : keyOf t m = keyOf t m' := by
  rw [keyOf, keyOf, clean, clean', h, h, buildChain_congr h]

theorem keyOf_unexpected {kv : Bytes × Bytes} (t : Bytes) (noCoin : m.lookup compCoinType = none)
    (found : m.find? unexpected = some kv) :
    keyOf t m = .error ⟨.invalidChainKey, lit "unexpected component " ++ quote kv.1⟩ := by
  rw [keyOf, noCoin, found]
  rfl

theorem keyOf_coin (t : Bytes) (coin : (m.lookup compCoinType).isSome = true) :
    keyOf t m = .error (.bare .coinTypeInChainKey) := by
  rw [keyOf, if_pos coin]

/-- The map has two unexpected components, so the loop may stop at either. -/
def Ambiguous (s : Bytes) : Prop :=
  ¬ Dangling (trim s) ∧ ∃ m, parseNssMap (trim s) = .ok m ∧ m.lookup compCoinType = none ∧
    ∃ p ∈ m, ∃ q ∈ m, unexpected p = true ∧ unexpected q = true ∧ p.1 ≠ q.1

theorem fromKeyIn_cases (arranges : Arranges order) (s : Bytes) :
    fromKeyIn order s = Chain.fromKey s ∨ Ambiguous s ∧ ∃ p q : Bytes × Bytes,
      fromKeyIn order s = .error ⟨.invalidChainKey, lit "unexpected component " ++ quote p.1⟩ ∧
      Chain.fromKey s = .error ⟨.invalidChainKey, lit "unexpected component " ++ quote q.1⟩ := by
  by_cases unparsed : ∀ m, parseNssMap (trim s) = .ok m → Dangling (trim s)
  · exact .inl (fromKeyIn_unparsed unparsed)
  push Not at unparsed
  obtain ⟨m, parsed, whole⟩ := unparsed
  have lookups := lookup_arranged arranges parsed
  have text : Chain.fromKey s = keyOf (trim s) m := @fromKeyIn_parsed id m s whole parsed
  rw [fromKeyIn_parsed whole parsed, text]
  by_cases coin : (m.lookup compCoinType).isSome = true
  · refine .inl ?_
    rw [keyOf_coin _ coin, keyOf_coin _ (by rw [lookups]; exact coin)]
  have noCoin : m.lookup compCoinType = none := Option.not_isSome_iff_eq_none.mp coin
  have same := find_perm (arranges m)
  cases found : m.find? unexpected with
  | none =>
    rw [found] at same
    exact .inl (keyOf_clean _ lookups (Option.not_isSome_iff_eq_none.mp (by rw [same]; simp)) found)
  | some q =>
    rw [found] at same
    obtain ⟨p, first⟩ := Option.isSome_iff_exists.mp same
    have shown := keyOf_unexpected (trim s) noCoin found
    have shown' := keyOf_unexpected (trim s) (by rw [lookups]; exact noCoin) first
    by_cases key : p.1 = q.1
    · exact .inl (by rw [shown, shown', key])
    · have member : p ∈ m := (arranges m).mem_iff.mp (List.mem_of_find?_eq_some first)
      exact .inr ⟨⟨whole, m, parsed, noCoin, p, member, q, List.mem_of_find?_eq_some found, List.find?_some first,
        List.find?_some found, key⟩, p, q, shown', shown⟩

def showFirst (m : Components) (r : Bytes × Bytes) (m' : Components) : Components :=
  if m' = m ∧ r ∈ m then r :: m.erase r else m'

theorem showFirst_arranges (m : Components) (r : Bytes × Bytes) : Arranges (showFirst m r) := by
  intro m'
  by_cases this : m' = m ∧ r ∈ m
  · rw [showFirst, if_pos this, this.1]
    exact (List.perm_cons_erase this.2).symm
  · rw [showFirst, if_neg this]

theorem ambiguous_shows (h : Ambiguous s) : ∃ order, Arranges order ∧ fromKeyIn order s ≠ Chain.fromKey s := by
  obtain ⟨whole, m, parsed, noCoin, p, hp, q, hq, up, uq, key⟩ := h
  have text : Chain.fromKey s = keyOf (trim s) m := @fromKeyIn_parsed id m s whole parsed
  have some_ : (m.find? unexpected).isSome = true := List.find?_isSome.mpr ⟨p, hp, up⟩
  obtain ⟨first, found⟩ := Option.isSome_iff_exists.mp some_
  -- one of the two is not the component that the text shows first
  obtain ⟨r, hr, ur, other⟩ : ∃ r ∈ m, unexpected r = true ∧ r.1 ≠ first.1 := by
    by_cases same : p.1 = first.1
    · exact ⟨q, hq, uq, fun h => key (same.trans h.symm)⟩
    · exact ⟨p, hp, up, same⟩
  have arranges := showFirst_arranges m r
  have moved : (showFirst m r m).find? unexpected = some r := by
    rw [showFirst, if_pos ⟨rfl, hr⟩, List.find?_cons_of_pos ur]
  have absent : (showFirst m r m).lookup compCoinType = none := by
    rw [lookup_arranged arranges parsed]
    exact noCoin
  refine ⟨showFirst m r, arranges, ?_⟩
  rw [fromKeyIn_parsed whole parsed, text, keyOf_unexpected _ noCoin found, keyOf_unexpected _ absent moved]
  intro same
  have detail := congrArg ParseError.detail (Except.error.inj same)
  exact other (quote_injective (List.append_cancel_left detail))

end Keys

/-- The order of the map never decides whether a text is accepted, what it means or the code of its exception. Only
    the key that a refused chain key is blamed on may depend on it, and exactly when there are two. -/
theorem iteration_order (s : Bytes) :
    (∀ order, Arranges order → parseUrnIn order s = parseUrn s ∧ parseNssIn order s = parseNss s ∧
      fromNssIn order s = Chain.fromNss s ∧ outcome (fromKeyIn order s) = outcome (Chain.fromKey s)) ∧
    ((∃ order, Arranges order ∧ fromKeyIn order s ≠ Chain.fromKey s) ↔ Ambiguous s) := by
  refine ⟨fun order arranges => ?_, ?_, ambiguous_shows⟩
  · have address : ∀ nss, parseAddressNssIn order nss = parseAddressNss nss := by
      intro nss
      rw [parseAddressNssIn, parseAddressNss]
      cases parsed : parseNssMap nss with
      | error e => rfl
      | ok m => exact decodeMap_congr (lookup_arranged arranges parsed)
    have chain : fromNssIn order s = Chain.fromNss s := by
      rw [fromNssIn, Chain.fromNss]
      cases parsed : parseNssMap (trim s) with
      | error e => rfl
      | ok m => exact chainOf_congr (lookup_arranged arranges parsed)
    refine ⟨?_, address (trim s), chain, ?_⟩
    · rw [parseUrnIn, parseUrn, address]
    · rcases fromKeyIn_cases arranges s with same | ⟨-, p, q, run, text⟩
      · rw [same]
      · rw [run, text]
        rfl
  · rintro ⟨order, arranges, differ⟩
    rcases fromKeyIn_cases arranges s with same | ⟨ambiguous, -⟩
    · exact absurd same differ
    · exact ambiguous

end Mhda.IterationOrder
