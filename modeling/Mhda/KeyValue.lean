import Mathlib.Data.List.Nodup
import Mathlib.Data.List.Perm.Basic

set_option autoImplicit false

/-!
# Key-value text

A list of key-value pairs is written with one separator between any two tokens.
Without the separator inside a token the text determines the pairs. The second
part is about association lists whose keys are distinct.
-/
namespace Mhda.KeyValue

section Text
variable {α : Type}

def tokens (ps : List (List α × List α)) : List (List α) := ps.flatMap fun p => [p.1, p.2]

def pairUp : List (List α) → List (List α × List α)
  | k :: v :: rest => (k, v) :: pairUp rest
  | _ => []

def joinPairs (sep : α) (ps : List (List α × List α)) : List α := [sep].intercalate (tokens ps)

/-- Pairs that follow others in a text: each token behind its separator. -/
def emitPairs (sep : α) (ps : List (List α × List α)) : List α :=
  ps.flatMap fun p => sep :: p.1 ++ sep :: p.2

@[simp] theorem emitPairs_nil (sep : α) : emitPairs sep [] = [] := rfl

@[simp] theorem tokens_nil : tokens ([] : List (List α × List α)) = [] := rfl

@[simp] theorem tokens_cons (p : List α × List α) (ps : List (List α × List α)) :
    tokens (p :: ps) = p.1 :: p.2 :: tokens ps := rfl

theorem pairUp_tokens (ps : List (List α × List α)) : pairUp (tokens ps) = ps := by
  induction ps with
  | nil => rfl
  | cons p ps ih => simp only [tokens_cons, pairUp, ih]

theorem tokens_pairUp (ts : List (List α)) (h : ts.length % 2 = 0) : tokens (pairUp ts) = ts := by
  induction ts using pairUp.induct with
  | case1 k v rest ih =>
    simp only [List.length_cons] at h
    rw [pairUp, tokens_cons, ih (by omega)]
  | case2 ts hts =>
    match ts, hts with
    | [], _ => rfl
    | [t], _ => simp at h
    | k :: v :: rest, hts => exact absurd rfl (hts k v rest)

theorem mem_of_mem_tokens_pairUp {ts : List (List α)} {t : List α} (h : t ∈ tokens (pairUp ts)) : t ∈ ts := by
  induction ts using pairUp.induct with
  | case1 k v rest ih =>
    rw [pairUp, tokens_cons, List.mem_cons, List.mem_cons] at h
    rcases h with rfl | rfl | h
    · simp
    · simp
    · simp [ih h]
  | case2 ts hts =>
    match ts, hts with
    | [], _ => exact h
    | [u], _ => simp [pairUp] at h
    | k :: v :: rest, hts => exact absurd rfl (hts k v rest)

theorem length_tokens (ps : List (List α × List α)) : (tokens ps).length = 2 * ps.length := by
  induction ps with
  | nil => rfl
  | cons p ps ih =>
    simp only [tokens_cons, List.length_cons, ih]
    omega

theorem mem_tokens {ps : List (List α × List α)} {t : List α} :
    t ∈ tokens ps ↔ ∃ p ∈ ps, t = p.1 ∨ t = p.2 := by
  simp [tokens]

theorem joinPairs_cons (sep : α) (p : List α × List α) (ps : List (List α × List α)) :
    joinPairs sep (p :: ps) = p.1 ++ sep :: p.2 ++ emitPairs sep ps := by
  induction ps generalizing p with
  | nil => simp [joinPairs, List.intercalate]
  | cons q ps ih =>
    have tail := ih q
    simp only [joinPairs, tokens_cons, List.intercalate, List.intersperse_cons_cons, List.flatten_cons] at tail ⊢
    rw [tail]
    simp [emitPairs]

theorem emitPairs_eq (sep : α) {ps : List (List α × List α)} (h : ps ≠ []) :
    emitPairs sep ps = sep :: joinPairs sep ps := by
  obtain ⟨p, qs, rfl⟩ := List.exists_cons_of_ne_nil h
  rw [joinPairs_cons]
  simp [emitPairs]

theorem mem_pairUp {ts : List (List α)} {k v : List α} :
    (k, v) ∈ pairUp ts ↔ ∃ i, ts[2 * i]? = some k ∧ ts[2 * i + 1]? = some v := by
  induction ts using pairUp.induct with
  | case1 a b rest ih =>
    rw [pairUp, List.mem_cons, ih, Prod.mk.injEq]
    constructor
    · rintro (⟨rfl, rfl⟩ | ⟨i, hk, hv⟩)
      · exact ⟨0, rfl, rfl⟩
      · exact ⟨i + 1, hk, hv⟩
    · rintro ⟨i, hk, hv⟩
      cases i with
      | zero => exact .inl ⟨(Option.some.inj hk).symm, (Option.some.inj hv).symm⟩
      | succ i => exact .inr ⟨i, hk, hv⟩
  | case2 ts hts =>
    match ts, hts with
    | [], _ => simp [pairUp]
    | [t], _ =>
      refine iff_of_false (by simp [pairUp]) ?_
      rintro ⟨i, _, hv⟩
      simp at hv
    | a :: b :: rest, hts => exact absurd rfl (hts a b rest)

theorem mem_emitPairs {sep : α} {ps : List (List α × List α)} {c : α} (h : c ∈ emitPairs sep ps) :
    c = sep ∨ ∃ t ∈ tokens ps, c ∈ t := by
  simp only [emitPairs, List.mem_flatMap, List.mem_append, List.mem_cons] at h
  obtain ⟨p, hp, (rfl | hc) | rfl | hc⟩ := h
  · exact .inl rfl
  · exact .inr ⟨p.1, mem_tokens.mpr ⟨p, hp, .inl rfl⟩, hc⟩
  · exact .inl rfl
  · exact .inr ⟨p.2, mem_tokens.mpr ⟨p, hp, .inr rfl⟩, hc⟩

theorem mem_joinPairs {sep : α} {ps : List (List α × List α)} {c : α} (h : c ∈ joinPairs sep ps) :
    c = sep ∨ ∃ t ∈ tokens ps, c ∈ t := by
  cases ps with
  | nil => simp [joinPairs, List.intercalate] at h
  | cons p ps =>
    rw [joinPairs_cons, List.mem_append, List.mem_append, List.mem_cons] at h
    rcases h with (hc | rfl | hc) | hc
    · exact .inr ⟨p.1, by simp, hc⟩
    · exact .inl rfl
    · exact .inr ⟨p.2, by simp, hc⟩
    · rcases mem_emitPairs hc with rfl | ⟨t, ht, hct⟩
      · exact .inl rfl
      · exact .inr ⟨t, by simp [ht], hct⟩

theorem getLast_joinPairs {sep : α} {ps : List (List α × List α)} {c : α}
    (h : c ∈ (joinPairs sep ps).getLast?) : c = sep ∨ ∃ t ∈ tokens ps, c ∈ t.getLast? := by
  induction ps with
  | nil => simp [joinPairs, List.intercalate] at h
  | cons p ps ih =>
    cases ps with
    | nil =>
      rw [joinPairs_cons, emitPairs_nil, List.append_nil, List.getLast?_append] at h
      cases hv : p.2 with
      | nil => simp [hv] at h; exact .inl h.symm
      | cons x v =>
        right
        refine ⟨p.2, by simp, ?_⟩
        simpa [hv, List.getLast?_cons_cons] using h
    | cons q ps =>
      have split : joinPairs sep (p :: q :: ps) = (p.1 ++ sep :: p.2 ++ [sep]) ++ joinPairs sep (q :: ps) := by
        rw [joinPairs_cons, joinPairs_cons]
        simp [emitPairs]
      have ne : joinPairs sep (q :: ps) ≠ [] := by rw [joinPairs_cons]; simp
      rw [split, List.getLast?_append_of_ne_nil _ ne] at h
      rcases ih h with rfl | ⟨t, ht, hc⟩
      · exact .inl rfl
      · exact .inr ⟨t, by simp [tokens_cons] at ht ⊢; tauto, hc⟩

theorem head_joinPairs {sep : α} {ps : List (List α × List α)} {c : α}
    (h : c ∈ (joinPairs sep ps).head?) : c = sep ∨ ∃ t ∈ tokens ps, c ∈ t.head? := by
  cases ps with
  | nil => simp [joinPairs, List.intercalate] at h
  | cons p ps =>
    rw [joinPairs_cons] at h
    cases hk : p.1 with
    | nil => simp [hk] at h; exact .inl h.symm
    | cons x k =>
      refine .inr ⟨p.1, by simp, ?_⟩
      simpa [hk] using h

variable [DecidableEq α]

theorem count_emitPairs (sep : α) {ps : List (List α × List α)} (h : ∀ t ∈ tokens ps, sep ∉ t) :
    (emitPairs sep ps).count sep = 2 * ps.length := by
  induction ps with
  | nil => rfl
  | cons p ps ih =>
    rw [tokens_cons] at h
    have key : p.1.count sep = 0 := List.count_eq_zero.mpr (h _ (by simp))
    have value : p.2.count sep = 0 := List.count_eq_zero.mpr (h _ (by simp))
    have tail := ih fun t ht => h t (by simp [ht])
    have cut : emitPairs sep (p :: ps) = sep :: p.1 ++ sep :: p.2 ++ emitPairs sep ps := rfl
    rw [cut, List.count_append, List.count_append, List.count_cons_self, List.count_cons_self, key, value, tail,
      List.length_cons]
    omega

/-- Between the tokens of at least one pair there is an odd number of separators. -/
theorem count_joinPairs (sep : α) {ps : List (List α × List α)} (hne : ps ≠ []) (h : ∀ t ∈ tokens ps, sep ∉ t) :
    (joinPairs sep ps).count sep % 2 = 1 := by
  have count := count_emitPairs sep h
  rw [emitPairs_eq sep hne, List.count_cons_self] at count
  omega

theorem not_mem_of_mem_splitOn {sep : α} {s t : List α} (h : t ∈ s.splitOn sep) : sep ∉ t := by
  induction s generalizing t with
  | nil =>
    rw [List.splitOn_nil, List.mem_singleton] at h
    simp [h]
  | cons c s ih =>
    rw [List.splitOn_cons_eq_if_modifyHead] at h
    split at h
    · rcases List.mem_cons.mp h with rfl | h
      · exact List.not_mem_nil
      · exact ih h
    · rename_i hc
      obtain ⟨u, us, hu⟩ := List.exists_cons_of_ne_nil (List.splitOn_ne_nil sep s)
      rw [hu, List.modifyHead_cons] at h
      rcases List.mem_cons.mp h with rfl | h
      · have tail : sep ∉ u := ih (by simp [hu])
        simp only [beq_iff_eq] at hc
        rw [List.mem_cons, not_or]
        exact ⟨Ne.symm hc, tail⟩
      · exact ih (by simp [hu, h])

theorem splitOn_joinPairs (sep : α) (ps : List (List α × List α)) (hne : ps ≠ [])
    (h : ∀ t ∈ tokens ps, sep ∉ t) : (joinPairs sep ps).splitOn sep = tokens ps := by
  apply List.splitOn_intercalate sep h
  cases ps with
  | nil => exact absurd rfl hne
  | cons p ps => simp

theorem joinPairs_injective (sep : α) {ps qs : List (List α × List α)}
    (hp : ∀ t ∈ tokens ps, sep ∉ t) (hq : ∀ t ∈ tokens qs, sep ∉ t)
    (h : joinPairs sep ps = joinPairs sep qs) : ps = qs := by
  have nonempty : ∀ rs : List (List α × List α), rs ≠ [] → joinPairs sep rs ≠ joinPairs sep [] := by
    intro rs hr
    cases rs with
    | nil => exact absurd rfl hr
    | cons r rs => rw [joinPairs_cons]; simp [joinPairs, List.intercalate]
  by_cases hpe : ps = []
  · subst hpe
    by_contra hne
    exact nonempty qs (Ne.symm hne) h.symm
  · by_cases hqe : qs = []
    · subst hqe
      exact absurd h (nonempty ps hpe)
    · have same := congrArg (List.splitOn sep) h
      rw [splitOn_joinPairs sep ps hpe hp, splitOn_joinPairs sep qs hqe hq] at same
      rw [← pairUp_tokens ps, same, pairUp_tokens]

end Text

section Length
variable {α : Type}

/-- Pairs under distinct keys that others hold with values as long make no longer text. -/
theorem emitPairs_length_le (sep : α) {ps qs : List (List α × List α)} (distinct : (ps.map Prod.fst).Nodup)
    (held : ∀ p ∈ ps, ∃ v, (p.1, v) ∈ qs ∧ p.2.length ≤ v.length) :
    (emitPairs sep ps).length ≤ (emitPairs sep qs).length := by
  induction ps generalizing qs with
  | nil => exact Nat.zero_le _
  | cons p ps ih =>
    rw [List.map_cons, List.nodup_cons] at distinct
    obtain ⟨fresh, distinct⟩ := distinct
    obtain ⟨v, hv, longer⟩ := held p (List.mem_cons_self ..)
    obtain ⟨before, after, rfl⟩ := List.append_of_mem hv
    have rest : (emitPairs sep ps).length ≤ (emitPairs sep (before ++ after)).length := by
      refine ih distinct fun q hq => ?_
      obtain ⟨w, hw, longer⟩ := held q (List.mem_cons_of_mem _ hq)
      refine ⟨w, ?_, longer⟩
      have other : q.1 ≠ p.1 := fun same => fresh (same ▸ List.mem_map_of_mem hq)
      simp only [List.mem_append, List.mem_cons, Prod.mk.injEq] at hw ⊢
      rcases hw with hw | ⟨same, _⟩ | hw
      · exact .inl hw
      · exact absurd same other
      · exact .inr hw
    simp only [emitPairs, List.flatMap_cons, List.flatMap_append, List.length_append, List.length_cons] at rest ⊢
    omega

theorem joinPairs_length (sep : α) (ps : List (List α × List α)) :
    (joinPairs sep ps).length = (emitPairs sep ps).length - 1 := by
  cases ps with
  | nil => rfl
  | cons p ps => rw [emitPairs_eq sep (List.cons_ne_nil p ps), List.length_cons, Nat.add_sub_cancel]

end Length

section Scan
variable {α : Type}

def terminated (sep : α) (ts : List (List α)) : List α := ts.flatMap fun t => t ++ [sep]

theorem terminated_cons (sep : α) (t : List α) (ts : List (List α)) :
    terminated sep (t :: ts) = t ++ sep :: terminated sep ts := by
  simp [terminated]

theorem joinPairs_terminated (sep : α) {ps : List (List α × List α)} (h : ps ≠ []) :
    joinPairs sep ps ++ [sep] = terminated sep (tokens ps) := by
  cases ps with
  | nil => exact absurd rfl h
  | cons p ps =>
    have emitted : emitPairs sep ps ++ [sep] = sep :: terminated sep (tokens ps) := by
      induction ps with
      | nil => rfl
      | cons q ps ih => simpa [emitPairs, terminated_cons] using ih
    rw [joinPairs_cons, tokens_cons, terminated_cons, terminated_cons, List.append_assoc, emitted]
    simp

theorem scan_token {sep : α} {x y v : List α} (hx : sep ∉ x) : x <+: y ++ sep :: v ↔ x <+: y := by
  induction x generalizing y with
  | nil => simp
  | cons c x ih =>
    rw [List.mem_cons, not_or] at hx
    cases y with
    | nil => simp [Ne.symm hx.1]
    | cons d y => rw [List.cons_append, List.cons_prefix_cons, List.cons_prefix_cons, ih hx.2]

theorem scan_sep {sep : α} {x y u v : List α} (hx : sep ∉ x) (hy : sep ∉ y) :
    x ++ sep :: u <+: y ++ sep :: v ↔ x = y ∧ u <+: v := by
  induction x generalizing y with
  | nil =>
    cases y with
    | nil => simp
    | cons d y =>
      have other : sep ≠ d := fun h => hy (h ▸ List.mem_cons_self ..)
      simp [other]
  | cons c x ih =>
    rw [List.mem_cons, not_or] at hx
    cases y with
    | nil => simp [Ne.symm hx.1]
    | cons d y =>
      rw [List.mem_cons, not_or] at hy
      rw [List.cons_append, List.cons_append, List.cons_prefix_cons, ih hx.2 hy.2, List.cons.injEq, and_assoc]

theorem terminated_scan {sep : α} {ts us : List (List α)} (ht : ∀ t ∈ ts, sep ∉ t) (hu : ∀ u ∈ us, sep ∉ u) :
    terminated sep ts <+: terminated sep us ↔ ts <+: us := by
  induction ts generalizing us with
  | nil => simp [terminated]
  | cons t ts ih =>
    cases us with
    | nil => simp [terminated]
    | cons u us =>
      rw [List.forall_mem_cons] at ht hu
      rw [terminated_cons, terminated_cons, scan_sep ht.1 hu.1, ih ht.2 hu.2, List.cons_prefix_cons]

theorem tokens_scan {ps qs : List (List α × List α)} : tokens ps <+: tokens qs ↔ ps <+: qs := by
  induction ps generalizing qs with
  | nil => simp
  | cons p ps ih =>
    cases qs with
    | nil => simp
    | cons q qs =>
      rw [tokens_cons, tokens_cons, List.cons_prefix_cons, List.cons_prefix_cons, List.cons_prefix_cons, ih, Prod.ext_iff,
        and_assoc]

theorem joinPairs_scan {sep : α} {ps qs : List (List α × List α)} (hp : ps ≠ []) (hq : qs ≠ [])
    (htp : ∀ t ∈ tokens ps, sep ∉ t) (htq : ∀ t ∈ tokens qs, sep ∉ t) :
    joinPairs sep ps ++ [sep] <+: joinPairs sep qs ++ [sep] ↔ ps <+: qs := by
  rw [joinPairs_terminated sep hp, joinPairs_terminated sep hq, terminated_scan htp htq, tokens_scan]

end Scan

section Association
variable {κ ν : Type}

def optPair (k : κ) (o : Option ν) : List (κ × ν) := o.elim [] fun v => [(k, v)]

@[simp] theorem optPair_none (k : κ) : optPair k (none : Option ν) = [] := rfl
@[simp] theorem optPair_some (k : κ) (v : ν) : optPair k (some v) = [(k, v)] := rfl

variable [DecidableEq κ] [BEq κ] [LawfulBEq κ]

theorem lookup_cons_if (k q : κ) (v : ν) (ps : List (κ × ν)) :
    ((k, v) :: ps).lookup q = if q = k then some v else ps.lookup q := by
  rw [List.lookup_cons]
  by_cases h : q = k
  · simp [h]
  · simp [h, beq_eq_false_iff_ne.mpr h]

theorem lookup_isSome_iff (ps : List (κ × ν)) (k : κ) : (ps.lookup k).isSome = true ↔ k ∈ ps.map Prod.fst := by
  induction ps with
  | nil => simp
  | cons p ps ih =>
    obtain ⟨a, b⟩ := p
    rw [lookup_cons_if, List.map_cons, List.mem_cons]
    by_cases hk : k = a
    · simp [hk]
    · simp only [hk, if_false, false_or]
      exact ih

theorem lookup_optPair (k q : κ) (o : Option ν) :
    (optPair k o).lookup q = if q = k then o else none := by
  cases o with
  | none => simp
  | some v => rw [optPair_some, lookup_cons_if, List.lookup_nil]

theorem lookup_without (ps : List (κ × ν)) (k q : κ) :
    (ps.filter fun p => p.1 != k).lookup q = if q = k then none else ps.lookup q := by
  induction ps with
  | nil => simp
  | cons p ps ih =>
    obtain ⟨r, v⟩ := p
    rw [lookup_cons_if]
    by_cases hr : r = k
    · rw [List.filter_cons_of_neg (by simp [hr]), ih]
      split_ifs with hq hqr
      · rfl
      · exact absurd (hqr.trans hr) hq
      · rfl
    · rw [List.filter_cons_of_pos (by simp [hr]), lookup_cons_if, ih]
      split_ifs with hqr hq
      · exact absurd (hqr.symm.trans hq) hr
      · rfl
      · rfl
      · rfl

theorem lookup_eq_some_iff_mem {ps : List (κ × ν)} (h : (ps.map Prod.fst).Nodup) {k : κ} {v : ν} :
    ps.lookup k = some v ↔ (k, v) ∈ ps := by
  induction ps with
  | nil => simp
  | cons p ps ih =>
    obtain ⟨a, b⟩ := p
    rw [List.map_cons, List.nodup_cons] at h
    rw [lookup_cons_if]
    by_cases hk : k = a
    · subst hk
      have fresh : (k, v) ∉ ps := fun hm => h.1 (List.mem_map.mpr ⟨(k, v), hm, rfl⟩)
      simp [fresh, eq_comm]
    · simp [hk, ih h.2]

/-- The order of distinct keys is not observable through lookups. -/
theorem lookup_perm {ps qs : List (κ × ν)} (hp : ps.Perm qs) (h : (ps.map Prod.fst).Nodup) (k : κ) :
    ps.lookup k = qs.lookup k := by
  have hq : (qs.map Prod.fst).Nodup := (hp.map Prod.fst).nodup_iff.mp h
  apply Option.ext
  intro v
  rw [lookup_eq_some_iff_mem h, lookup_eq_some_iff_mem hq, hp.mem_iff]

end Association

end Mhda.KeyValue
