import Mathlib.Data.List.Forall2
import Mhda.KeyValue
import Mhda.PathTemplate

set_option autoImplicit false

namespace Mhda.PathText
open Mhda.ByteString Mhda.Detail Mhda.DetailFacts Mhda.Numeral Mhda.Path Mhda.Template

theorem digitLoop_reverse (fuel : ℕ) (v : UInt32) (hv : v ≠ 0) (hf : v.toNat < 10 ^ fuel) :
    (DerivationPath.digitLoop fuel v).reverse = decimal v.toNat := by
  induction fuel generalizing v with
  | zero =>
    have zero : v.toNat = 0 := by omega
    exact absurd (UInt32.toNat_inj.mp zero) hv
  | succ fuel ih =>
    have quotient : (v / 10).toNat = v.toNat / 10 := by rw [UInt32.toNat_div]; rfl
    rw [DerivationPath.digitLoop, if_neg hv, List.reverse_cons, digit_eq, decimal_eq_if]
    by_cases hq : v / 10 = 0
    · have small : v.toNat < 10 := by
        have := congrArg UInt32.toNat hq
        rw [quotient, UInt32.toNat_zero] at this
        omega
      have stop : DerivationPath.digitLoop fuel (0 : UInt32) = [] := by cases fuel <;> rfl
      rw [hq, stop, if_pos small, Nat.mod_eq_of_lt small]
      rfl
    · have large : ¬ v.toNat < 10 := by
        intro h
        apply hq
        apply UInt32.toNat_inj.mp
        rw [quotient, UInt32.toNat_zero]
        omega
      rw [if_neg large, ih (v / 10) hq (by rw [quotient, pow_succ] at *; omega), quotient]

/-- Sixteen digits are enough for 32 bits. -/
theorem appendUint32_eq (out : Bytes) (v : UInt32) :
    DerivationPath.appendUint32 out v = out ++ decimal v.toNat := by
  unfold DerivationPath.appendUint32
  by_cases hv : v = 0
  · subst hv
    rfl
  · have fits : v.toNat < 10 ^ 16 := by
      have := v.toNat_lt
      omega
    rw [if_neg hv, digitLoop_reverse 16 v hv fits]

theorem appendLevel_eq (out : Bytes) (l : AddressIndex) :
    DerivationPath.appendLevel out l = out ++ ch '/' :: renderLevel l := by
  unfold DerivationPath.appendLevel renderLevel
  rw [appendUint32_eq]
  cases l.isHardened <;> simp

theorem formatLevels_eq (lvls : List AddressIndex) : DerivationPath.formatLevels lvls = renderPath lvls := by
  have fold : ∀ out, lvls.foldl DerivationPath.appendLevel out =
      out ++ lvls.flatMap fun l => ch '/' :: renderLevel l := by
    induction lvls with
    | nil => simp
    | cons l lvls ih =>
      intro out
      rw [List.foldl_cons, ih, appendLevel_eq, List.flatMap_cons]
      simp
  rw [DerivationPath.formatLevels, fold]
  rfl

/-- A segment: digits of a value below 2^31, then a hardening marker or nothing. -/
def SegmentSpells (seg : Bytes) (l : RawLevel) : Prop :=
  ∃ digits marker, seg = digits ++ marker ∧ IsDecimal digits l.index.toNat ∧ InRange l.level ∧
    (if l.isHardened then ∃ c, marker = [c] ∧ isHardeningMarker c = true else marker = []) ∧
    l.exact = (digits.length == 1 || digits.head? != some (ch '0'))

theorem marker_not_digit (c : Byte) : (decDigit c).isSome = true → isHardeningMarker c = false := by
  revert c
  apply forall_byte
  decide +kernel

theorem isDecimal_digits {s : Bytes} {n : ℕ} (h : IsDecimal s n) : ∀ c ∈ s, (decDigit c).isSome = true :=
  value_digits _ _ h.2

theorem isDecimal_last {s : Bytes} {n : ℕ} (h : IsDecimal s n) : s.getLast?.any isHardeningMarker = false := by
  rw [List.getLast?_eq_some_getLast h.1, Option.any_some]
  exact marker_not_digit _ (isDecimal_digits h _ (List.getLast_mem h.1))

theorem parseSegment_eq_some (seg : Bytes) (l : RawLevel) : parseSegment seg = some l ↔ SegmentSpells seg l := by
  unfold parseSegment SegmentSpells
  constructor
  · intro h
    by_cases hm : seg.getLast?.any isHardeningMarker = true
    · obtain ⟨c, hc, hcm⟩ := (Option.any_eq_true _ _).mp hm
      have cut : seg = seg.dropLast ++ [c] := (List.dropLast_append_getLast? c hc).symm
      simp only [hm, if_true] at h
      cases hv : parseUint31Dec seg.dropLast with
      | none => simp [hv] at h
      | some v =>
        rw [hv] at h
        obtain rfl := Option.some.inj h
        obtain ⟨hd, hr⟩ := (parseUint31Dec_eq_some _ _).mp hv
        exact ⟨seg.dropLast, [c], cut, hd, hr, ⟨c, rfl, hcm⟩, rfl⟩
    · rw [Bool.not_eq_true] at hm
      simp only [hm, Bool.false_eq_true, if_false] at h
      cases hv : parseUint31Dec seg with
      | none => simp [hv] at h
      | some v =>
        rw [hv] at h
        obtain rfl := Option.some.inj h
        obtain ⟨hd, hr⟩ := (parseUint31Dec_eq_some _ _).mp hv
        exact ⟨seg, [], by simp, hd, hr, by simp, rfl⟩
  · rintro ⟨digits, marker, rfl, hd, hr, hm, he⟩
    have hv := (parseUint31Dec_eq_some digits l.index).mpr ⟨hd, hr⟩
    obtain ⟨index, isHardened, exact_⟩ := l
    cases isHardened with
    | true =>
      obtain ⟨c, rfl, hc⟩ := hm
      have last : (digits ++ [c]).getLast?.any isHardeningMarker = true := by simp [hc]
      simp only [last, if_true, List.dropLast_concat]
      simp only at hv he
      rw [hv, he]
    | false =>
      simp only [Bool.false_eq_true, if_false] at hm
      subst hm
      have last := isDecimal_last hd
      simp only [List.append_nil, last, Bool.false_eq_true, if_false]
      simp only at hv he
      rw [hv, he]

theorem segment_no_slash {seg : Bytes} {l : RawLevel} (h : SegmentSpells seg l) : seg ≠ [] ∧ ch '/' ∉ seg := by
  obtain ⟨digits, marker, rfl, hd, _, hm, _⟩ := h
  refine ⟨by simp [hd.1], ?_⟩
  intro hc
  rcases List.mem_append.mp hc with hc | hc
  · exact (decDigit_plain _ (isDecimal_digits hd _ hc)).2.1 rfl
  · split at hm
    · obtain ⟨c, rfl, hcm⟩ := hm
      rw [List.mem_singleton] at hc
      subst hc
      revert hcm
      decide
    · simp [hm] at hc

theorem flatMap_slash (seg : Bytes) (segs : List Bytes) :
    (seg :: segs).flatMap (fun s => ch '/' :: s) = ch '/' :: [ch '/'].intercalate (seg :: segs) := by
  induction segs generalizing seg with
  | nil => simp [List.intercalate]
  | cons t segs ih =>
    rw [List.flatMap_cons, ih t]
    simp [List.intercalate, List.intersperse_cons_cons]

theorem split_slash (rest : Bytes) (segs : List Bytes) :
    split rest (ch '/') = segs ↔
      segs ≠ [] ∧ ch '/' :: rest = segs.flatMap (fun s => ch '/' :: s) ∧ ∀ s ∈ segs, ch '/' ∉ s := by
  constructor
  · rintro rfl
    have fields : split rest (ch '/') ≠ [] := List.splitOn_ne_nil (ch '/') rest
    have joined : [ch '/'].intercalate (split rest (ch '/')) = rest := List.intercalate_splitOn (ch '/')
    refine ⟨fields, ?_, fun s hs => KeyValue.not_mem_of_mem_splitOn hs⟩
    obtain ⟨s, ss, hs⟩ := List.exists_cons_of_ne_nil fields
    rw [hs, flatMap_slash, ← hs, joined]
  · rintro ⟨fields, text, hs⟩
    obtain ⟨s, ss, rfl⟩ := List.exists_cons_of_ne_nil fields
    rw [flatMap_slash, List.cons.injEq] at text
    rw [text.2]
    exact List.splitOn_intercalate (ch '/') hs fields

theorem splitPath_slash (rest : Bytes) (segs : List Bytes) :
    splitPath (ch 'm' :: ch '/' :: rest) = some segs ↔
      split rest (ch '/') = segs ∧ ∀ s ∈ segs, s ≠ [] := by
  have cut : splitPath (ch 'm' :: ch '/' :: rest) =
      if rest.isEmpty then none
      else if (split rest (ch '/')).any List.isEmpty then none else some (split rest (ch '/')) := rfl
  rw [cut]
  cases rest with
  | nil =>
    have single : split [] (ch '/') = [[]] := rfl
    rw [single]
    refine iff_of_false (by simp) ?_
    rintro ⟨rfl, full⟩
    exact full [] (by simp) rfl
  | cons c rest =>
    rw [if_neg (by simp)]
    by_cases blank : (split (c :: rest) (ch '/')).any List.isEmpty = true
    · rw [if_pos blank]
      refine iff_of_false (by simp) ?_
      rintro ⟨rfl, full⟩
      obtain ⟨s, hs, he⟩ := List.any_eq_true.mp blank
      exact full s hs (List.isEmpty_iff.mp he)
    · rw [if_neg blank, Option.some.injEq]
      refine (and_iff_left_of_imp ?_).symm
      rintro rfl s hs rfl
      exact blank (List.any_eq_true.mpr ⟨[], hs, rfl⟩)

theorem splitPath_eq_some (path : Bytes) (segs : List Bytes) :
    splitPath path = some segs ↔
      path = ch 'm' :: segs.flatMap (fun s => ch '/' :: s) ∧ ∀ s ∈ segs, s ≠ [] ∧ ch '/' ∉ s := by
  constructor
  · intro h
    match path with
    | [] => simp [splitPath] at h
    | [c] =>
      obtain rfl : c = ch 'm' := by
        by_contra hc
        simp [splitPath, hc] at h
      obtain rfl : [] = segs := Option.some.inj h
      simp
    | c :: d :: rest =>
      obtain ⟨rfl, rfl⟩ : c = ch 'm' ∧ d = ch '/' := by
        by_contra hcd
        rw [not_and_or] at hcd
        rcases hcd with hc | hd
        · simp [splitPath, hc] at h
        · simp [splitPath, hd] at h
      obtain ⟨cut, full⟩ := (splitPath_slash rest segs).mp h
      obtain ⟨_, text, plain⟩ := (split_slash rest segs).mp cut
      exact ⟨by rw [text], fun s hs => ⟨full s hs, plain s hs⟩⟩
  · rintro ⟨rfl, hs⟩
    cases segs with
    | nil => rfl
    | cons s ss =>
      have text : (s :: ss).flatMap (fun s => ch '/' :: s) =
          ch '/' :: [ch '/'].intercalate (s :: ss) := flatMap_slash s ss
      rw [text, splitPath_slash, split_slash]
      exact ⟨⟨by simp, text.symm, fun t ht => (hs t ht).2⟩, fun t ht => (hs t ht).1⟩

/-- The grammar of a path text and the raw levels it spells. -/
def PathSpells (path : Bytes) (raws : List RawLevel) : Prop :=
  ∃ segs, path = ch 'm' :: segs.flatMap (fun s => ch '/' :: s) ∧ List.Forall₂ SegmentSpells segs raws

theorem mapM_eq_some {α β : Type} (f : α → Option β) (xs : List α) (ys : List β) :
    xs.mapM f = some ys ↔ List.Forall₂ (fun x y => f x = some y) xs ys := by
  induction xs generalizing ys with
  | nil =>
    rw [List.forall₂_nil_left_iff]
    simp [eq_comm]
  | cons x xs ih =>
    rw [List.forall₂_cons_left_iff]
    simp only [List.mapM_cons, Option.bind_eq_bind, Option.bind_eq_some_iff, Option.pure_def,
      Option.some.injEq]
    constructor
    · rintro ⟨y, hy, zs, hzs, rfl⟩
      exact ⟨y, zs, hy, (ih zs).mp hzs, rfl⟩
    · rintro ⟨y, zs, hy, hzs, rfl⟩
      exact ⟨y, hy, zs, (ih zs).mpr hzs, rfl⟩

theorem forall₂_mem_left {α β : Type} {R : α → β → Prop} {xs : List α} {ys : List β}
    (h : List.Forall₂ R xs ys) : ∀ x ∈ xs, ∃ y, R x y := by
  induction h with
  | nil => simp
  | cons hr _ ih =>
    intro x hx
    rcases List.mem_cons.mp hx with rfl | hx
    · exact ⟨_, hr⟩
    · exact ih x hx

theorem parseLevels_eq_some (path : Bytes) (raws : List RawLevel) :
    parseLevels path = some raws ↔ PathSpells path raws := by
  unfold parseLevels PathSpells
  rw [Option.bind_eq_some_iff]
  constructor
  · rintro ⟨segs, hs, hm⟩
    have spelled := (mapM_eq_some _ _ _).mp hm
    exact ⟨segs, ((splitPath_eq_some _ _).mp hs).1,
      List.Forall₂.imp (fun _ _ h => (parseSegment_eq_some _ _).mp h) spelled⟩
  · rintro ⟨segs, rfl, hf⟩
    refine ⟨segs, (splitPath_eq_some _ _).mpr ⟨rfl, ?_⟩, ?_⟩
    · intro s hs
      obtain ⟨l, hl⟩ := forall₂_mem_left hf s hs
      exact segment_no_slash hl
    · exact (mapM_eq_some _ _ _).mpr (List.Forall₂.imp (fun _ _ h => (parseSegment_eq_some _ _).mpr h) hf)

def exactRaw (l : AddressIndex) : RawLevel := ⟨l.index, l.isHardened, true⟩

theorem renderLevel_spells {l : AddressIndex} (h : InRange l) : SegmentSpells (renderLevel l) (exactRaw l) := by
  refine ⟨decimal l.index.toNat, if l.isHardened then [apostrophe] else [], rfl,
    isDecimal_decimal _, h, ?_, ?_⟩
  · cases hl : l.isHardened with
    | true =>
      simp only [exactRaw, hl, if_true]
      exact ⟨apostrophe, rfl, rfl⟩
    | false => simp [exactRaw, hl]
  · rcases decimal_head l.index.toNat with one | head
    · simp [exactRaw, one]
    · simp [exactRaw, head]

theorem parseLevels_renderPath {levels : List AddressIndex} (h : ∀ l ∈ levels, InRange l) :
    parseLevels (renderPath levels) = some (levels.map exactRaw) := by
  rw [parseLevels_eq_some]
  refine ⟨levels.map renderLevel, ?_, ?_⟩
  · rw [renderPath, List.flatMap_map]
  · rw [List.forall₂_map_left_iff, List.forall₂_map_right_iff, List.forall₂_same]
    intro l hl
    exact renderLevel_spells (h l hl)

theorem spells_inRange {path : Bytes} {raws : List RawLevel} (h : PathSpells path raws) :
    ∀ l ∈ raws.map RawLevel.level, InRange l := by
  obtain ⟨segs, _, hf⟩ := h
  intro l hl
  obtain ⟨raw, hraw, rfl⟩ := List.mem_map.mp hl
  obtain ⟨seg, hs⟩ := forall₂_mem_left hf.flip raw hraw
  obtain ⟨_, _, _, _, hr, _⟩ := hs
  exact hr

end Mhda.PathText
