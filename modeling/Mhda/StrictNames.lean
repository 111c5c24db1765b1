import Mhda.Decoding
import Mhda.Marshalling
import Mhda.Validation

set_option autoImplicit false

/-!
# One name for a key

On one network, two strictly accepted addresses with the same child numbers
have the same derivation type, path text and curve. Any two layouts that
validation leaves to a network disagree at some slot.
-/
namespace Mhda.StrictNames
open Mhda.ByteString Mhda.Catalogue Mhda.Path Mhda.Template Mhda.Compatibility Mhda.Addresses Mhda.Parser
open Mhda.PathParse Mhda.Validation Mhda.Marshalling Mhda.Setters Mhda.Descriptors Mhda.Decoding

/-- The child number of a level in an extended key. -/
def child (l : AddressIndex) : ℕ := l.index.toNat + if l.isHardened then 2 ^ 31 else 0

theorem child_injective {l k : AddressIndex} (hl : InRange l) (hk : InRange k) (h : child l = child k) : l = k := by
  obtain ⟨i, hard⟩ := l
  obtain ⟨j, hard'⟩ := k
  simp only [InRange] at hl hk
  simp only [child] at h
  have same : i.toNat = j.toNat ∧ hard = hard' := by
    cases hard <;> cases hard' <;> simp only [if_true, Bool.false_eq_true, if_false] at h
    · exact ⟨by omega, rfl⟩
    · omega
    · omega
    · exact ⟨by omega, rfl⟩
  obtain ⟨index, rfl⟩ := same
  rw [UInt32.toNat_inj.mp index]

theorem children_injective {ls ks : List AddressIndex} (hl : ∀ l ∈ ls, InRange l) (hk : ∀ k ∈ ks, InRange k)
    (h : ls.map child = ks.map child) : ls = ks := by
  induction ls generalizing ks with
  | nil => exact (List.map_eq_nil_iff.mp h.symm).symm
  | cons l ls ih =>
    cases ks with
    | nil => simp at h
    | cons k ks =>
      rw [List.map_cons, List.map_cons, List.cons.injEq] at h
      have head := child_injective (hl l (by simp)) (hk k (by simp)) h.1
      have tail := ih (fun x hx => hl x (by simp [hx])) (fun x hx => hk x (by simp [hx])) h.2
      rw [head, tail]

section Layouts

def excludes : Slot → Slot → Bool
  | .fixed n, .fixed m => n != m
  | .fixed _, .binary | .fixed _, .soft | .hardened, .binary | .hardened, .soft => true
  | .binary, .fixed _ | .binary, .hardened | .soft, .fixed _ | .soft, .hardened => true
  | _, _ => false

/-- Two layouts of different length, or with slots in one place that exclude each other. -/
def clashes : List Slot → List Slot → Bool
  | [], [] => false
  | a :: as, b :: bs => excludes a b || clashes as bs
  | _, _ => true

theorem not_excludes {a b : Slot} {l : AddressIndex} (ha : a.admits l = true) (hb : b.admits l = true) :
    excludes a b = false := by
  cases a <;> cases b
  case any.fixed | any.hardened | any.binary | any.soft | any.any => rfl
  case fixed.any | hardened.any | binary.any | soft.any => rfl
  case fixed.hardened | hardened.fixed | hardened.hardened => rfl
  case binary.binary | binary.soft | soft.binary | soft.soft => rfl
  case fixed.fixed n m =>
    have same := (admits_fixed.mp ha).symm.trans (admits_fixed.mp hb)
    obtain rfl : n = m := (AddressIndex.mk.inj same).1
    exact bne_self_eq_false n
  -- one slot asks for hardening, the other forbids it
  all_goals cases hl : l.isHardened <;> simp [Slot.admits, hl] at ha hb

theorem not_clashes {slots slots' : List Slot} {levels : List AddressIndex}
    (h : fills Slot.admits slots levels = true) (h' : fills Slot.admits slots' levels = true) :
    clashes slots slots' = false := by
  induction slots generalizing slots' levels with
  | nil =>
    cases levels with
    | nil =>
      cases slots' with
      | nil => rfl
      | cons b bs => simp [fills] at h'
    | cons l ls => simp [fills] at h
  | cons a as ih =>
    cases levels with
    | nil => simp [fills] at h
    | cons l ls =>
      cases slots' with
      | nil => simp [fills] at h'
      | cons b bs =>
        simp only [fills, Bool.and_eq_true] at h h'
        rw [clashes, not_excludes h.1 h'.1, ih h.2 h'.2]
        rfl

def mayHarden : Slot → Bool
  | .binary | .soft => false
  | _ => true

def harden : Slot → Slot
  | .any => .hardened
  | slot => slot

theorem fills_harden {slots : List Slot} {levels : List AddressIndex} (h : fills Slot.admits slots levels = true)
    (hard : ∀ l ∈ levels, l.isHardened = true) :
    slots.all mayHarden = true ∧ fills Slot.admits (slots.map harden) levels = true := by
  have slotwise : ∀ (slot : Slot) (l : AddressIndex), l.isHardened = true → slot.admits l = true →
      mayHarden slot = true ∧ (harden slot).admits l = true := by
    intro slot l hl ha
    cases slot <;> simp_all [mayHarden, harden, Slot.admits]
  induction slots generalizing levels with
  | nil => exact ⟨rfl, h⟩
  | cons slot slots ih =>
    cases levels with
    | nil => simp [fills] at h
    | cons l ls =>
      simp only [fills, Bool.and_eq_true] at h
      have head := slotwise slot l (hard l (by simp)) h.1
      have tail := ih h.2 fun x hx => hard x (by simp [hx])
      simp [fills, head.1, head.2, tail.1, tail.2]

/-- The layouts of a scheme under a curve: ed25519 derives hardened levels only. -/
def layoutsUnder (algo : Algorithm) (s : Scheme) : List (List Slot) :=
  if algo = .ed25519 ∧ s ≠ .cip1852 then (s.layouts.filter (List.all · mayHarden)).map (List.map harden)
  else s.layouts

theorem fits_under {s : Scheme} {algo : Algorithm} {levels : List AddressIndex} (h : s.Fits levels)
    (hard : algo = .ed25519 → s ≠ .cip1852 → ∀ l ∈ levels, l.isHardened = true) :
    ∃ layout ∈ layoutsUnder algo s, fills Slot.admits layout levels = true := by
  obtain ⟨⟨layout, hl, hf⟩, _⟩ := h
  unfold layoutsUnder
  split
  · rename_i ed
    obtain ⟨may, filled⟩ := fills_harden hf (hard ed.1 ed.2)
    exact ⟨layout.map harden, List.mem_map.mpr ⟨layout, List.mem_filter.mpr ⟨hl, may⟩, rfl⟩, filled⟩
  · exact ⟨layout, hl, hf⟩

end Layouts

section Table

/-- A row of the matrix lists the scheme and does not bind it to another curve. -/
def rowAllows (c : NetworkCompat) (s : Scheme) (algo : Algorithm) : Prop :=
  let want := (c.derivationAlgorithm.lookup s.type).getD .unset
  s.type ∈ c.derivations ∧ (want.isEmpty = true ∨ want = algo)

instance (c : NetworkCompat) (s : Scheme) (algo : Algorithm) : Decidable (rowAllows c s algo) :=
  inferInstanceAs (Decidable (_ ∧ _))

/-- `cip11` is `bip44` with the Cosmos Hub coin; a separate check of the validator tells them apart. -/
def hubPair (nt : NetworkType) (s t : Scheme) : Prop :=
  nt = .cosmos ∧ (s = .bip44 ∧ t = .cip11 ∨ s = .cip11 ∧ t = .bip44)

instance (nt : NetworkType) (s t : Scheme) : Decidable (hubPair nt s t) :=
  inferInstanceAs (Decidable (_ ∧ _))

theorem matrix_separates : ∀ e ∈ matrix, ∀ s ∈ schemes, ∀ a ∈ e.2.algorithms, rowAllows e.2 s a →
    ∀ t ∈ schemes, ∀ b ∈ e.2.algorithms, rowAllows e.2 t b → (s = t ∧ a = b) ∨ hubPair e.1 s t ∨
      ∀ l ∈ layoutsUnder a s, ∀ k ∈ layoutsUnder b t, clashes l k = true := by
  decide +kernel

end Table

section Unique

structure StrictPath (nt : NetworkType) (algo : Algorithm) (s : Scheme) (levels : List AddressIndex) : Prop where
  fits : s.Fits levels
  algorithm : networkAllowsAlgorithm nt algo = true
  allowed : ∃ fmt, PathAllowed nt algo fmt (concrete s levels)

theorem StrictPath.row {nt : NetworkType} {algo : Algorithm} {s : Scheme} {levels : List AddressIndex}
    (h : StrictPath nt algo s levels) : ∃ c, matrix.lookup nt = some c ∧ algo ∈ c.algorithms ∧
      rowAllows c s algo ∧ ∃ layout ∈ layoutsUnder algo s, fills Slot.admits layout levels = true := by
  obtain ⟨fmt, allowed⟩ := h.allowed
  have algorithm := h.algorithm
  have derivation := allowed.derivation
  have curve := allowed.curve
  rw [concrete_type] at derivation curve
  cases row : matrix.lookup nt with
  | none => simp [networkAllowsAlgorithm, row] at algorithm
  | some c =>
    rw [derivationAlgorithm_eq row] at curve
    have hard : algo = .ed25519 → s ≠ .cip1852 → ∀ l ∈ levels, l.isHardened = true := by
      intro ed other
      have levelwise := allowed.hardened ed
      rw [concrete_type, concrete_levels] at levelwise
      exact levelwise fun same => other (Scheme.type_injective same)
    exact ⟨c, rfl, (allowsAlgorithm_iff row algo).mp algorithm,
      ⟨(allowsDerivation_iff row s.type_ne_root).mp derivation, curve⟩, fits_under h.fits hard⟩

/-- The path that both `bip44` and `cip11` describe carries the coin that `bip44` may not. -/
theorem hub_levels {nt : NetworkType} {algo algo' : Algorithm} {levels : List AddressIndex} (hn : nt = .cosmos)
    (h : StrictPath nt algo .bip44 levels) (h' : StrictPath nt algo' .cip11 levels) : False := by
  obtain ⟨fmt, allowed⟩ := h.allowed
  cases Fits.shape h'.fits with
  | family purpose => cases purpose
  | cip11 account charge index => exact allowed.cosmosHub ⟨hn, rfl, rfl⟩

theorem strictPath_unique {nt : NetworkType} {a b : Algorithm} {s t : Scheme} {levels : List AddressIndex}
    (h : StrictPath nt a s levels) (h' : StrictPath nt b t levels) : s = t ∧ a = b := by
  obtain ⟨c, row, ha, allows, l, hl, filled⟩ := h.row
  obtain ⟨c', row', hb, allows', k, hk, filled'⟩ := h'.row
  obtain rfl : c = c' := Option.some.inj (row.symm.trans row')
  have separated := matrix_separates _ (row_mem row) s (mem_schemes s) a ha allows t (mem_schemes t) b hb allows'
  rcases separated with same | hub | apart
  · exact same
  · obtain ⟨hn, ⟨rfl, rfl⟩ | ⟨rfl, rfl⟩⟩ := hub
    · exact (hub_levels hn h h').elim
    · exact (hub_levels hn h' h).elim
  · have overlap := not_clashes filled filled'
    rw [apart l hl k hk] at overlap
    cases overlap

theorem parseUrnStrict_path {s : Bytes} {a : Address} (h : parseUrnStrict s = .ok a)
    (hr : a.getDerivationType ≠ .root) : ∃ scheme levels, a.path = some (concrete scheme levels) ∧
      StrictPath a.chain.network a.resolvedAlgorithm scheme levels := by
  obtain ⟨parsed, valid⟩ := (parseUrnStrict_iff _ _).mp h
  have allowed := (validate_iff a).mp valid
  obtain ⟨d, rfl⟩ := parseUrn_descriptor parsed
  have path : d.toAddress.path = some (pathOf d.path) := rfl
  cases hp : d.path with
  | none =>
    refine absurd ?_ hr
    rw [Address.getDerivationType, path, hp]
    rfl
  | some p =>
    rw [hp] at path
    have stored : d.toAddress.path = some (concrete p.scheme p.levels) := path
    have pathAllowed := allowed.derivation _ stored
    rw [concrete_type, p.scheme.type_ne_empty] at pathAllowed
    rcases pathAllowed with blank | root | allowedPath
    · cases blank
    · exact absurd root p.scheme.type_ne_root
    · exact ⟨p.scheme, p.levels, stored, p.fits, allowed.algorithm, _, allowedPath⟩

/-- Under strict validation a key has one name. -/
theorem strict_name_unique (s t : Bytes) (a b : Address) (ha : parseUrnStrict s = .ok a)
    (hb : parseUrnStrict t = .ok b) (hn : a.chain.network = b.chain.network)
    (ra : a.getDerivationType ≠ .root) (rb : b.getDerivationType ≠ .root)
    (hc : (pathLevels a).map child = (pathLevels b).map child) :
    a.getDerivationType = b.getDerivationType ∧ pathStr a = pathStr b ∧
      a.resolvedAlgorithm = b.resolvedAlgorithm := by
  obtain ⟨scheme, levels, path, strict⟩ := parseUrnStrict_path ha ra
  obtain ⟨scheme', levels', path', strict'⟩ := parseUrnStrict_path hb rb
  have shown : pathLevels a = levels := by
    rw [pathLevels, path, Option.map_some, concrete_levels]
    rfl
  have shown' : pathLevels b = levels' := by
    rw [pathLevels, path', Option.map_some, concrete_levels]
    rfl
  rw [shown, shown'] at hc
  obtain rfl := children_injective strict.fits.2 strict'.fits.2 hc
  rw [← hn] at strict'
  obtain ⟨rfl, algorithm⟩ := strictPath_unique strict strict'
  have same : a.path = b.path := path.trans path'.symm
  refine ⟨?_, ?_, algorithm⟩
  · rw [Address.getDerivationType, Address.getDerivationType, same]
  · rw [pathStr, pathStr, same]

/-- Two spellings of one path on a network whose matrix row lists two curves. -/
def cosmosNamed : Bytes :=
  lit "urn:mhda:nt:cosmos:ci:cosmoshub-4:dt:cip11:dp:m/44'/118'/0'/0/7"
def cosmosRespelled : Bytes :=
  lit "URN:mhda:dp:m/44h/118h/00h/0/07:af:bech32:aa:SECP256K1:dt:CIP11:ci:osmosis-1:nt:Cosmos"

theorem cosmos_names_unique : ∃ a b, parseUrnStrict cosmosNamed = .ok a ∧
    parseUrnStrict cosmosRespelled = .ok b ∧ a.getDerivationType = b.getDerivationType ∧
      pathStr a = pathStr b ∧ a.resolvedAlgorithm = b.resolvedAlgorithm :=
  ⟨_, _, rfl, rfl, strict_name_unique cosmosNamed cosmosRespelled _ _ rfl rfl (by decide +kernel)
    (by decide +kernel) (by decide +kernel) (by decide +kernel)⟩

end Unique

end Mhda.StrictNames
