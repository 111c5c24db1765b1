import Mhda.HashStandard
import Mhda.IteratedHash
import Mhda.Transparency

set_option autoImplicit false

namespace Mhda.Collisions
open Mhda.ByteString Mhda.Numeral Mhda.Blocks Mhda.SecureHash Mhda.Hash Mhda.HashStandard Mhda.IteratedHash
open Mhda.Chains Mhda.Addresses Mhda.AddressHistory Mhda.Transparency

section Messages

def Short (s : Bytes) : Prop := s.length < 2 ^ 61

instance (s : Bytes) : Decidable (Short s) := inferInstanceAs (Decidable (s.length < 2 ^ 61))

def blocks (s : Bytes) : List Bytes := fullBlocks s ++ tailBlocks s

theorem lengthField_suffix (s : Bytes) : lengthField s.length <:+ pad s := ⟨_, rfl⟩

theorem lengthField_injective {s t : Bytes} (hs : Short s) (ht : Short t)
    (h : lengthField s.length = lengthField t.length) : s.length = t.length := by
  have same := lengthField_value hs
  rw [h, lengthField_value ht] at same
  omega

theorem pad_injective {s t : Bytes} (hs : Short s) (ht : Short t) (h : pad s = pad t) : s = t := by
  have len := lengthField_injective hs ht (List.append_inj' h rfl).2
  have front := (List.append_inj' h rfl).1
  rw [len] at front
  exact (List.append_inj front len).1

/-- The padding of the standard tells the length of the message in its last block. -/
theorem blocks_strengthened : Strengthened blocks Short := by
  have whole : ∀ s : Bytes, (blocks s).flatten = pad s := by
    intro s
    obtain ⟨k, len⟩ := dvd_length_pad s
    rw [blocks, blocks_padded]
    exact flatten_cut (by decide) k _ (by rw [len, Nat.mul_comm])
  constructor
  · intro s empty
    have none := whole s
    rw [empty] at none
    have len := congrArg List.length none
    rw [length_pad, List.flatten_nil, List.length_nil] at len
    omega
  · intro s t hs ht h
    refine pad_injective hs ht ?_
    rw [← whole s, h, whole t]
  · intro s t hs ht last
    rw [blocks, blocks, blocks_padded, blocks_padded] at last ⊢
    cases found : (cut 64 (pad s)).getLast? with
    | none =>
      rw [found] at last
      rw [List.getLast?_eq_none_iff.mp found, List.getLast?_eq_none_iff.mp last.symm]
    | some b =>
      have short : ∀ n, (lengthField n).length ≤ 64 := by
        intro n
        rw [length_lengthField]
        omega
      have sField := suffix_last (by decide) (dvd_length_pad s) (lengthField_suffix s) (short _) found
      have tField := suffix_last (by decide) (dvd_length_pad t) (lengthField_suffix t) (short _)
        (last.symm.trans found)
      have field := List.suffix_of_suffix_length_le sField tField le_rfl
      have len := lengthField_injective hs ht (field.eq_of_length rfl)
      simp only [cut, List.length_map, List.length_range, length_pad, len]

end Messages

section Digests

def sha1Initial : Five UInt32 := ⟨0x67452301, 0xEFCDAB89, 0x98BADCFE, 0x10325476, 0xC3D2E1F0⟩

def sha256Initial : Eight UInt32 :=
  ⟨0x6A09E667, 0xBB67AE85, 0x3C6EF372, 0xA54FF53A, 0x510E527F, 0x9B05688C, 0x1F83D9AB, 0x5BE0CD19⟩

theorem toHex_injective : Function.Injective toHex := by
  have back : ∀ b : Byte, UInt8.ofNat (((hexDigit (hexChars.getD ((b >>> 4) &&& 0xF).toNat 0)).getD 0) * 16 +
      (hexDigit (hexChars.getD (b &&& 0xF).toNat 0)).getD 0) = b := by
    apply forall_byte
    decide +kernel
  refine flatMap_injective (k := 2) (by decide) (fun _ => rfl) ?_
  intro b c h
  obtain ⟨high, rest⟩ := List.cons.inj h
  obtain ⟨low, _⟩ := List.cons.inj rest
  rw [← back b, high, low, back c]

theorem loadWord_storeWord (x : UInt32) : loadWord (storeWord x) 0 = x := by
  have bytes : messageWord (storeWord x) 0 = x.toBitVec.extractLsb' 24 8 ++ x.toBitVec.extractLsb' 16 8 ++
      x.toBitVec.extractLsb' 8 8 ++ x.toBitVec.extractLsb' 0 8 := rfl
  apply UInt32.eq_of_toBitVec_eq
  rw [loadWord_standard, bytes]
  grind

theorem storeWords_injective : Function.Injective fun words : List UInt32 => words.flatMap storeWord := by
  refine flatMap_injective (k := 4) (by decide) (fun _ => rfl) ?_
  intro x y h
  rw [← loadWord_storeWord x, h, loadWord_storeWord y]

theorem absorb_eq {σ : Type} (compress : σ → Bytes → σ) (state : σ) (s : Bytes) :
    absorb compress state s = (blocks s).foldl compress state := by
  rw [absorb, ← List.foldl_append, blocks]

theorem sha1Hex_states {s t : Bytes} (h : sha1Hex s = sha1Hex t) :
    (blocks s).foldl sha1Compress sha1Initial = (blocks t).foldl sha1Compress sha1Initial := by
  have words := storeWords_injective (toHex_injective h)
  rw [← absorb_eq, ← absorb_eq]
  exact Five.toList_injective words

theorem sha256Hex_states {s t : Bytes} (h : sha256Hex s = sha256Hex t) :
    (blocks s).foldl sha256Compress sha256Initial = (blocks t).foldl sha256Compress sha256Initial := by
  have words := storeWords_injective (toHex_injective h)
  rw [← absorb_eq, ← absorb_eq]
  exact Eight.toList_injective words

theorem sha1Hex_collides {s t : Bytes} (hs : Short s) (ht : Short t) (h : sha1Hex s = sha1Hex t) :
    s = t ∨ Collides sha1Compress sha1Initial (blocks s) (blocks t) :=
  blocks_strengthened.collides hs ht (sha1Hex_states h)

theorem sha256Hex_collides {s t : Bytes} (hs : Short s) (ht : Short t) (h : sha256Hex s = sha256Hex t) :
    s = t ∨ Collides sha256Compress sha256Initial (blocks s) (blocks t) :=
  blocks_strengthened.collides hs ht (sha256Hex_states h)

end Digests

section Identity

theorem str_of_nss {a b : Address} (h : a.nss = b.nss) : a.str = b.str := by
  rw [Address.str, Address.str, h]

theorem view_of_plain {a b : Address} (h : plain a = plain b) : view a = view b := by
  rw [← view_plain, h, view_plain]

/-- A digest identifies an address, up to a path object that says nothing and up to a collision of
    the compression function in the two runs. -/
theorem digests_identify {a b : Address} (ha : addresses.Reachable a) (hb : addresses.Reachable b)
    (sa : Short a.str) (sb : Short b.str) :
    (plain a = plain b → Address.hash a = Address.hash b ∧ Address.nssHash a = Address.nssHash b ∧
      Address.hash256 a = Address.hash256 b ∧ Address.nssHash256 a = Address.nssHash256 b) ∧
    (Address.hash a = Address.hash b →
      plain a = plain b ∨ Collides sha1Compress sha1Initial (blocks a.str) (blocks b.str)) ∧
    (Address.nssHash a = Address.nssHash b →
      plain a = plain b ∨ Collides sha1Compress sha1Initial (blocks a.nss) (blocks b.nss)) ∧
    (Address.hash256 a = Address.hash256 b →
      plain a = plain b ∨ Collides sha256Compress sha256Initial (blocks a.str) (blocks b.str)) ∧
    (Address.nssHash256 a = Address.nssHash256 b →
      plain a = plain b ∨ Collides sha256Compress sha256Initial (blocks a.nss) (blocks b.nss)) := by
  have same : a.str = b.str → plain a = plain b :=
    plain_of_str (reachable_address_sound ha) (reachable_address_sound hb)
  have nssShort : ∀ {c : Address}, Short c.str → Short c.nss := by
    intro c hc
    unfold Short Address.str at *
    rw [List.length_append] at hc
    omega
  refine ⟨?_, ?_, ?_, ?_, ?_⟩
  · intro h
    have seen := view_of_plain h
    exact ⟨congrArg View.hash seen, congrArg View.nssHash seen, congrArg View.hash256 seen,
      congrArg View.nssHash256 seen⟩
  · exact fun h => (sha1Hex_collides sa sb h).imp_left same
  · exact fun h => (sha1Hex_collides (nssShort sa) (nssShort sb) h).imp_left fun nss => same (str_of_nss nss)
  · exact fun h => (sha256Hex_collides sa sb h).imp_left same
  · exact fun h => (sha256Hex_collides (nssShort sa) (nssShort sb) h).imp_left fun nss => same (str_of_nss nss)

def evmRoot (chainId : Bytes) : Address := .ofChain ⟨.ethereumVm, chainId, none⟩ none

theorem evmRoot_reachable {chainId : Bytes}
    (made : Chain.construct .ethereumVm chainId = .ok ⟨.ethereumVm, chainId, none⟩) :
    addresses.Reachable (evmRoot chainId) := .created (.ofChain (.created (.construct made)) (by simp))

theorem digests_identify_evm :
    (Address.hash256 (evmRoot (lit "1")) = Address.hash256 (evmRoot (lit "10")) →
      plain (evmRoot (lit "1")) = plain (evmRoot (lit "10")) ∨
        Collides sha256Compress sha256Initial (blocks (evmRoot (lit "1")).str) (blocks (evmRoot (lit "10")).str)) ∧
    (Address.nssHash256 (evmRoot (lit "1")) = Address.nssHash256 (evmRoot (lit "10")) →
      plain (evmRoot (lit "1")) = plain (evmRoot (lit "10")) ∨
        Collides sha256Compress sha256Initial (blocks (evmRoot (lit "1")).nss) (blocks (evmRoot (lit "10")).nss)) := by
  have one : addresses.Reachable (evmRoot (lit "1")) := evmRoot_reachable (by decide +kernel)
  have ten : addresses.Reachable (evmRoot (lit "10")) := evmRoot_reachable (by decide +kernel)
  exact (digests_identify one ten (by decide) (by decide)).2.2.2

end Identity

end Mhda.Collisions
