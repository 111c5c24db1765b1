import Mhda.Hash

set_option autoImplicit false

namespace Mhda.HashStandard
open Mhda.ByteString Mhda.Blocks Mhda.SecureHash Mhda.Hash

section Words

theorem join_octets (x₀ x₁ x₂ x₃ : BitVec 8) :
    (x₀.setWidth 32 <<< 24) ||| (x₁.setWidth 32 <<< 16) ||| (x₂.setWidth 32 <<< 8) ||| x₃.setWidth 32 =
      x₀ ++ x₁ ++ x₂ ++ x₃ := by
  grind

theorem loadWord_standard (block : Bytes) (i : ℕ) : (loadWord block i).toBitVec = messageWord block i :=
  join_octets _ _ _ _

theorem choose_or (x y z : Word) : (x &&& y) ||| (~~~x &&& z) = choose x y z := by
  unfold choose
  grind

theorem majority_or (x y z : Word) : (x &&& y) ||| (x &&& z) ||| (y &&& z) = majority x y z := by
  unfold majority
  grind

end Words

section Schedule

theorem fill_range (step : List UInt32 → ℕ → UInt32) (W : ℕ → Word) (n s k : ℕ) (w : List UInt32)
    (hw : w.length = n) (hn : s + k ≤ n) (before : ∀ j < s, (w.getD j 0).toBitVec = W j)
    (store : ∀ i v, s ≤ i → (∀ j < i, (v.getD j 0).toBitVec = W j) → (step v i).toBitVec = W i) :
    ((List.range' s k).foldl (fun v i => v.set i (step v i)) w).length = n ∧
      ∀ j < s + k, (((List.range' s k).foldl (fun v i => v.set i (step v i)) w).getD j 0).toBitVec = W j := by
  induction k with
  | zero => exact ⟨hw, before⟩
  | succ k ih =>
    obtain ⟨len, stored⟩ := ih (by omega)
    rw [List.range'_concat, List.foldl_append, Nat.one_mul, List.foldl_cons, List.foldl_nil]
    generalize (List.range' s k).foldl (fun v i => v.set i (step v i)) w = v at len stored ⊢
    refine ⟨by rw [List.length_set, len], ?_⟩
    intro j hj
    rw [List.getD_eq_getElem?_getD, List.getElem?_set]
    by_cases last : s + k = j
    · subst last
      have inside : s + k < v.length := by omega
      simp only [if_true, inside, Option.getD_some]
      exact store (s + k) v (by omega) stored
    · rw [if_neg last, ← List.getD_eq_getElem?_getD]
      exact stored j (by omega)

/-- The array `w` is the message schedule when each step computes its recurrence. -/
theorem fillWords_standard {n : ℕ} (hn : 16 ≤ n) {next : (ℕ → UInt32) → ℕ → UInt32} {block : Bytes}
    {W : ℕ → Word} (load : ∀ i < 16, W i = messageWord block i)
    (extend : ∀ i w, 16 ≤ i → (∀ j < i, (w j).toBitVec = W j) → (next w i).toBitVec = W i) :
    ∀ i < n, ((fillWords n next block).getD i 0).toBitVec = W i := by
  have loaded := fill_range (fun _ i => loadWord block i) (fun i => messageWord block i) n 0 16
    (List.replicate n 0) List.length_replicate (by omega) (by simp) (fun i _ _ _ => loadWord_standard block i)
  rw [← List.range_eq_range'] at loaded
  obtain ⟨len, first⟩ := loaded
  have filled := fill_range (fun w i => next (fun j => w.getD j 0) i) W n 16 (n - 16) _ len (by omega)
    (fun j hj => by rw [first j (by omega), load j hj]) (fun i w hi hw => extend i _ hi hw)
  intro i hi
  exact filled.2 i (by omega)

theorem sha1_schedule (block : Bytes) :
    ∀ i < 80, ((fillWords 80 sha1Next block).getD i 0).toBitVec = Sha1.schedule (messageWord block) i := by
  refine fillWords_standard (by omega) (fun i hi => Sha1.schedule_loaded _ hi) ?_
  intro i w hi hw
  rw [Sha1.schedule_extended _ hi, ← hw (i - 3) (by omega), ← hw (i - 8) (by omega), ← hw (i - 14) (by omega),
    ← hw (i - 16) (by omega)]
  rfl

theorem sha256_schedule (block : Bytes) :
    ∀ i < 64, ((fillWords 64 sha256Next block).getD i 0).toBitVec = Sha256.schedule (messageWord block) i := by
  refine fillWords_standard (by omega) (fun i hi => Sha256.schedule_loaded _ hi) ?_
  intro i w hi hw
  rw [Sha256.schedule_extended _ hi, ← hw (i - 2) (by omega), ← hw (i - 7) (by omega), ← hw (i - 15) (by omega),
    ← hw (i - 16) (by omega)]
  have terms : (sha256Next w i).toBitVec = (w (i - 16)).toBitVec + Sha256.smallSigma0 (w (i - 15)).toBitVec +
      (w (i - 7)).toBitVec + Sha256.smallSigma1 (w (i - 2)).toBitVec := rfl
  rw [terms]
  ac_rfl

end Schedule

section Compression

theorem sha1Select_standard (i : ℕ) (b c d : UInt32) :
    (sha1Select i b c d).1.toBitVec = Sha1.logical i b.toBitVec c.toBitVec d.toBitVec ∧
      (sha1Select i b c d).2.toBitVec = Sha1.constant i := by
  unfold sha1Select Sha1.logical Sha1.constant
  split_ifs
  · exact ⟨choose_or _ _ _, rfl⟩
  · exact ⟨rfl, rfl⟩
  · exact ⟨majority_or _ _ _, rfl⟩
  · exact ⟨rfl, rfl⟩

theorem sha1Round_standard (w : List UInt32) (v : Five UInt32) (i : ℕ) :
    (sha1Round w v i).map UInt32.toBitVec =
      Sha1.round i (w.getD i 0).toBitVec (v.map UInt32.toBitVec) := by
  obtain ⟨f, k⟩ := sha1Select_standard i v.b v.c v.d
  have sum : (rotl32 v.a 5 + (sha1Select i v.b v.c v.d).1 + v.e + (sha1Select i v.b v.c v.d).2 +
      w.getD i 0).toBitVec = v.a.toBitVec.rotateLeft 5 + Sha1.logical i v.b.toBitVec v.c.toBitVec v.d.toBitVec +
        v.e.toBitVec + Sha1.constant i + (w.getD i 0).toBitVec := by
    rw [← f, ← k]
    rfl
  exact congrArg (fun T => Five.mk T v.a.toBitVec (v.b.toBitVec.rotateLeft 30) v.c.toBitVec v.d.toBitVec) sum

theorem k256_standard (i : ℕ) : (k256.getD i 0).toBitVec = Sha256.constant i := by
  have table : k256.map UInt32.toBitVec = Sha256.constants := rfl
  rw [Sha256.constant, ← table, List.getD_eq_getElem?_getD, List.getD_eq_getElem?_getD, List.getElem?_map]
  cases k256[i]? with
  | none => rfl
  | some k => rfl

theorem sha256Round_standard (w : List UInt32) (v : Eight UInt32) (i : ℕ) :
    (sha256Round w v i).map UInt32.toBitVec =
      Sha256.round i (w.getD i 0).toBitVec (v.map UInt32.toBitVec) := by
  have k := k256_standard i
  unfold Sha256.round
  rw [← k]
  rfl

/-- The rounds over a filled word array are the rounds of the standard over the schedule. -/
theorem rounds_standard {σ τ : Type} (view : σ → τ) {round : List UInt32 → σ → ℕ → σ}
    {standard : ℕ → Word → τ → τ} (step : ∀ w v i, view (round w v i) = standard i (w.getD i 0).toBitVec (view v))
    {n : ℕ} {w : List UInt32} {W : ℕ → Word} (words : ∀ i < n, (w.getD i 0).toBitVec = W i) (v : σ) :
    view ((List.range n).foldl (round w) v) = (List.range n).foldl (fun u t => standard t (W t) u) (view v) := by
  refine List.foldl_rel (r := fun v u => view v = u) rfl ?_
  rintro i hi v _ rfl
  rw [step, words i (List.mem_range.mp hi)]

theorem sha1Compress_standard (state : Five UInt32) (block : Bytes) :
    (sha1Compress state block).map UInt32.toBitVec = Sha1.compress (state.map UInt32.toBitVec) block := by
  have rounds := rounds_standard (Five.map UInt32.toBitVec) sha1Round_standard (sha1_schedule block) state
  rw [Sha1.compress, ← rounds]
  rfl

theorem sha256Compress_standard (state : Eight UInt32) (block : Bytes) :
    (sha256Compress state block).map UInt32.toBitVec = Sha256.compress (state.map UInt32.toBitVec) block := by
  have rounds := rounds_standard (Eight.map UInt32.toBitVec) sha256Round_standard (sha256_schedule block) state
  rw [Sha256.compress, ← rounds]
  rfl

end Compression

section Tail
variable (bytes : Bytes)

def paddedRest : Bytes :=
  rest 64 bytes ++ 0x80 :: List.replicate (zeroOctets bytes.length) 0 ++ lengthField bytes.length

theorem rem_eq : bytes.length - bytes.length / 64 * 64 = bytes.length % 64 := by
  omega

theorem length_paddedRest : (paddedRest bytes).length = padLen (bytes.length % 64) := by
  simp only [paddedRest, List.length_append, List.length_cons, List.length_replicate, length_rest,
    length_lengthField, zeroOctets, padLen]
  split <;> omega

theorem lengthField_stored (n : ℕ) :
    ((List.range 8).map fun i => ((UInt64.ofNat n * 8) >>> (8 * UInt64.ofNat i)).toUInt8).reverse =
      lengthField n := by
  have bits : BitVec.ofNat 64 (8 * n) = (UInt64.ofNat n * 8).toBitVec := by
    rw [Nat.mul_comm, BitVec.ofNat_mul]
    rfl
  rw [lengthField, bits]
  rfl

/-- The end mark and the length field are stored behind the rest of the input and do not meet. -/
theorem messageTail_eq :
    messageTail bytes = paddedRest bytes ++ List.replicate (128 - padLen (bytes.length % 64)) 0 := by
  have len := length_rest (n := 64) bytes
  have short : bytes.length % 64 < 64 := Nat.mod_lt _ (by decide)
  have room : zeroOctets bytes.length + 8 + (128 - padLen (bytes.length % 64)) = 127 - bytes.length % 64 := by
    rw [zeroOctets, padLen]
    split <;> omega
  have front : (rest 64 bytes ++ 0x80 :: List.replicate (zeroOctets bytes.length) 0).length + 8 =
      padLen (bytes.length % 64) := by
    rw [List.length_append, List.length_cons, List.length_replicate, len, zeroOctets, padLen]
    split <;> omega
  have copied : (bytes.drop (bytes.length / 64 * 64)).take (bytes.length % 64) = rest 64 bytes :=
    List.take_of_length_le (by rw [← rest, len])
  have marked : (rest 64 bytes ++ List.replicate (128 - bytes.length % 64) 0).set (bytes.length % 64) 0x80 =
      (rest 64 bytes ++ 0x80 :: List.replicate (zeroOctets bytes.length) 0) ++ List.replicate 8 0 ++
        List.replicate (128 - padLen (bytes.length % 64)) 0 := by
    have open_ : 128 - bytes.length % 64 = 127 - bytes.length % 64 + 1 := by omega
    rw [open_, List.replicate_succ, ← room, List.set_append_right _ _ (by omega), len, Nat.sub_self,
      List.set_cons_zero, List.replicate_add, List.replicate_add]
    simp
  unfold messageTail
  simp only [rem_eq, copied, marked]
  rw [write_downward _ 8 _ _ _ _ List.length_replicate front, lengthField_stored]
  rfl

theorem tailBlocks_eq : tailBlocks bytes = cut 64 (paddedRest bytes) := by
  have len := length_paddedRest bytes
  have same : ∀ i, (i + 1) * 64 ≤ padLen (bytes.length % 64) →
      block 64 (messageTail bytes) i = block 64 (paddedRest bytes) i := by
    intro i hi
    rw [messageTail_eq]
    exact block_append_left (by omega)
  unfold tailBlocks cut
  simp only [rem_eq, len]
  by_cases two : padLen (bytes.length % 64) = 128
  · rw [if_pos two, same 0 (by omega), same 1 (by omega), two]
    rfl
  · have one : padLen (bytes.length % 64) = 64 := by
      unfold padLen at two ⊢
      split <;> simp_all
    rw [if_neg two, same 0 (by omega), one]
    rfl

theorem blocks_padded : fullBlocks bytes ++ tailBlocks bytes = cut 64 (pad bytes) := by
  have whole : pad bytes = bytes.take (bytes.length / 64 * 64) ++ paddedRest bytes := by
    rw [pad, paddedRest, rest, ← List.append_assoc, ← List.append_assoc, List.take_append_drop]
  have aligned : 64 ∣ (bytes.take (bytes.length / 64 * 64)).length := by
    rw [List.length_take, Nat.min_eq_left (Nat.div_mul_le_self _ _)]
    exact Nat.dvd_mul_left _ _
  rw [whole, cut_append (by decide) aligned, cut_rest (by decide), tailBlocks_eq]
  rfl

theorem absorb_standard {σ τ : Type} (view : σ → τ) {compress : σ → Bytes → σ}
    {standard : τ → List Octet → τ} (h : ∀ s b, view (compress s b) = standard (view s) b) (state : σ) :
    view (absorb compress state bytes) = iterate standard (view state) bytes := by
  rw [absorb, ← List.foldl_append, blocks_padded, iterate]
  exact (List.foldl_hom view fun s b => (h s b).symm).symm

end Tail

section Digest

theorem store_standard (words : List UInt32) :
    words.flatMap storeWord = (words.map UInt32.toBitVec).flatMap octetsOf := by
  rw [List.flatMap_map]
  rfl

theorem sha1_standard (bytes : Bytes) : sha1 bytes = Sha1.digest bytes := by
  have initial : Five.map UInt32.toBitVec ⟨0x67452301, 0xEFCDAB89, 0x98BADCFE, 0x10325476, 0xC3D2E1F0⟩ =
      Sha1.initial := rfl
  rw [sha1, Sha1.digest, store_standard, ← Five.toList_map,
    absorb_standard bytes _ sha1Compress_standard, initial]

theorem sha256_standard (bytes : Bytes) : sha256 bytes = Sha256.digest bytes := by
  have initial : Eight.map UInt32.toBitVec ⟨0x6A09E667, 0xBB67AE85, 0x3C6EF372, 0xA54FF53A, 0x510E527F,
      0x9B05688C, 0x1F83D9AB, 0x5BE0CD19⟩ = Sha256.initial := rfl
  rw [sha256, Sha256.digest, store_standard, ← Eight.toList_map,
    absorb_standard bytes _ sha256Compress_standard, initial]

def lowerHex (octets : List Octet) : Bytes :=
  octets.flatMap fun (b : Octet) => [ch (b.toNat / 16).digitChar, ch (b.toNat % 16).digitChar]

theorem toHex_lower (bytes : Bytes) : toHex bytes = lowerHex bytes := by
  have digits : ∀ b : Byte, [hexChars.getD ((b >>> 4) &&& 0xF).toNat 0, hexChars.getD (b &&& 0xF).toNat 0] =
      [ch (b.toNat / 16).digitChar, ch (b.toNat % 16).digitChar] := by
    apply forall_byte
    decide +kernel
  rw [toHex, lowerHex]
  simp only [digits]

/-- The hashes are the digests of the standard, over the padded message in blocks of 64 bytes. -/
theorem hashes_standard (s : Bytes) (h : s.length < 2 ^ 61) :
    sha1Hex s = lowerHex (Sha1.digest s) ∧ sha256Hex s = lowerHex (Sha256.digest s) ∧
      fullBlocks s ++ tailBlocks s = cut 64 (pad s) ∧
      (∀ b ∈ fullBlocks s ++ tailBlocks s, b.length = 64) ∧
      (fullBlocks s ++ tailBlocks s).flatten =
        s ++ 0x80 :: List.replicate (zeroOctets s.length) 0 ++ lengthField s.length ∧
      (∀ k, 64 ∣ s.length + 1 + k + 8 → zeroOctets s.length ≤ k) ∧
      Nat.ofDigits 256 ((lengthField s.length).reverse.map UInt8.toNat) = 8 * s.length := by
  obtain ⟨count, blocks⟩ := dvd_length_pad s
  have whole : (cut 64 (pad s)).flatten = pad s :=
    flatten_cut (by decide) count _ (by rw [blocks, Nat.mul_comm])
  rw [sha1Hex, sha256Hex, sha1_standard, sha256_standard, toHex_lower, toHex_lower, blocks_padded]
  refine ⟨rfl, rfl, rfl, ?_, whole, fun k hk => zeroOctets_least _ k hk, lengthField_value h⟩
  intro b hb
  obtain ⟨i, hi, rfl⟩ := List.mem_map.mp hb
  refine length_block ?_
  rw [List.mem_range, blocks, Nat.mul_div_cancel_left _ (by decide)] at hi
  rw [blocks, Nat.mul_comm 64]
  exact Nat.mul_le_mul_right 64 hi

theorem abc_digests : lowerHex (Sha1.digest (lit "abc")) = lit "a9993e364706816aba3e25717850c26c9cd0d89d" ∧
    lowerHex (Sha256.digest (lit "abc")) =
      lit "ba7816bf8f01cfea414140de5dae2223b00361a396177a9cb410ff61f20015ad" := by
  have standard := hashes_standard (lit "abc") (by decide)
  rw [← standard.1, ← standard.2.1]
  decide +kernel

end Digest

end Mhda.HashStandard
