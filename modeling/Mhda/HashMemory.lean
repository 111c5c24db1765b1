import Mhda.Hash
import Mhda.Memory

set_option autoImplicit false

namespace Mhda.HashMemory
open Mhda.ByteString Mhda.Blocks Mhda.SecureHash Mhda.Memory

section Program

def hexChars : Region Byte := filled (Hash.hexChars ++ [0])

/-- `out` comes back with the size `2 * len`. -/
def toHex (input : Region Byte) (len : ℕ) : Option (Region Byte) := do
  let out : Region Byte := filled (List.replicate (← size (len * 2)) 0)
  forLoop 0 len (fun i out => do
    let out ← store out (← size (2 * i)) (← load hexChars (((← load input i) >>> 4) &&& 0xF).toNat)
    store out (← size (2 * i + 1)) (← load hexChars ((← load input i) &&& 0xF).toNat)) out

def shl32 (x : UInt32) (n : ℕ) : Option UInt32 := if n < 32 then some (x <<< UInt32.ofNat n) else none

def shr32 (x : UInt32) (n : ℕ) : Option UInt32 := if n < 32 then some (x >>> UInt32.ofNat n) else none

def shr64 (x : UInt64) (n : ℕ) : Option UInt64 := if n < 64 then some (x >>> UInt64.ofNat n) else none

def rotl32 (x : UInt32) (n : ℕ) : Option UInt32 := do
  some ((← shl32 x n) ||| (← shr32 x (← sub 32 n)))

def rotr32 (x : UInt32) (n : ℕ) : Option UInt32 := do
  some ((← shr32 x n) ||| (← shl32 x (← sub 32 n)))

def loadWord (block : Region Byte) (i : ℕ) : Option UInt32 := do
  let first ← shl32 (← load block (← size (4 * i))).toUInt32 24
  let second ← shl32 (← load block (← size (4 * i + 1))).toUInt32 16
  let third ← shl32 (← load block (← size (4 * i + 2))).toUInt32 8
  some (first ||| second ||| third ||| (← load block (← size (4 * i + 3))).toUInt32)

/-- The array `w[n]`, which has no value before the loops. -/
def fillWords (n : ℕ) (next : Region UInt32 → ℕ → Option UInt32) (block : Region Byte) : Option (Region UInt32) := do
  let w ← forLoop 0 16 (fun i w => do store w i (← loadWord block i)) (uninitialised n)
  forLoop 16 n (fun i w => do store w i (← next w i)) w

/-- `state[i] += x`. -/
def increase (state : Region UInt32) (i : ℕ) (x : UInt32) : Option (Region UInt32) := do
  store state i ((← load state i) + x)

def sha1Next (w : Region UInt32) (i : ℕ) : Option UInt32 := do
  rotl32 ((← load w (← sub i 3)) ^^^ (← load w (← sub i 8)) ^^^ (← load w (← sub i 14)) ^^^ (← load w (← sub i 16))) 1

def sha1Round (w : Region UInt32) (i : ℕ) (v : Five UInt32) : Option (Five UInt32) := do
  let fk := Hash.sha1Select i v.b v.c v.d
  let t := (← rotl32 v.a 5) + fk.1 + v.e + fk.2 + (← load w i)
  some ⟨t, v.a, ← rotl32 v.b 30, v.c, v.d⟩

def sha1Compress (state : Region UInt32) (block : Region Byte) : Option (Region UInt32) := do
  let w ← fillWords 80 sha1Next block
  let v ← forLoop 0 80 (sha1Round w)
    ⟨← load state 0, ← load state 1, ← load state 2, ← load state 3, ← load state 4⟩
  let state ← increase state 0 v.a
  let state ← increase state 1 v.b
  let state ← increase state 2 v.c
  let state ← increase state 3 v.d
  increase state 4 v.e

def k256 : Region UInt32 := filled Hash.k256

def sha256Next (w : Region UInt32) (i : ℕ) : Option UInt32 := do
  let w15 ← load w (← sub i 15)
  let s0 := (← rotr32 w15 7) ^^^ (← rotr32 w15 18) ^^^ (← shr32 w15 3)
  let w2 ← load w (← sub i 2)
  let s1 := (← rotr32 w2 17) ^^^ (← rotr32 w2 19) ^^^ (← shr32 w2 10)
  some ((← load w (← sub i 16)) + s0 + (← load w (← sub i 7)) + s1)

def sha256Round (w : Region UInt32) (i : ℕ) (v : Eight UInt32) : Option (Eight UInt32) := do
  let S1 := (← rotr32 v.e 6) ^^^ (← rotr32 v.e 11) ^^^ (← rotr32 v.e 25)
  let ch := (v.e &&& v.f) ^^^ (~~~v.e &&& v.g)
  let t1 := v.h + S1 + ch + (← load k256 i) + (← load w i)
  let S0 := (← rotr32 v.a 2) ^^^ (← rotr32 v.a 13) ^^^ (← rotr32 v.a 22)
  let mj := (v.a &&& v.b) ^^^ (v.a &&& v.c) ^^^ (v.b &&& v.c)
  some ⟨t1 + (S0 + mj), v.a, v.b, v.c, v.d + t1, v.e, v.f, v.g⟩

def sha256Compress (state : Region UInt32) (block : Region Byte) : Option (Region UInt32) := do
  let w ← fillWords 64 sha256Next block
  let v ← forLoop 0 64 (sha256Round w)
    ⟨← load state 0, ← load state 1, ← load state 2, ← load state 3,
      ← load state 4, ← load state 5, ← load state 6, ← load state 7⟩
  let state ← increase state 0 v.a
  let state ← increase state 1 v.b
  let state ← increase state 2 v.c
  let state ← increase state 3 v.d
  let state ← increase state 4 v.e
  let state ← increase state 5 v.f
  let state ← increase state 6 v.g
  increase state 7 v.h

/-- `if (rem) memcpy(tail, bytes + full_blocks * 64, rem)`: an empty input has no address to copy from. -/
def copyRest (tail bytes : Region Byte) (n rem : ℕ) : Option (Region Byte) :=
  if rem = 0 then some tail else do copy tail (← address bytes (← size (n / 64 * 64))) rem

/-- `tail[128]` with the rest of the input, the end mark and the length. -/
def messageTail (bytes : Region Byte) (n rem padLen : ℕ) : Option (Region Byte) := do
  let tail : Region Byte := filled (List.replicate 128 0)
  let tail ← copyRest tail bytes n rem
  let tail ← store tail rem 0x80
  let bitLen := UInt64.ofNat n * 8
  forLoop 0 8 (fun i tail => do
    store tail (← sub (← sub padLen 1) i) (← shr64 bitLen (← size (8 * i))).toUInt8) tail

def absorb (compress : Region UInt32 → Region Byte → Option (Region UInt32)) (state : Region UInt32)
    (bytes : Region Byte) (n : ℕ) : Option (Region UInt32) := do
  let state ← forLoop 0 (n / 64) (fun i state => do compress state (← address bytes (← size (i * 64)))) state
  let rem ← sub n (← size (n / 64 * 64))
  let padLen := if rem < 56 then 64 else 128
  let tail ← messageTail bytes n rem padLen
  let state ← compress state tail
  if padLen = 128 then compress state (← address tail 64) else some state

def digest (state : Region UInt32) (words : ℕ) : Option (Region Byte) :=
  forLoop 0 words (fun i out => do
    let x ← load state i
    let out ← store out (← size (4 * i)) (← shr32 x 24).toUInt8
    let out ← store out (← size (4 * i + 1)) (← shr32 x 16).toUInt8
    let out ← store out (← size (4 * i + 2)) (← shr32 x 8).toUInt8
    store out (← size (4 * i + 3)) x.toUInt8) (filled (List.replicate (4 * words) 0))

def sha1 (data : Region Byte) (n : ℕ) : Option (Region Byte) := do
  let state := filled [0x67452301, 0xEFCDAB89, 0x98BADCFE, 0x10325476, 0xC3D2E1F0]
  digest (← absorb sha1Compress state data n) 5

def sha256 (data : Region Byte) (n : ℕ) : Option (Region Byte) := do
  let state := filled [0x6A09E667, 0xBB67AE85, 0x3C6EF372, 0xA54FF53A, 0x510E527F, 0x9B05688C, 0x1F83D9AB, 0x5BE0CD19]
  digest (← absorb sha256Compress state data n) 8

def sha1Hex (data : Bytes) : Option (Region Byte) := do
  toHex (← sha1 (filled data) data.length) 20

def sha256Hex (data : Bytes) : Option (Region Byte) := do
  toHex (← sha256 (filled data) data.length) 32

end Program

section Words
variable {n i : ℕ}

theorem shl32_run (h : n < 32) (x : UInt32) : shl32 x n = some (x <<< UInt32.ofNat n) := if_pos h

theorem shr32_run (h : n < 32) (x : UInt32) : shr32 x n = some (x >>> UInt32.ofNat n) := if_pos h

theorem shr64_run (h : n < 64) (x : UInt64) : shr64 x n = some (x >>> UInt64.ofNat n) := if_pos h

theorem rotl32_run (pos : 0 < n) (h : n < 32) (x : UInt32) : rotl32 x n = some (Hash.rotl32 x (UInt32.ofNat n)) := by
  have other : 32 - n < 32 := by omega
  rw [rotl32, shl32_run h, sub_some (by omega)]
  change (shr32 x (32 - n)).bind (fun low => some (x <<< UInt32.ofNat n ||| low)) = _
  rw [shr32_run other, UInt32.ofNat_sub (by omega)]
  rfl

theorem rotr32_run (pos : 0 < n) (h : n < 32) (x : UInt32) : rotr32 x n = some (Hash.rotr32 x (UInt32.ofNat n)) := by
  have other : 32 - n < 32 := by omega
  rw [rotr32, shr32_run h, sub_some (by omega)]
  change (shl32 x (32 - n)).bind (fun high => some (x >>> UInt32.ofNat n ||| high)) = _
  rw [shl32_run other, UInt32.ofNat_sub (by omega)]
  rfl

/-- What a compression reads of its block is within the 64 bytes. -/
structure Holds (p : Region Byte) (b : Bytes) : Prop where
  front : p.take 64 = filled b
  full : b.length = 64

theorem Holds.load {p : Region Byte} {b : Bytes} (h : Holds p b) (hi : i < 64) : load p i = some (b.getD i 0) := by
  rw [← load_take hi, h.front]
  exact load_of_lt 0 (by rw [h.full]; exact hi)

theorem loadWord_run {p : Region Byte} {b : Bytes} (h : Holds p b) (hi : i < 16) :
    loadWord p i = some (Hash.loadWord b i) := by
  have loads : ∀ j, j < 4 → size (4 * i + j) = some (4 * i + j) ∧ load p (4 * i + j) = some (b.getD (4 * i + j) 0) := by
    intro j hj
    exact ⟨size_some (by omega), h.load (by omega)⟩
  obtain ⟨s0, l0⟩ := loads 0 (by omega)
  obtain ⟨s1, l1⟩ := loads 1 (by omega)
  obtain ⟨s2, l2⟩ := loads 2 (by omega)
  obtain ⟨s3, l3⟩ := loads 3 (by omega)
  rw [Nat.add_zero] at s0 l0
  simp only [loadWord, Option.bind_eq_bind, s0, s1, s2, s3, l0, l1, l2, l3, Option.bind_some, shl32, Nat.reduceLT, if_true]
  rfl

/-- The words before `i` are written when the word `i` is computed. -/
def Computes (n : ℕ) (step : Region UInt32 → ℕ → Option UInt32) (next : (ℕ → UInt32) → ℕ → UInt32) : Prop :=
  ∀ i m w, 16 ≤ i → i < n → w.length = n → Written i m w → step m i = some (next (fun j => w.getD j 0) i)

theorem fillWords_run {step : Region UInt32 → ℕ → Option UInt32} {next : (ℕ → UInt32) → ℕ → UInt32}
    (computes : Computes n step next) (hn : 16 ≤ n) {p : Region Byte} {b : Bytes} (h : Holds p b) :
    fillWords n step p = some (filled (Hash.fillWords n next b)) ∧ (Hash.fillWords n next b).length = n := by
  have loaded : ∀ i m w, 0 ≤ i → i < 16 → (Written i m w ∧ w.length = n) →
      ∃ m', (do store m i (← loadWord p i)) = some m' ∧
        (Written (i + 1) m' (w.set i (Hash.loadWord b i)) ∧ (w.set i (Hash.loadWord b i)).length = n) := by
    intro i m w _ hi ⟨written, length⟩
    obtain ⟨m', run, next⟩ := written.store (by omega) (Hash.loadWord b i)
    refine ⟨m', ?_, next, by rw [List.length_set, length]⟩
    rw [loadWord_run h hi]
    exact run
  have computed : ∀ i m w, 16 ≤ i → i < n → (Written i m w ∧ w.length = n) →
      ∃ m', (do store m i (← step m i)) = some m' ∧
        (Written (i + 1) m' (w.set i (next (fun j => w.getD j 0) i)) ∧
          (w.set i (next (fun j => w.getD j 0) i)).length = n) := by
    intro i m w lo hi ⟨written, length⟩
    obtain ⟨m', run, after⟩ := written.store (by omega) (next (fun j => w.getD j 0) i)
    refine ⟨m', ?_, after, by rw [List.length_set, length]⟩
    rw [computes i m w lo hi length written]
    exact run
  have zero : (List.replicate n (0 : UInt32)).length = n := List.length_replicate
  have blank : Written 0 (uninitialised n) (List.replicate n (0 : UInt32)) := by
    have fresh := written_uninitialised (List.replicate n (0 : UInt32))
    rwa [zero] at fresh
  obtain ⟨m₁, first, firstWritten⟩ := forLoop_refines (Nat.zero_le 16) loaded ⟨blank, zero⟩
  obtain ⟨m₂, second, all, length⟩ := forLoop_refines hn computed firstWritten
  rw [Hash.fillWords, List.range_eq_range']
  refine ⟨?_, length⟩
  rw [fillWords, first]
  change forLoop 16 n _ m₁ = _
  rw [second, all.filled (Nat.le_of_eq length)]

end Words

section Rounds

theorem words_before {n i : ℕ} {m : Region UInt32} {w : List UInt32} (written : Written i m w) (lo : 16 ≤ i) (hi : i < n)
    (length : w.length = n) (k : ℕ) (pos : 0 < k) (le : k ≤ 16) :
    sub i k = some (i - k) ∧ load m (i - k) = some (w.getD (i - k) 0) :=
  ⟨sub_some (by omega), written.load 0 (by omega) (by omega)⟩

theorem sha1Next_computes : Computes 80 sha1Next Hash.sha1Next := by
  intro i m w lo hi length written
  have before := words_before written lo hi length
  obtain ⟨s3, l3⟩ := before 3 (by omega) (by omega)
  obtain ⟨s8, l8⟩ := before 8 (by omega) (by omega)
  obtain ⟨s14, l14⟩ := before 14 (by omega) (by omega)
  obtain ⟨s16, l16⟩ := before 16 (by omega) (by omega)
  simp only [sha1Next, Option.bind_eq_bind, s3, s8, s14, s16, l3, l8, l14, l16, Option.bind_some]
  exact rotl32_run (by omega) (by omega) _

theorem sha256Next_computes : Computes 64 sha256Next Hash.sha256Next := by
  intro i m w lo hi length written
  have before := words_before written lo hi length
  obtain ⟨s2, l2⟩ := before 2 (by omega) (by omega)
  obtain ⟨s7, l7⟩ := before 7 (by omega) (by omega)
  obtain ⟨s15, l15⟩ := before 15 (by omega) (by omega)
  obtain ⟨s16, l16⟩ := before 16 (by omega) (by omega)
  have rotate : ∀ n x, 0 < n → n < 32 → rotr32 x n = some (Hash.rotr32 x (UInt32.ofNat n)) := by
    intro n x pos below
    exact rotr32_run pos below x
  simp (disch := omega) only [sha256Next, Option.bind_eq_bind, s2, s7, s15, s16, l2, l7, l15, l16, rotate, shr32_run,
    Option.bind_some]
  rfl

theorem sha1Round_run {w : List UInt32} {i : ℕ} (h : i < w.length) (v : Five UInt32) :
    sha1Round (filled w) i v = some (Hash.sha1Round w v i) := by
  simp (disch := omega) only [sha1Round, Option.bind_eq_bind, rotl32_run, load_of_lt 0 h, Option.bind_some]
  rfl

theorem sha256Round_run {w : List UInt32} {i : ℕ} (h : i < w.length) (constant : i < 64) (v : Eight UInt32) :
    sha256Round (filled w) i v = some (Hash.sha256Round w v i) := by
  have table : load k256 i = some (Hash.k256.getD i 0) := load_of_lt 0 constant
  simp (disch := omega) only [sha256Round, Option.bind_eq_bind, rotr32_run, load_of_lt 0 h, table, Option.bind_some]
  rfl

theorem increase_five (v r : Five UInt32) : (do
    let state ← increase (filled v.toList) 0 r.a
    let state ← increase state 1 r.b
    let state ← increase state 2 r.c
    let state ← increase state 3 r.d
    increase state 4 r.e) = some (filled (v.add r).toList) := rfl

theorem increase_eight (v r : Eight UInt32) : (do
    let state ← increase (filled v.toList) 0 r.a
    let state ← increase state 1 r.b
    let state ← increase state 2 r.c
    let state ← increase state 3 r.d
    let state ← increase state 4 r.e
    let state ← increase state 5 r.f
    let state ← increase state 6 r.g
    increase state 7 r.h) = some (filled (v.add r).toList) := rfl

theorem sha1Compress_run {p : Region Byte} {b : Bytes} (h : Holds p b) (v : Five UInt32) :
    sha1Compress (filled v.toList) p = some (filled (Hash.sha1Compress v b).toList) := by
  obtain ⟨words, length⟩ := fillWords_run sha1Next_computes (by omega) h
  generalize hw : Hash.fillWords 80 Hash.sha1Next b = w at words length
  have rounds : forLoop 0 80 (sha1Round (filled w)) v = some ((List.range 80).foldl (Hash.sha1Round w) v) :=
    forLoop_fold id (fun i v hi => sha1Round_run (by omega) v) v
  have loads : load (filled v.toList) 0 = some v.a ∧ load (filled v.toList) 1 = some v.b ∧
      load (filled v.toList) 2 = some v.c ∧ load (filled v.toList) 3 = some v.d ∧
      load (filled v.toList) 4 = some v.e := ⟨rfl, rfl, rfl, rfl, rfl⟩
  obtain ⟨a, b, c, d, e⟩ := loads
  simp only [sha1Compress, words, a, b, c, d, e, some_bind, rounds, increase_five, Hash.sha1Compress, hw]

theorem sha256Compress_run {p : Region Byte} {b : Bytes} (h : Holds p b) (v : Eight UInt32) :
    sha256Compress (filled v.toList) p = some (filled (Hash.sha256Compress v b).toList) := by
  obtain ⟨words, length⟩ := fillWords_run sha256Next_computes (by omega) h
  generalize hw : Hash.fillWords 64 Hash.sha256Next b = w at words length
  have rounds : forLoop 0 64 (sha256Round (filled w)) v = some ((List.range 64).foldl (Hash.sha256Round w) v) :=
    forLoop_fold id (fun i v hi => sha256Round_run (by omega) hi v) v
  have loads : load (filled v.toList) 0 = some v.a ∧ load (filled v.toList) 1 = some v.b ∧
      load (filled v.toList) 2 = some v.c ∧ load (filled v.toList) 3 = some v.d ∧
      load (filled v.toList) 4 = some v.e ∧ load (filled v.toList) 5 = some v.f ∧
      load (filled v.toList) 6 = some v.g ∧ load (filled v.toList) 7 = some v.h :=
    ⟨rfl, rfl, rfl, rfl, rfl, rfl, rfl, rfl⟩
  obtain ⟨a, b, c, d, e, f, g, h⟩ := loads
  simp only [sha256Compress, words, a, b, c, d, e, f, g, h, some_bind, rounds, increase_eight, Hash.sha256Compress, hw]

end Rounds

section Digests
variable {σ : Type}

theorem flatMap_index {α β : Type} (xs : List α) (d : α) (f : α → List β) :
    xs.flatMap f = (List.range xs.length).flatMap fun i => f (xs.getD i d) := by
  have whole : xs = (List.range xs.length).map fun i => xs.getD i d := by
    refine List.ext_getElem (by simp) fun i h _ => ?_
    simp [h]
  conv_lhs => rw [whole]
  rw [List.flatMap_map]

theorem digest_run (ws : List UInt32) (small : ws.length < 2 ^ 32) :
    digest (filled ws) ws.length = some (filled (ws.flatMap Hash.storeWord)) := by
  rw [flatMap_index ws 0, digest, Nat.mul_comm]
  refine forLoop_groups (fun i front back hi start => ?_) (fun i hi => rfl)
  have sizes : ∀ j, j < 4 → size (4 * i + j) = some (4 * i + j) := by
    intro j hj
    exact size_some (by omega)
  have stores : ∀ j (mid : Bytes) (x : Byte), j < mid.length →
      store (filled (front ++ (mid ++ back))) (4 * i + j) x = some (filled (front ++ (mid.set j x ++ back))) := by
    intro j mid x hj
    exact store_within (by omega) hj x
  have size₀ : size (4 * i) = some (4 * i) := sizes 0 (by omega)
  have store₀ : ∀ (mid : Bytes) (x : Byte), 0 < mid.length →
      store (filled (front ++ (mid ++ back))) (4 * i) x = some (filled (front ++ (mid.set 0 x ++ back))) := stores 0
  have blank : List.replicate 4 (0 : Byte) = [0, 0, 0, 0] := rfl
  simp (disch := simp) only [load_of_lt 0 hi, some_bind, shr32_run, size₀, sizes, blank, store₀, stores,
    List.set_cons_zero, List.set_cons_succ]
  rfl

theorem toHex_run (bytes : Bytes) (small : bytes.length < 2 ^ 32) :
    toHex (filled bytes) bytes.length = some (filled (Hash.toHex bytes)) := by
  have digits : ∀ n : ℕ, n < 16 → load hexChars n = some (Hash.hexChars.getD n 0) := by
    decide +kernel
  rw [Hash.toHex, flatMap_index bytes 0, toHex, size_some (by omega), some_bind]
  refine forLoop_groups (fun i front back hi start => ?_) (fun i hi => rfl)
  have stores : ∀ j (mid : Bytes) (x : Byte), j < mid.length →
      store (filled (front ++ (mid ++ back))) (2 * i + j) x = some (filled (front ++ (mid.set j x ++ back))) := by
    intro j mid x hj
    exact store_within (by omega) hj x
  have size₀ : size (2 * i) = some (2 * i) := size_some (by omega)
  have size₁ : size (2 * i + 1) = some (2 * i + 1) := size_some (by omega)
  have store₀ : ∀ (mid : Bytes) (x : Byte), 0 < mid.length →
      store (filled (front ++ (mid ++ back))) (2 * i) x = some (filled (front ++ (mid.set 0 x ++ back))) := stores 0
  have nibble : ∀ b : Byte, ((b >>> 4) &&& 0xF).toNat < 16 ∧ (b &&& 0xF).toNat < 16 :=
    forall_byte (by decide +kernel)
  have high := digits _ (nibble (bytes.getD i 0)).1
  have low := digits _ (nibble (bytes.getD i 0)).2
  have blank : List.replicate 2 (0 : Byte) = [0, 0] := rfl
  simp (disch := simp) only [load_of_lt 0 hi, some_bind, high, low, size₀, size₁, blank, store₀, stores,
    List.set_cons_zero, List.set_cons_succ]

def Compresses (words : σ → List UInt32) (run : Region UInt32 → Region Byte → Option (Region UInt32))
    (compress : σ → Bytes → σ) : Prop :=
  ∀ s p b, Holds p b → run (filled (words s)) p = some (filled (words (compress s b)))

theorem holds_block {xs : Bytes} {i : ℕ} (h : (i + 1) * 64 ≤ xs.length) :
    Holds (filled (xs.drop (i * 64))) (block 64 xs i) := by
  refine ⟨?_, length_block h⟩
  rw [block, filled, filled, List.map_take]

theorem copyRest_run (data : Bytes) (fits : data.length < 2 ^ 64) {rem : ℕ}
    (h : rem = data.length - data.length / 64 * 64) :
    copyRest (filled (List.replicate 128 0)) (filled data) data.length rem =
      some (filled ((data.drop (data.length / 64 * 64)).take rem ++ List.replicate (128 - rem) 0)) := by
  have split := Nat.div_add_mod' data.length 64
  have less := Nat.mod_lt data.length (show 0 < 64 by omega)
  by_cases none : rem = 0
  · rw [copyRest, if_pos none, none]
    rfl
  · have source : rem ≤ (data.drop (data.length / 64 * 64)).length := by
      rw [List.length_drop]
      omega
    have target : rem ≤ (List.replicate 128 (0 : Byte)).length := by
      rw [List.length_replicate]
      omega
    rw [copyRest, if_neg none, size_some (by omega), some_bind, address_filled (by omega), some_bind,
      copy_filled source target, List.drop_replicate]

theorem length_rest {data : Bytes} {rem : ℕ} (h : rem = data.length - data.length / 64 * 64) :
    ((data.drop (data.length / 64 * 64)).take rem ++ List.replicate (128 - rem) 0).length = 128 := by
  have split := Nat.div_add_mod' data.length 64
  have less := Nat.mod_lt data.length (show 0 < 64 by omega)
  rw [List.length_append, List.length_take, List.length_drop, List.length_replicate]
  omega

theorem messageTail_run (data : Bytes) (fits : data.length < 2 ^ 64) {rem : ℕ}
    (h : rem = data.length - data.length / 64 * 64) :
    messageTail (filled data) data.length rem (Hash.padLen rem) = some (filled (Hash.messageTail data)) ∧
      (Hash.messageTail data).length = 128 := by
  have split := Nat.div_add_mod' data.length 64
  have less := Nat.mod_lt data.length (show 0 < 64 by omega)
  have length := length_rest h
  have pad : 64 ≤ Hash.padLen rem ∧ Hash.padLen rem ≤ 128 := by
    rw [Hash.padLen]
    split <;> omega
  rw [Hash.messageTail, ← h, messageTail, copyRest_run data fits h, some_bind, store_filled (by omega), some_bind]
  refine forLoop_view filled (fun t => t.length = 128) (by rw [List.length_set, length]) ?_
  intro i t hi kept
  have shift : UInt64.ofNat (8 * i) = 8 * UInt64.ofNat i := UInt64.ofNat_mul 8 i
  refine ⟨?_, by rw [List.length_set, kept]⟩
  rw [sub_some (by omega), some_bind, sub_some (by omega), some_bind, size_some (by omega), some_bind,
    shr64_run (by omega), some_bind, store_filled (by omega), shift]

variable {words : σ → List UInt32} {run : Region UInt32 → Region Byte → Option (Region UInt32)}
  {compress : σ → Bytes → σ}

theorem absorb_run (h : Compresses words run compress) (s : σ) (data : Bytes) (fits : data.length < 2 ^ 64) :
    absorb run (filled (words s)) (filled data) data.length = some (filled (words (Hash.absorb compress s data))) := by
  have split := Nat.div_add_mod' data.length 64
  have full : forLoop 0 (data.length / 64)
      (fun i state => do run state (← address (filled data) (← size (i * 64)))) (filled (words s)) =
      some (filled (words ((List.range (data.length / 64)).foldl (fun s i => compress s (block 64 data i)) s))) := by
    refine forLoop_fold (fun s => filled (words s)) (fun i s hi => ?_) s
    have inside : (i + 1) * 64 ≤ data.length := by omega
    rw [size_some (by omega), some_bind, address_filled (by omega), some_bind, h s _ _ (holds_block inside)]
  obtain ⟨tail, length⟩ := messageTail_run data fits rfl
  have pad : (if data.length - data.length / 64 * 64 < 56 then 64 else 128) =
      Hash.padLen (data.length - data.length / 64 * 64) := rfl
  have first : Holds (filled (Hash.messageTail data)) (block 64 (Hash.messageTail data) 0) := by
    have front := @holds_block (Hash.messageTail data) 0 (by omega)
    rwa [Nat.zero_mul, List.drop_zero] at front
  have second : Holds (filled ((Hash.messageTail data).drop 64)) (block 64 (Hash.messageTail data) 1) :=
    @holds_block (Hash.messageTail data) 1 (by omega)
  have start : address (filled (Hash.messageTail data)) 64 = some (filled ((Hash.messageTail data).drop 64)) :=
    address_filled (by omega)
  rw [absorb, full, some_bind, size_some (by omega), some_bind, sub_some (by omega), some_bind]
  simp only [pad, tail, some_bind, h _ _ _ first, start, h _ _ _ second, Hash.absorb, Hash.fullBlocks, List.foldl_map,
    Hash.tailBlocks]
  split <;> rfl

end Digests

section Results

theorem length_five (v : Five UInt32) : v.toList.length = 5 := rfl
theorem length_eight (v : Eight UInt32) : v.toList.length = 8 := rfl

theorem digest_five (v : Five UInt32) : digest (filled v.toList) 5 = some (filled (v.toList.flatMap Hash.storeWord)) :=
  digest_run v.toList (show 5 < 2 ^ 32 by omega)

theorem digest_eight (v : Eight UInt32) : digest (filled v.toList) 8 = some (filled (v.toList.flatMap Hash.storeWord)) :=
  digest_run v.toList (show 8 < 2 ^ 32 by omega)

theorem sha1_run {data : Bytes} (fits : data.length < 2 ^ 64) :
    sha1 (filled data) data.length = some (filled (Hash.sha1 data)) := by
  have compresses : Compresses Five.toList sha1Compress Hash.sha1Compress := fun v p b h => sha1Compress_run h v
  have absorbed := absorb_run compresses ⟨0x67452301, 0xEFCDAB89, 0x98BADCFE, 0x10325476, 0xC3D2E1F0⟩ data fits
  rw [Five.toList] at absorbed
  simp only [sha1, absorbed, some_bind, digest_five, Hash.sha1]

theorem sha256_run {data : Bytes} (fits : data.length < 2 ^ 64) :
    sha256 (filled data) data.length = some (filled (Hash.sha256 data)) := by
  have compresses : Compresses Eight.toList sha256Compress Hash.sha256Compress := fun v p b h => sha256Compress_run h v
  have absorbed := absorb_run compresses ⟨0x6A09E667, 0xBB67AE85, 0x3C6EF372, 0xA54FF53A, 0x510E527F, 0x9B05688C,
    0x1F83D9AB, 0x5BE0CD19⟩ data fits
  rw [Eight.toList] at absorbed
  simp only [sha256, absorbed, some_bind, digest_eight, Hash.sha256]

theorem length_words (ws : List UInt32) : (ws.flatMap Hash.storeWord).length = ws.length * 4 := by
  induction ws with
  | nil => rfl
  | cons x xs ih =>
    rw [List.flatMap_cons, List.length_append, ih, List.length_cons]
    have four : (Hash.storeWord x).length = 4 := rfl
    omega

/-- The digests are computed without undefined behaviour, and they are those of the pure definitions. -/
theorem digests_defined {data : Bytes} (fits : data.length < 2 ^ 64) :
    sha1Hex data = some (filled (Hash.sha1Hex data)) ∧ sha256Hex data = some (filled (Hash.sha256Hex data)) := by
  have twenty : (Hash.sha1 data).length = 20 := by rw [Hash.sha1, length_words, length_five]
  have thirtyTwo : (Hash.sha256 data).length = 32 := by rw [Hash.sha256, length_words, length_eight]
  have first := toHex_run (Hash.sha1 data) (by omega)
  have second := toHex_run (Hash.sha256 data) (by omega)
  rw [twenty] at first
  rw [thirtyTwo] at second
  rw [sha1Hex, sha256Hex, sha1_run fits, sha256_run fits, some_bind, some_bind]
  exact ⟨first, second⟩

/-- Fifty-six bytes and more need a second block for the length. -/
theorem digests_defined_two_blocks :
    sha1Hex (List.replicate 60 0x61) = some (filled (Hash.sha1Hex (List.replicate 60 0x61))) ∧
      sha256Hex (List.replicate 60 0x61) = some (filled (Hash.sha256Hex (List.replicate 60 0x61))) :=
  digests_defined (by decide)

end Results

end Mhda.HashMemory
