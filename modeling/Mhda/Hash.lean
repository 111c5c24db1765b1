import Mhda.Address
import Mhda.SecureHash

set_option autoImplicit false

namespace Mhda.Hash
open Mhda.ByteString Mhda.Blocks Mhda.SecureHash

def hexChars : Bytes := lit "0123456789abcdef"

def toHex (bytes : Bytes) : Bytes :=
  bytes.flatMap fun (b : Byte) =>
    [hexChars.getD ((b >>> 4) &&& 0xF).toNat 0, hexChars.getD (b &&& 0xF).toNat 0]

def rotl32 (x n : UInt32) : UInt32 := (x <<< n) ||| (x >>> (32 - n))

def rotr32 (x n : UInt32) : UInt32 := (x >>> n) ||| (x <<< (32 - n))

/-- `w[i]` for `i < 16`, loaded from the block. -/
def loadWord (block : Bytes) (i : ℕ) : UInt32 :=
  ((block.getD (4 * i) 0).toUInt32 <<< 24) ||| ((block.getD (4 * i + 1) 0).toUInt32 <<< 16) |||
    ((block.getD (4 * i + 2) 0).toUInt32 <<< 8) ||| (block.getD (4 * i + 3) 0).toUInt32

/-- The array `w`: sixteen loaded words, then each word computed from the ones before it. -/
def fillWords (n : ℕ) (next : (ℕ → UInt32) → ℕ → UInt32) (block : Bytes) : List UInt32 :=
  let w := (List.range 16).foldl (fun w i => w.set i (loadWord block i)) (List.replicate n 0)
  (List.range' 16 (n - 16)).foldl (fun w i => w.set i (next (fun j => w.getD j 0) i)) w

section Tail

def padLen (rem : ℕ) : ℕ := if rem < 56 then 64 else 128

/-- The buffer `tail[128]` after the rest of the input, the end mark and the length are written. -/
def messageTail (bytes : Bytes) : Bytes :=
  let n := bytes.length
  let fullBlocks := n / 64
  let rem := n - fullBlocks * 64
  let tail := (bytes.drop (fullBlocks * 64)).take rem ++ List.replicate (128 - rem) 0
  let tail := tail.set rem 0x80
  let bitLen := UInt64.ofNat n * 8
  (List.range 8).foldl
    (fun tail i => tail.set (padLen rem - 1 - i) (bitLen >>> (8 * UInt64.ofNat i)).toUInt8) tail

/-- The blocks behind the full ones: one, or two when the length does not fit into one. -/
def tailBlocks (bytes : Bytes) : List Bytes :=
  let tail := messageTail bytes
  let rem := bytes.length - bytes.length / 64 * 64
  if padLen rem = 128 then [block 64 tail 0, block 64 tail 1] else [block 64 tail 0]

def fullBlocks (bytes : Bytes) : List Bytes := (List.range (bytes.length / 64)).map (block 64 bytes)

def absorb {σ : Type} (compress : σ → Bytes → σ) (state : σ) (bytes : Bytes) : σ :=
  (tailBlocks bytes).foldl compress ((fullBlocks bytes).foldl compress state)

def storeWord (x : UInt32) : Bytes :=
  [(x >>> 24).toUInt8, (x >>> 16).toUInt8, (x >>> 8).toUInt8, x.toUInt8]

end Tail

section Sha1

def sha1Next (w : ℕ → UInt32) (i : ℕ) : UInt32 :=
  rotl32 (w (i - 3) ^^^ w (i - 8) ^^^ w (i - 14) ^^^ w (i - 16)) 1

/-- `f` and `k` of a round. -/
def sha1Select (i : ℕ) (b c d : UInt32) : UInt32 × UInt32 :=
  if i < 20 then ((b &&& c) ||| (~~~b &&& d), 0x5A827999)
  else if i < 40 then (b ^^^ c ^^^ d, 0x6ED9EBA1)
  else if i < 60 then ((b &&& c) ||| (b &&& d) ||| (c &&& d), 0x8F1BBCDC)
  else (b ^^^ c ^^^ d, 0xCA62C1D6)

def sha1Round (w : List UInt32) (v : Five UInt32) (i : ℕ) : Five UInt32 :=
  let fk := sha1Select i v.b v.c v.d
  let t := rotl32 v.a 5 + fk.1 + v.e + fk.2 + w.getD i 0
  ⟨t, v.a, rotl32 v.b 30, v.c, v.d⟩

def sha1Compress (state : Five UInt32) (block : Bytes) : Five UInt32 :=
  let w := fillWords 80 sha1Next block
  state.add ((List.range 80).foldl (sha1Round w) state)

def sha1 (bytes : Bytes) : Bytes :=
  (absorb sha1Compress ⟨0x67452301, 0xEFCDAB89, 0x98BADCFE, 0x10325476, 0xC3D2E1F0⟩ bytes).toList.flatMap
    storeWord

end Sha1

section Sha256

def k256 : List UInt32 :=
  [0x428A2F98, 0x71374491, 0xB5C0FBCF, 0xE9B5DBA5, 0x3956C25B, 0x59F111F1, 0x923F82A4, 0xAB1C5ED5,
    0xD807AA98, 0x12835B01, 0x243185BE, 0x550C7DC3, 0x72BE5D74, 0x80DEB1FE, 0x9BDC06A7, 0xC19BF174,
    0xE49B69C1, 0xEFBE4786, 0x0FC19DC6, 0x240CA1CC, 0x2DE92C6F, 0x4A7484AA, 0x5CB0A9DC, 0x76F988DA,
    0x983E5152, 0xA831C66D, 0xB00327C8, 0xBF597FC7, 0xC6E00BF3, 0xD5A79147, 0x06CA6351, 0x14292967,
    0x27B70A85, 0x2E1B2138, 0x4D2C6DFC, 0x53380D13, 0x650A7354, 0x766A0ABB, 0x81C2C92E, 0x92722C85,
    0xA2BFE8A1, 0xA81A664B, 0xC24B8B70, 0xC76C51A3, 0xD192E819, 0xD6990624, 0xF40E3585, 0x106AA070,
    0x19A4C116, 0x1E376C08, 0x2748774C, 0x34B0BCB5, 0x391C0CB3, 0x4ED8AA4A, 0x5B9CCA4F, 0x682E6FF3,
    0x748F82EE, 0x78A5636F, 0x84C87814, 0x8CC70208, 0x90BEFFFA, 0xA4506CEB, 0xBEF9A3F7, 0xC67178F2]

def sha256Next (w : ℕ → UInt32) (i : ℕ) : UInt32 :=
  let s0 := rotr32 (w (i - 15)) 7 ^^^ rotr32 (w (i - 15)) 18 ^^^ (w (i - 15) >>> 3)
  let s1 := rotr32 (w (i - 2)) 17 ^^^ rotr32 (w (i - 2)) 19 ^^^ (w (i - 2) >>> 10)
  w (i - 16) + s0 + w (i - 7) + s1

def sha256Round (w : List UInt32) (v : Eight UInt32) (i : ℕ) : Eight UInt32 :=
  let S1 := rotr32 v.e 6 ^^^ rotr32 v.e 11 ^^^ rotr32 v.e 25
  let ch := (v.e &&& v.f) ^^^ (~~~v.e &&& v.g)
  let t1 := v.h + S1 + ch + k256.getD i 0 + w.getD i 0
  let S0 := rotr32 v.a 2 ^^^ rotr32 v.a 13 ^^^ rotr32 v.a 22
  let mj := (v.a &&& v.b) ^^^ (v.a &&& v.c) ^^^ (v.b &&& v.c)
  let t2 := S0 + mj
  ⟨t1 + t2, v.a, v.b, v.c, v.d + t1, v.e, v.f, v.g⟩

def sha256Compress (state : Eight UInt32) (block : Bytes) : Eight UInt32 :=
  let w := fillWords 64 sha256Next block
  state.add ((List.range 64).foldl (sha256Round w) state)

def sha256 (bytes : Bytes) : Bytes :=
  (absorb sha256Compress ⟨0x6A09E667, 0xBB67AE85, 0x3C6EF372, 0xA54FF53A, 0x510E527F, 0x9B05688C,
    0x1F83D9AB, 0x5BE0CD19⟩ bytes).toList.flatMap storeWord

end Sha256

def sha1Hex (data : Bytes) : Bytes := toHex (sha1 data)

def sha256Hex (data : Bytes) : Bytes := toHex (sha256 data)

namespace Address

/-- The digests of the URN, and of the NSS, which is the URN without its prefix. -/
def hash (a : Addresses.Address) : Bytes := sha1Hex a.str
def nssHash (a : Addresses.Address) : Bytes := sha1Hex a.nss
def hash256 (a : Addresses.Address) : Bytes := sha256Hex a.str
def nssHash256 (a : Addresses.Address) : Bytes := sha256Hex a.nss

end Address

end Mhda.Hash
