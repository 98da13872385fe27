import Mathlib.Data.List.Basic

/-!
# SHA-256

The hash the node and the contract share, as the standard defines it, so
that statements over an arbitrary hash can be evaluated at the real one.
All loops are structural and every word is a machine word: a digest of a
closed message reduces in the kernel.
-/

/-- `Vec<u8>`. -/
abbrev Bytes := List UInt8

/-- `[u8; 32]`. -/
structure Digest where
  bytes : Bytes
  length_bytes : bytes.length = 32
deriving DecidableEq

theorem Digest.ext_bytes {a b : Digest} (h : a.bytes = b.bytes) : a = b := by
  cases a
  cases b
  simpa using h

namespace Sha256

/-- The eight working words. -/
structure State where
  a : UInt32
  b : UInt32
  c : UInt32
  d : UInt32
  e : UInt32
  f : UInt32
  g : UInt32
  h : UInt32
deriving DecidableEq

def roundConstants : List UInt32 :=
  [0x428a2f98, 0x71374491, 0xb5c0fbcf, 0xe9b5dba5, 0x3956c25b, 0x59f111f1, 0x923f82a4, 0xab1c5ed5,
   0xd807aa98, 0x12835b01, 0x243185be, 0x550c7dc3, 0x72be5d74, 0x80deb1fe, 0x9bdc06a7, 0xc19bf174,
   0xe49b69c1, 0xefbe4786, 0x0fc19dc6, 0x240ca1cc, 0x2de92c6f, 0x4a7484aa, 0x5cb0a9dc, 0x76f988da,
   0x983e5152, 0xa831c66d, 0xb00327c8, 0xbf597fc7, 0xc6e00bf3, 0xd5a79147, 0x06ca6351, 0x14292967,
   0x27b70a85, 0x2e1b2138, 0x4d2c6dfc, 0x53380d13, 0x650a7354, 0x766a0abb, 0x81c2c92e, 0x92722c85,
   0xa2bfe8a1, 0xa81a664b, 0xc24b8b70, 0xc76c51a3, 0xd192e819, 0xd6990624, 0xf40e3585, 0x106aa070,
   0x19a4c116, 0x1e376c08, 0x2748774c, 0x34b0bcb5, 0x391c0cb3, 0x4ed8aa4a, 0x5b9cca4f, 0x682e6ff3,
   0x748f82ee, 0x78a5636f, 0x84c87814, 0x8cc70208, 0x90befffa, 0xa4506ceb, 0xbef9a3f7, 0xc67178f2]

def initialState : State :=
  ⟨0x6a09e667, 0xbb67ae85, 0x3c6ef372, 0xa54ff53a, 0x510e527f, 0x9b05688c, 0x1f83d9ab, 0x5be0cd19⟩

def rotr (n x : UInt32) : UInt32 := (x >>> n) ||| (x <<< (32 - n))

/-- One round with constant `k` and schedule word `w`. -/
def round (s : State) (k w : UInt32) : State :=
  let s1 := rotr 6 s.e ^^^ rotr 11 s.e ^^^ rotr 25 s.e
  let ch := (s.e &&& s.f) ^^^ (~~~s.e &&& s.g)
  let t1 := s.h + s1 + ch + k + w
  let s0 := rotr 2 s.a ^^^ rotr 13 s.a ^^^ rotr 22 s.a
  let maj := (s.a &&& s.b) ^^^ (s.a &&& s.c) ^^^ (s.b &&& s.c)
  ⟨t1 + s0 + maj, s.a, s.b, s.c, s.d + t1, s.e, s.f, s.g⟩

/-- The schedule word that follows a window of sixteen. -/
def nextWord (w : List UInt32) : UInt32 :=
  let w1 := w.getD 1 0
  let w14 := w.getD 14 0
  let s0 := rotr 7 w1 ^^^ rotr 18 w1 ^^^ (w1 >>> 3)
  let s1 := rotr 17 w14 ^^^ rotr 19 w14 ^^^ (w14 >>> 10)
  w.getD 0 0 + s0 + w.getD 9 0 + s1

/-- The rounds of one block; the second list is the sliding schedule window. -/
def rounds : List UInt32 → List UInt32 → State → State
  | k :: ks, w :: ws, s => rounds ks (ws ++ [nextWord (w :: ws)]) (round s k w)
  | _, _, s => s

def compress (s : State) (block : List UInt32) : State :=
  let r := rounds roundConstants block s
  ⟨s.a + r.a, s.b + r.b, s.c + r.c, s.d + r.d, s.e + r.e, s.f + r.f, s.g + r.g, s.h + r.h⟩

/-- Big-endian words of a byte string. -/
def words : Bytes → List UInt32
  | a :: b :: c :: d :: rest =>
    UInt32.ofNat (((a.toNat * 256 + b.toNat) * 256 + c.toNat) * 256 + d.toNat) :: words rest
  | _ => []

def lengthBytes (bits : Nat) : Bytes :=
  [56, 48, 40, 32, 24, 16, 8, 0].map fun shift => UInt8.ofNat (bits >>> shift)

/-- The message, the bit `1`, zeros, and the bit length. -/
def pad (msg : Bytes) : Bytes :=
  msg ++ (0x80 : UInt8) :: (List.replicate ((119 - msg.length % 64) % 64) (0 : UInt8)
    ++ lengthBytes (msg.length * 8))

def blocks : Nat → List UInt32 → State → State
  | 0, _, s => s
  | n + 1, w, s => blocks n (w.drop 16) (compress s (w.take 16))

def wordBytes (w : UInt32) : Bytes :=
  [UInt8.ofNat (w.toNat >>> 24), UInt8.ofNat (w.toNat >>> 16), UInt8.ofNat (w.toNat >>> 8),
    UInt8.ofNat w.toNat]

def State.toDigest (s : State) : Digest where
  bytes := wordBytes s.a ++ wordBytes s.b ++ wordBytes s.c ++ wordBytes s.d
    ++ wordBytes s.e ++ wordBytes s.f ++ wordBytes s.g ++ wordBytes s.h
  length_bytes := by simp [wordBytes]

end Sha256

/-- `Sha256::digest`. -/
def sha256 (msg : Bytes) : Digest :=
  let w := Sha256.words (Sha256.pad msg)
  (Sha256.blocks (w.length / 16) w Sha256.initialState).toDigest

-- The digest of the message "abc".
example : (sha256 [0x61, 0x62, 0x63]).bytes.take 4 = [0xba, 0x78, 0x16, 0xbf] := by
  decide +kernel
