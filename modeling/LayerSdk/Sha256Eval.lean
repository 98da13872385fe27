import LayerSdk.Sha256

/-!
# Evaluating SHA-256

The same function on numbers, with the schedule window and the working words
as separate arguments. The kernel computes with numbers and builds no list in
a round, which makes a digest of a closed message some thirty times cheaper;
`sha256_eq_eval` is the rewrite that witnesses over the real hash use.
-/

namespace Sha256

namespace Num

/-- `j` is `32 - i`. -/
def rotr (i j x : Nat) : Nat := (x.shiftRight i).lor ((x.shiftLeft j).mod 4294967296)

def temp (e f g h k w : Nat) : Nat :=
  (((h.add (((rotr 6 26 e).xor (rotr 11 21 e)).xor (rotr 25 7 e))).add
    ((e.land f).xor ((Nat.sub 4294967295 e).land g))).add k).add w

def spread (a b c : Nat) : Nat :=
  (((rotr 2 30 a).xor (rotr 13 19 a)).xor (rotr 22 10 a)).add
    (((a.land b).xor (a.land c)).xor (b.land c))

def nextWord (w0 w1 w9 w14 : Nat) : Nat :=
  (((w0.add (((rotr 7 25 w1).xor (rotr 18 14 w1)).xor (w1.shiftRight 3))).add w9).add
    (((rotr 17 15 w14).xor (rotr 19 13 w14)).xor (w14.shiftRight 10))).mod 4294967296

/-- The rounds of one block from a window of sixteen words. -/
def rounds : (ks : List Nat) → (w0 w1 w2 w3 w4 w5 w6 w7 w8 w9 w10 w11 w12 w13 w14 w15 : Nat) →
    (a b c d e f g h : Nat) → List Nat
  | [], _, _, _, _, _, _, _, _, _, _, _, _, _, _, _, _, a, b, c, d, e, f, g, h =>
    [a, b, c, d, e, f, g, h]
  | k :: ks, w0, w1, w2, w3, w4, w5, w6, w7, w8, w9, w10, w11, w12, w13, w14, w15,
      a, b, c, d, e, f, g, h =>
      rounds ks w1 w2 w3 w4 w5 w6 w7 w8 w9 w10 w11 w12 w13 w14 w15 (nextWord w0 w1 w9 w14)
        (((temp e f g h k w0).add (spread a b c)).mod 4294967296) a b c
        ((d.add (temp e f g h k w0)).mod 4294967296) e f g

def constants : List Nat :=
  [0x428a2f98, 0x71374491, 0xb5c0fbcf, 0xe9b5dba5, 0x3956c25b, 0x59f111f1, 0x923f82a4, 0xab1c5ed5,
   0xd807aa98, 0x12835b01, 0x243185be, 0x550c7dc3, 0x72be5d74, 0x80deb1fe, 0x9bdc06a7, 0xc19bf174,
   0xe49b69c1, 0xefbe4786, 0x0fc19dc6, 0x240ca1cc, 0x2de92c6f, 0x4a7484aa, 0x5cb0a9dc, 0x76f988da,
   0x983e5152, 0xa831c66d, 0xb00327c8, 0xbf597fc7, 0xc6e00bf3, 0xd5a79147, 0x06ca6351, 0x14292967,
   0x27b70a85, 0x2e1b2138, 0x4d2c6dfc, 0x53380d13, 0x650a7354, 0x766a0abb, 0x81c2c92e, 0x92722c85,
   0xa2bfe8a1, 0xa81a664b, 0xc24b8b70, 0xc76c51a3, 0xd192e819, 0xd6990624, 0xf40e3585, 0x106aa070,
   0x19a4c116, 0x1e376c08, 0x2748774c, 0x34b0bcb5, 0x391c0cb3, 0x4ed8aa4a, 0x5b9cca4f, 0x682e6ff3,
   0x748f82ee, 0x78a5636f, 0x84c87814, 0x8cc70208, 0x90befffa, 0xa4506ceb, 0xbef9a3f7, 0xc67178f2]

def sum (x y : Nat) : Nat := (x.add y).mod 4294967296

/-- The rounds of the first sixteen words. -/
def firstBlock (a b c d e f g h : Nat) : List Nat → List Nat
  | w0 :: w1 :: w2 :: w3 :: w4 :: w5 :: w6 :: w7 :: w8 :: w9 :: w10 :: w11 :: w12 :: w13 :: w14 ::
      w15 :: _ =>
      rounds constants w0 w1 w2 w3 w4 w5 w6 w7 w8 w9 w10 w11 w12 w13 w14 w15 a b c d e f g h
  | _ => []

/-- The blocks of a message, from words to words. -/
def blocks : Nat → List Nat → (a b c d e f g h : Nat) → List Nat
  | 0, _, a, b, c, d, e, f, g, h => [a, b, c, d, e, f, g, h]
  | n + 1, w, a, b, c, d, e, f, g, h =>
    match firstBlock a b c d e f g h w with
    | [a', b', c', d', e', f', g', h'] =>
      blocks n (w.drop 16) (sum a a') (sum b b') (sum c c') (sum d d') (sum e e') (sum f f')
        (sum g g') (sum h h')
    | _ => []

def words : Bytes → List Nat
  | a :: b :: c :: d :: rest =>
    (((((a.toNat.mul 256).add b.toNat).mul 256).add c.toNat).mul 256).add d.toNat :: words rest
  | _ => []

def wordBytes (w : Nat) : Bytes :=
  [UInt8.ofNat (w.shiftRight 24), UInt8.ofNat (w.shiftRight 16), UInt8.ofNat (w.shiftRight 8),
    UInt8.ofNat w]

def digestBytes (msg : Bytes) : Bytes :=
  let w := words (pad msg)
  (blocks (w.length / 16) w 0x6a09e667 0xbb67ae85 0x3c6ef372 0xa54ff53a 0x510e527f 0x9b05688c
    0x1f83d9ab 0x5be0cd19).flatMap wordBytes

end Num

/-! ## Words and numbers -/

theorem toNat_rotr {n : UInt32} {i j : Nat} (hi : n.toNat % 32 = i) (hj : (32 - n).toNat % 32 = j)
    (x : UInt32) : (rotr n x).toNat = Num.rotr i j x.toNat := by
  rw [rotr, UInt32.toNat_or, UInt32.toNat_shiftRight, UInt32.toNat_shiftLeft, hi, hj]
  rfl

theorem toNat_sum (x y : UInt32) : (x + y).toNat = Num.sum x.toNat y.toNat := UInt32.toNat_add ..

def State.numbers (s : State) : List Nat :=
  [s.a.toNat, s.b.toNat, s.c.toNat, s.d.toNat, s.e.toNat, s.f.toNat, s.g.toNat, s.h.toNat]

theorem toNat_temp (e f g h k w : UInt32) :
    (h + (rotr 6 e ^^^ rotr 11 e ^^^ rotr 25 e) + ((e &&& f) ^^^ (~~~e &&& g)) + k + w).toNat =
      Num.temp e.toNat f.toNat g.toNat h.toNat k.toNat w.toNat % 4294967296 := by
  have h6 := toNat_rotr (n := 6) (i := 6) (j := 26) rfl rfl e
  have h11 := toNat_rotr (n := 11) (i := 11) (j := 21) rfl rfl e
  have h25 := toNat_rotr (n := 25) (i := 25) (j := 7) rfl rfl e
  simp only [UInt32.toNat_add, UInt32.toNat_xor, UInt32.toNat_and, UInt32.toNat_not, h6, h11, h25,
    Nat.mod_add_mod]
  rfl

theorem toNat_spread (a b c : UInt32) :
    ((rotr 2 a ^^^ rotr 13 a ^^^ rotr 22 a) + ((a &&& b) ^^^ (a &&& c) ^^^ (b &&& c))).toNat =
      Num.spread a.toNat b.toNat c.toNat % 4294967296 := by
  have h2 := toNat_rotr (n := 2) (i := 2) (j := 30) rfl rfl a
  have h13 := toNat_rotr (n := 13) (i := 13) (j := 19) rfl rfl a
  have h22 := toNat_rotr (n := 22) (i := 22) (j := 10) rfl rfl a
  simp only [UInt32.toNat_add, UInt32.toNat_xor, UInt32.toNat_and, h2, h13, h22]
  rfl

theorem toNat_nextWord {w : List UInt32} {w0 w1 w9 w14 : UInt32} (h0 : w.getD 0 0 = w0)
    (h1 : w.getD 1 0 = w1) (h9 : w.getD 9 0 = w9) (h14 : w.getD 14 0 = w14) :
    (nextWord w).toNat = Num.nextWord w0.toNat w1.toNat w9.toNat w14.toNat := by
  have h7 := toNat_rotr (n := 7) (i := 7) (j := 25) rfl rfl w1
  have h18 := toNat_rotr (n := 18) (i := 18) (j := 14) rfl rfl w1
  have h17 := toNat_rotr (n := 17) (i := 17) (j := 15) rfl rfl w14
  have h19 := toNat_rotr (n := 19) (i := 19) (j := 13) rfl rfl w14
  rw [nextWord, h0, h1, h9, h14]
  simp only [UInt32.toNat_add, UInt32.toNat_xor, UInt32.toNat_shiftRight, h7, h18, h17, h19,
    Nat.mod_add_mod]
  rfl

theorem numbers_rounds : ∀ (ks : List UInt32)
    (w0 w1 w2 w3 w4 w5 w6 w7 w8 w9 w10 w11 w12 w13 w14 w15 : UInt32) (s : State),
    (rounds ks [w0, w1, w2, w3, w4, w5, w6, w7, w8, w9, w10, w11, w12, w13, w14, w15] s).numbers =
      Num.rounds (ks.map UInt32.toNat) w0.toNat w1.toNat w2.toNat w3.toNat w4.toNat w5.toNat
        w6.toNat w7.toNat w8.toNat w9.toNat w10.toNat w11.toNat w12.toNat w13.toNat w14.toNat
        w15.toNat s.a.toNat s.b.toNat s.c.toNat s.d.toNat s.e.toNat s.f.toNat s.g.toNat s.h.toNat
  | [], _, _, _, _, _, _, _, _, _, _, _, _, _, _, _, _, _ => rfl
  | k :: ks, w0, w1, w2, w3, w4, w5, w6, w7, w8, w9, w10, w11, w12, w13, w14, w15, s => by
    have ih := numbers_rounds ks w1 w2 w3 w4 w5 w6 w7 w8 w9 w10 w11 w12 w13 w14 w15
      (nextWord [w0, w1, w2, w3, w4, w5, w6, w7, w8, w9, w10, w11, w12, w13, w14, w15])
      (round s k w0)
    have htemp := toNat_temp s.e s.f s.g s.h k w0
    have hword := toNat_nextWord
      (w := [w0, w1, w2, w3, w4, w5, w6, w7, w8, w9, w10, w11, w12, w13, w14, w15]) rfl rfl rfl rfl
    have ha : (round s k w0).a.toNat = ((Num.temp s.e.toNat s.f.toNat s.g.toNat s.h.toNat k.toNat
        w0.toNat).add (Num.spread s.a.toNat s.b.toNat s.c.toNat)).mod 4294967296 := by
      rw [round, UInt32.add_assoc, UInt32.toNat_add, htemp, toNat_spread, ← Nat.add_mod]
      rfl
    have he : (round s k w0).e.toNat = (s.d.toNat.add (Num.temp s.e.toNat s.f.toNat s.g.toNat
        s.h.toNat k.toNat w0.toNat)).mod 4294967296 := by
      rw [round, UInt32.toNat_add, htemp, Nat.add_mod_mod]
      rfl
    rw [ha, he, hword] at ih
    exact ih

theorem words_map_toNat (msg : Bytes) : (words msg).map UInt32.toNat = Num.words msg := by
  induction msg using words.induct with
  | case1 a b c d rest ih =>
    rw [words, List.map_cons, ih, Num.words, UInt32.toNat_ofNat_of_lt']
    · rfl
    · have ha := a.toNat_lt
      have hb := b.toNat_lt
      have hc := c.toNat_lt
      have hd := d.toNat_lt
      have hsize : UInt32.size = 4294967296 := rfl
      omega
  | case2 msg h =>
    rw [words.eq_2 msg h, Num.words.eq_2 msg h]
    rfl

theorem numbers_blocks : ∀ (n : Nat) (w : List UInt32) (s : State), 16 * n ≤ w.length →
    (blocks n w s).numbers = Num.blocks n (w.map UInt32.toNat) s.a.toNat s.b.toNat s.c.toNat
      s.d.toNat s.e.toNat s.f.toNat s.g.toNat s.h.toNat
  | 0, w, s, _ => rfl
  | n + 1, w, s, h => by
    rcases w with _ | ⟨w0, _ | ⟨w1, _ | ⟨w2, _ | ⟨w3, _ | ⟨w4, _ | ⟨w5, _ | ⟨w6, _ | ⟨w7, _ | ⟨w8,
      _ | ⟨w9, _ | ⟨w10, _ | ⟨w11, _ | ⟨w12, _ | ⟨w13, _ | ⟨w14, _ | ⟨w15, rest⟩⟩⟩⟩⟩⟩⟩⟩⟩⟩⟩⟩⟩⟩⟩⟩ <;>
      try (simp only [List.length_cons, List.length_nil] at h; omega)
    have hrest : 16 * n ≤ rest.length := by
      simp only [List.length_cons] at h
      omega
    have hrounds := numbers_rounds roundConstants w0 w1 w2 w3 w4 w5 w6 w7 w8 w9 w10 w11 w12 w13
      w14 w15 s
    have hconstants : roundConstants.map UInt32.toNat = Num.constants := rfl
    rw [hconstants] at hrounds
    have ih := numbers_blocks n rest (compress s
      [w0, w1, w2, w3, w4, w5, w6, w7, w8, w9, w10, w11, w12, w13, w14, w15]) hrest
    rw [blocks, Num.blocks]
    refine ih.trans ?_
    simp only [List.map_cons, Num.firstBlock]
    rw [← hrounds, State.numbers]
    simp only [compress, toNat_sum]
    rfl

theorem flatMap_wordBytes (s : State) : s.numbers.flatMap Num.wordBytes = s.toDigest.bytes := by
  simp only [State.numbers, List.flatMap_cons, List.flatMap_nil, List.append_nil, State.toDigest,
    List.append_assoc]
  rfl

theorem digestBytes_eq (msg : Bytes) : Num.digestBytes msg = (sha256 msg).bytes := by
  have hle : 16 * ((words (pad msg)).length / 16) ≤ (words (pad msg)).length := Nat.mul_div_le ..
  have hblocks := numbers_blocks _ _ initialState hle
  rw [words_map_toNat] at hblocks
  have hlen : (words (pad msg)).length = (Num.words (pad msg)).length := by
    rw [← words_map_toNat, List.length_map]
  rw [sha256, ← flatMap_wordBytes, hblocks, Num.digestBytes, hlen]
  rfl

end Sha256

/-- `sha256` as the kernel evaluates it. -/
def sha256Eval (msg : Bytes) : Digest where
  bytes := Sha256.Num.digestBytes msg
  length_bytes := by rw [Sha256.digestBytes_eq, Digest.length_bytes]

theorem sha256_eq_eval : sha256 = sha256Eval :=
  funext fun msg => Digest.ext_bytes (Sha256.digestBytes_eq msg).symm

-- The digest of the message "abc".
example : (sha256 [0x61, 0x62, 0x63]).bytes.take 4 = [0xba, 0x78, 0x16, 0xbf] := by
  rw [sha256_eq_eval]
  decide +kernel
