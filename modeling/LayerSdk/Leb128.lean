import Mathlib.Tactic.Common
import Mathlib.Tactic.Ring

/-!
# Base-128 varints

The unsigned LEB128 code of 64-bit words: seven payload bits per byte, low
group first, the top bit set on every byte but the last. Both loops are the
usual ones: the writer shifts seven bits out per byte and needs at most ten
bytes, the reader ors each group in at its shift and gives up when the shift
has passed the width of the word. Bits a group would put beyond the word are
dropped, so long forms are accepted.

`Whole` says which byte strings are one varint, `val` what its groups add up
to. The reader takes every whole varint of up to ten bytes (`read_whole`) and
nothing else (`exists_whole_of_read`); the writer writes the `Shortest` one
(`encode_val`, `shortest_encode`). That what is written is read back, with
whatever follows it left over, is `read_encode`.
-/

namespace Leb128

/-- The writer's loop with a bound on the bytes it may still emit. -/
def encodeLoop : Nat → Nat → List UInt8
  | 0, _ => []
  | n + 1, v =>
    if v / 128 = 0 then [UInt8.ofNat (v % 128)]
    else UInt8.ofNat (v % 128 + 128) :: encodeLoop n (v / 128)

def encode (v : Nat) : List UInt8 := encodeLoop 10 v

theorem length_encodeLoop : ∀ n v : Nat, (encodeLoop n v).length ≤ n
  | 0, _ => Nat.le_refl 0
  | n + 1, v => by
    rw [encodeLoop]
    split
    · simp
    · exact Nat.succ_le_succ (length_encodeLoop n _)

theorem length_encode (v : Nat) : (encode v).length ≤ 10 := length_encodeLoop 10 v

/-- The reader's loop: the word so far, the shift of the next group. -/
def readLoop : Nat → Nat → List UInt8 → Option (Nat × List UInt8)
  | _, _, [] => none
  | acc, shift, b :: bs =>
    if 64 ≤ shift then none
    else
      let acc := acc ||| ((b.toNat % 128) <<< shift) % 2 ^ 64
      if b.toNat < 128 then some (acc, bs) else readLoop acc (shift + 7) bs

/-- A word and the bytes after it. -/
def read (bs : List UInt8) : Option (Nat × List UInt8) := readLoop 0 0 bs

/-! ## What the reader takes -/

/-- One varint and nothing after it: the top bit on all bytes but the last. -/
def Whole : List UInt8 → Prop
  | [] => False
  | [b] => b.toNat < 128
  | b :: bs => 128 ≤ b.toNat ∧ Whole bs

/-- What the groups add up to, before it is cut to the word. -/
def val : List UInt8 → Nat
  | [] => 0
  | b :: bs => b.toNat % 128 + 128 * val bs

variable {w : List UInt8} {v : Nat}

theorem Whole.ne_nil (h : Whole w) : w ≠ [] := by
  rintro rfl
  exact h

theorem whole_cons {b : UInt8} (hw : w ≠ []) : Whole (b :: w) ↔ 128 ≤ b.toNat ∧ Whole w := by
  cases w with
  | nil => exact absurd rfl hw
  | cons c w => rfl

/-- No varint starts another. -/
theorem Whole.append_inj : ∀ {w w' r r' : List UInt8}, Whole w → Whole w' → w ++ r = w' ++ r' →
    w = w' ∧ r = r'
  | [b], [b'], r, r', _, _, h => by
    obtain ⟨rfl, rfl⟩ := List.cons.inj h
    exact ⟨rfl, rfl⟩
  | [b], b' :: c' :: w', r, r', hw, hw', h => by
    obtain ⟨rfl, -⟩ := List.cons.inj h
    exact absurd hw (Nat.not_lt.mpr hw'.1)
  | b :: c :: w, [b'], r, r', hw, hw', h => by
    obtain ⟨rfl, -⟩ := List.cons.inj h
    exact absurd hw' (Nat.not_lt.mpr hw.1)
  | b :: c :: w, b' :: c' :: w', r, r', hw, hw', h => by
    obtain ⟨rfl, htail⟩ := List.cons.inj h
    obtain ⟨hw, hr⟩ := Whole.append_inj hw.2 hw'.2 htail
    exact ⟨by rw [hw], hr⟩

/-- Or-ing a group in above the bits already there is adding it, in the word. -/
theorem or_group {acc shift g : Nat} (hacc : acc < 2 ^ shift) (hshift : shift < 64) :
    acc ||| (g <<< shift) % 2 ^ 64 = (acc + g * 2 ^ shift) % 2 ^ 64 := by
  have hword : 2 ^ 64 = 2 ^ shift * 2 ^ (64 - shift) := by
    rw [← Nat.pow_add, Nat.add_sub_cancel' (by omega)]
  have hcut : g * 2 ^ shift % 2 ^ 64 = 2 ^ shift * (g % 2 ^ (64 - shift)) := by
    rw [hword, Nat.mul_comm, Nat.mul_mod_mul_left]
  have hfit : acc + 2 ^ shift * (g % 2 ^ (64 - shift)) < 2 ^ 64 := by
    have hg : g % 2 ^ (64 - shift) + 1 ≤ 2 ^ (64 - shift) := Nat.mod_lt _ (Nat.two_pow_pos _)
    have := Nat.mul_le_mul_left (2 ^ shift) hg
    rw [Nat.mul_add, ← hword] at this
    omega
  have hor := Nat.two_pow_add_eq_or_of_lt hacc (g % 2 ^ (64 - shift))
  rw [Nat.shiftLeft_eq, hcut, Nat.or_comm, ← hor, Nat.add_mod, hcut, Nat.mod_eq_of_lt
    (show acc < 2 ^ 64 by omega), Nat.mod_eq_of_lt hfit, Nat.add_comm]

/-- The reader takes a whole varint, from any shift at which its last group
still starts inside the word. -/
theorem readLoop_whole : ∀ {w : List UInt8} {acc shift : Nat} (rest : List UInt8), Whole w →
    acc < 2 ^ shift → shift + 7 * w.length < 71 →
      readLoop acc shift (w ++ rest) = some ((acc + val w * 2 ^ shift) % 2 ^ 64, rest)
  | [b], acc, shift, rest, hw, hacc, hlen => by
    have hshift : shift < 64 := by
      rw [List.length_singleton] at hlen
      omega
    have hlt : b.toNat < 128 := hw
    simp only [List.cons_append, List.nil_append, readLoop, if_neg (Nat.not_le.mpr hshift),
      if_pos hlt, or_group hacc hshift, val, Nat.mul_zero, Nat.add_zero]
  | b :: c :: w, acc, shift, rest, hw, hacc, hlen => by
    have hshift : shift + 7 < 64 := by
      rw [List.length_cons, List.length_cons] at hlen
      omega
    have hge : ¬ b.toNat < 128 := Nat.not_lt.mpr hw.1
    have hpow : 2 ^ (shift + 7) = 128 * 2 ^ shift := by ring
    have hgroup : b.toNat % 128 * 2 ^ shift ≤ 127 * 2 ^ shift :=
      Nat.mul_le_mul_right _ (by omega)
    have hle : 2 ^ (shift + 7) ≤ 2 ^ 64 := Nat.pow_le_pow_right (by omega) (by omega)
    have hnext : acc + b.toNat % 128 * 2 ^ shift < 2 ^ (shift + 7) := by omega
    have ih := readLoop_whole rest hw.2 hnext
      (by rw [List.length_cons] at hlen; omega)
    have hor := or_group (g := b.toNat % 128) hacc (show shift < 64 by omega)
    have hfit := Nat.mod_eq_of_lt (show acc + b.toNat % 128 * 2 ^ shift < 2 ^ 64 by omega)
    have hval : val (b :: c :: w) * 2 ^ shift =
        b.toNat % 128 * 2 ^ shift + val (c :: w) * 2 ^ (shift + 7) := by
      rw [val]
      ring
    rw [List.cons_append, readLoop, if_neg (by omega)]
    rw [if_neg hge, hor, hfit, ih, hval, Nat.add_assoc]

theorem read_whole (rest : List UInt8) (hw : Whole w) (hlen : w.length ≤ 10) :
    read (w ++ rest) = some (val w % 2 ^ 64, rest) := by
  have h : readLoop 0 0 (w ++ rest) = some ((0 + val w * 2 ^ 0) % 2 ^ 64, rest) :=
    readLoop_whole rest hw (by omega) (by omega)
  rwa [Nat.zero_add, Nat.pow_zero, Nat.mul_one] at h

/-- What the reader has read is a whole varint of at most ten bytes. -/
theorem exists_whole_of_readLoop : ∀ {bs : List UInt8} {acc shift v : Nat} {rest : List UInt8},
    readLoop acc shift bs = some (v, rest) →
      ∃ w, bs = w ++ rest ∧ Whole w ∧ shift + 7 * w.length < 71
  | b :: bs, acc, shift, v, rest, h => by
    rw [readLoop] at h
    split at h
    · cases h
    · split at h
      · rename_i hshift hlt
        cases h
        exact ⟨[b], rfl, hlt, by rw [List.length_singleton]; omega⟩
      · rename_i hshift hge
        obtain ⟨w, rfl, hw, hlen⟩ := exists_whole_of_readLoop h
        exact ⟨b :: w, rfl, (whole_cons hw.ne_nil).mpr ⟨Nat.not_lt.mp hge, hw⟩,
          by rw [List.length_cons]; omega⟩

theorem exists_whole_of_read {bs rest : List UInt8} (h : read bs = some (v, rest)) :
    ∃ w, bs = w ++ rest ∧ Whole w ∧ w.length ≤ 10 ∧ v = val w % 2 ^ 64 := by
  obtain ⟨w, rfl, hw, hlen⟩ := exists_whole_of_readLoop h
  have hlen' : w.length ≤ 10 := by omega
  rw [read_whole rest hw hlen'] at h
  exact ⟨w, rfl, hw, hlen', (congrArg Prod.fst (Option.some.inj h)).symm⟩

/-- Reading consumes at least one byte. -/
theorem length_read {bs rest : List UInt8} (h : read bs = some (v, rest)) :
    rest.length < bs.length := by
  obtain ⟨w, rfl, hw, -, -⟩ := exists_whole_of_read h
  have := List.length_pos_iff.mpr hw.ne_nil
  rw [List.length_append]
  omega

/-! ## What the writer writes -/

/-- No byte too many: a further byte is not zero, and a tenth one holds the
one bit that is left of the word. -/
def Shortest (w : List UInt8) : Prop :=
  w.length = 1 ∨ w.getLast? ≠ some 0 ∧ (w.length = 10 → w.getLast? = some 1)

instance (w : List UInt8) : Decidable (Shortest w) :=
  inferInstanceAs (Decidable (_ ∨ _))

theorem toNat_low {n : Nat} (h : n < 128) : (UInt8.ofNat n).toNat = n := by
  rw [UInt8.toNat_ofNat']
  omega

theorem toNat_high (v : Nat) : (UInt8.ofNat (v % 128 + 128)).toNat = v % 128 + 128 := by
  rw [UInt8.toNat_ofNat']
  omega

theorem val_encodeLoop : ∀ {n v : Nat}, v < 128 ^ n → val (encodeLoop n v) = v
  | 0, v, h => by
    rw [encodeLoop, val]
    omega
  | n + 1, v, h => by
    rw [encodeLoop]
    split
    · rw [val, val, toNat_low (Nat.mod_lt _ (by omega))]
      omega
    · have hv : v / 128 < 128 ^ n := by
        rw [Nat.div_lt_iff_lt_mul (by omega)]
        exact h
      rw [val, toNat_high, val_encodeLoop hv]
      omega

theorem whole_encodeLoop : ∀ {n v : Nat}, 0 < n → v < 128 ^ n → Whole (encodeLoop n v)
  | n + 1, v, _, h => by
    rw [encodeLoop]
    split
    · rw [Whole, toNat_low (Nat.mod_lt _ (by omega))]
      exact Nat.mod_lt _ (by omega)
    · have hv : v / 128 < 128 ^ n := by
        rw [Nat.div_lt_iff_lt_mul (by omega)]
        exact h
      have hn : 0 < n := by
        rcases Nat.eq_zero_or_pos n with rfl | hn
        · omega
        · exact hn
      have hw := whole_encodeLoop hn hv
      exact (whole_cons hw.ne_nil).mpr ⟨by rw [toNat_high]; omega, hw⟩

theorem whole_encode (hv : v < 2 ^ 64) : Whole (encode v) :=
  whole_encodeLoop (by omega) (by omega)

theorem read_encode (hv : v < 2 ^ 64) (rest : List UInt8) :
    read (encode v ++ rest) = some (v, rest) := by
  rw [read_whole rest (whole_encode hv) (length_encode v), encode, val_encodeLoop (by omega),
    Nat.mod_eq_of_lt hv]

/-- The last group of a varint is what it is worth, shifted down. -/
theorem val_div_last : ∀ {w : List UInt8} {b : UInt8}, Whole w → w.getLast? = some b →
    val w / 128 ^ (w.length - 1) = b.toNat
  | [c], b, hw, h => by
    obtain rfl : c = b := Option.some.inj h
    have : c.toNat < 128 := hw
    rw [List.length_singleton, Nat.sub_self, Nat.pow_zero, Nat.div_one, val, val]
    omega
  | c :: c' :: w, b, hw, h => by
    have hlast : (c' :: w).getLast? = some b := by rwa [List.getLast?_cons_cons] at h
    have ih := val_div_last hw.2 hlast
    rw [List.length_cons, Nat.add_sub_cancel] at ih ⊢
    rw [List.length_cons, Nat.pow_succ', ← Nat.div_div_eq_div_mul, val]
    rwa [show (c.toNat % 128 + 128 * val (c' :: w)) / 128 = val (c' :: w) by omega]

/-- Without a superfluous last byte a varint is what the writer writes. -/
theorem encodeLoop_val : ∀ {w : List UInt8} {n : Nat}, Whole w → w.length ≤ n →
    (w.length = 1 ∨ w.getLast? ≠ some 0) → encodeLoop n (val w) = w
  | [b], n + 1, hw, _, _ => by
    have hlt : b.toNat < 128 := hw
    have hval : val [b] = b.toNat := by
      rw [val, val]
      omega
    rw [encodeLoop, hval, if_pos (by omega), Nat.mod_eq_of_lt hlt, UInt8.ofNat_toNat]
  | b :: c :: w, n + 1, hw, hlen, hlast => by
    have hb := b.toNat_lt
    have hge := hw.1
    have hdiv : val (b :: c :: w) / 128 = val (c :: w) := by
      rw [val]
      omega
    have hmod : val (b :: c :: w) % 128 + 128 = b.toNat := by
      rw [val]
      omega
    have hlast' : (c :: w).getLast? ≠ some 0 := by
      rcases hlast with h | h
      · simp at h
      · rwa [List.getLast?_cons_cons] at h
    -- the groups that follow end in a non-zero one
    have hpos : val (c :: w) ≠ 0 := by
      intro h0
      obtain ⟨b', hb'⟩ := Option.isSome_iff_exists.mp
        (List.getLast?_isSome.mpr (List.cons_ne_nil c w))
      have h := val_div_last hw.2 hb'
      rw [h0, Nat.zero_div] at h
      refine hlast' (hb'.trans (congrArg some (UInt8.toNat_inj.mp ?_)))
      exact h.symm
    have ih := encodeLoop_val (n := n) hw.2 (by rw [List.length_cons] at hlen; omega) (.inr hlast')
    rw [encodeLoop, hdiv, if_neg hpos, hmod, UInt8.ofNat_toNat, ih]

theorem val_lt : ∀ w : List UInt8, val w < 128 ^ w.length
  | [] => Nat.one_pos
  | b :: w => by
    have ih := val_lt w
    rw [val, List.length_cons, Nat.pow_succ']
    omega

/-- The word a shortest form stands for is all its groups. -/
theorem Shortest.val_lt (hw : Whole w) (hlen : w.length ≤ 10) (h : Shortest w) :
    val w < 2 ^ 64 := by
  rcases Nat.lt_or_ge w.length 10 with hlt | hge
  · calc val w < 128 ^ w.length := Leb128.val_lt w
      _ ≤ 128 ^ 9 := Nat.pow_le_pow_right (by omega) (by omega)
      _ < 2 ^ 64 := by omega
  · have hten : w.length = 10 := by omega
    have hlast : w.getLast? = some 1 := by
      rcases h with h | h
      · omega
      · exact h.2 hten
    have hdiv := val_div_last hw hlast
    rw [hten] at hdiv
    have : (1 : UInt8).toNat = 1 := rfl
    omega

/-- The writer's form of the word read from a shortest form is that form. -/
theorem encode_val (hw : Whole w) (hlen : w.length ≤ 10) (h : Shortest w) :
    encode (val w % 2 ^ 64) = w := by
  rw [Nat.mod_eq_of_lt (h.val_lt hw hlen)]
  exact encodeLoop_val hw hlen (h.imp_right And.left)

/-- The writer stops as soon as nothing is left. -/
theorem pow_le_of_encodeLoop : ∀ (n : Nat) {v : Nat}, v ≠ 0 →
    128 ^ ((encodeLoop n v).length - 1) ≤ v
  | 0, v, hv => Nat.one_le_iff_ne_zero.mpr hv
  | n + 1, v, hv => by
    rw [encodeLoop]
    split
    · exact Nat.one_le_iff_ne_zero.mpr hv
    · rename_i hdiv
      have ih := pow_le_of_encodeLoop n hdiv
      rw [List.length_cons, Nat.add_sub_cancel]
      cases hlen : (encodeLoop n (v / 128)).length with
      | zero => exact Nat.one_le_iff_ne_zero.mpr hv
      | succ m =>
        rw [hlen, Nat.add_sub_cancel] at ih
        rw [Nat.pow_succ]
        omega

theorem shortest_encode (hv : v < 2 ^ 64) : Shortest (encode v) := by
  have hw := whole_encode hv
  obtain ⟨b, hb⟩ := Option.isSome_iff_exists.mp (List.getLast?_isSome.mpr hw.ne_nil)
  have hdiv := val_div_last hw hb
  have hval : val (encode v) = v := val_encodeLoop (by omega)
  rw [hval] at hdiv
  rcases Nat.eq_zero_or_pos v with rfl | hpos
  · exact .inl rfl
  · have hle : 128 ^ ((encode v).length - 1) ≤ v := pow_le_of_encodeLoop 10 (by omega)
    have hb0 : b.toNat ≠ 0 := by
      rw [← hdiv]
      exact (Nat.div_pos hle (Nat.pow_pos (by omega))).ne'
    refine .inr ⟨?_, fun hten => ?_⟩
    · rw [hb]
      rintro ⟨⟩
      exact hb0 rfl
    · rw [hb]
      refine congrArg some (UInt8.toNat_inj.mp ?_)
      rw [hten] at hdiv
      have : (1 : UInt8).toNat = 1 := rfl
      omega

end Leb128
