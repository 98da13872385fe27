import LayerSdk.LcVerify

/-!
# Light client: decoding a proposal as compiled

The contract is built for wasm32 with overflow checks off: positions are
32-bit words, their sums wrap, and a bad slice panics. This module has
`decode_proposal` at that level, over a buffer and a position.

It is the decoder of the wire form in `LcVerify` (`decodeProposalAt_eq`), so
it panics on nothing. It is not the inverse of the encoding on everything it
takes, because it takes long forms of a varint: `decodeProposalAt_unique` says
that these are the only second encodings.
-/

namespace LayerSdk.Lc

/-- A slice is at most `isize::MAX` bytes. -/
def maxLen : Nat := 2 ^ 31

/-- How code that may panic ends. -/
inductive Ran (α : Type) where
  | done (a : α)
  | panicked
deriving DecidableEq, Repr

/-- `usize` addition without a check. -/
def addUsize (a b : Nat) : Nat := (a + b) % 2 ^ 32

/-- `b.get(lo..hi)`. -/
def getRange (b : Bytes) (lo hi : Nat) : Option Bytes :=
  if lo ≤ hi ∧ hi ≤ b.length then some ((b.drop lo).take (hi - lo)) else none

theorem addUsize_of_lt {a b : Nat} (h : a + b < 2 ^ 32) : addUsize a b = a + b :=
  Nat.mod_eq_of_lt h

/-- Positions for suffixes: where a reader that has left `rest` stands. -/
def standAt (buf : Bytes) (r : Nat × Bytes) : Nat × Nat := (r.1, buf.length - r.2.length)

theorem drop_standAt {buf rest : Bytes} {pos v : Nat}
    (h : Leb128.read (buf.drop pos) = some (v, rest)) :
    buf.drop (standAt buf (v, rest)).2 = rest ∧ pos < (standAt buf (v, rest)).2 ∧
      (standAt buf (v, rest)).2 ≤ buf.length := by
  obtain ⟨w, hw, -, -, -⟩ := Leb128.exists_whole_of_read h
  have hlen := Leb128.length_read h
  have hsuffix : rest <:+ buf := (hw ▸ List.suffix_append w rest).trans (List.drop_suffix pos buf)
  rw [List.length_drop] at hlen
  exact ⟨(List.suffix_iff_eq_drop.mp hsuffix).symm, by dsimp only [standAt]; omega,
    Nat.sub_le _ _⟩

/-! ## Proposals -/

/-- The loop of `read_uvarint`; the eleventh pass fails on its shift. -/
def readUvarintLoop (buf : Bytes) : Nat → Nat → Nat → Nat → Except ContractError (Nat × Nat)
  | 0, _, _, _ => .error .invalidProposal
  | n + 1, result, shift, pos =>
    if h : pos < buf.length then
      let byte := buf[pos]
      if 64 ≤ shift then .error .invalidProposal
      else
        let result := result ||| ((byte.toNat % 128) <<< shift) % 2 ^ 64
        if byte.toNat < 128 then .ok (result, pos + 1)
        else readUvarintLoop buf n result (shift + 7) (pos + 1)
    else .error .invalidProposal

def readUvarintAt (buf : Bytes) (pos : Nat) : Except ContractError (Nat × Nat) :=
  readUvarintLoop buf 11 0 0 pos

/-- The fields of a proposal, the payload still a slice. -/
def proposalFields (bytes : Bytes) : Except ContractError (Nat × Nat × Nat × Bytes) := do
  let (epoch, pos) ← readUvarintAt bytes 0
  let (view, pos) ← readUvarintAt bytes pos
  let (parent, pos) ← readUvarintAt bytes pos
  match getRange bytes pos (addUsize pos 32) with
  | none => .error .invalidProposal
  | some payloadSlice =>
    -- trailing bytes after the payload digest
    if addUsize pos 32 ≠ bytes.length then .error .invalidProposal
    else .ok (epoch, view, parent, payloadSlice)

/-- `decode_proposal` over positions. -/
def decodeProposalAt (bytes : Bytes) : Ran (Except ContractError DecodedProposal) :=
  match proposalFields bytes with
  | .error e => .done (.error e)
  | .ok (epoch, view, parent, payloadSlice) =>
    -- `copy_from_slice` panics unless both slices have one length
    match toDigest? payloadSlice with
    | none => .panicked
    | some payload => .done (.ok ⟨epoch, view, parent, payload⟩)

theorem readUvarintLoop_eq (buf : Bytes) : ∀ (n acc shift pos : Nat), 64 ≤ shift + 7 * n →
    readUvarintLoop buf n acc shift pos =
      match (Leb128.readLoop acc shift (buf.drop pos)).map (standAt buf) with
      | some r => .ok r
      | none => .error .invalidProposal := by
  intro n
  induction n with
  | zero =>
    intro acc shift pos hshift
    have hnone : ∀ bs, Leb128.readLoop acc shift bs = none := by
      intro bs
      cases bs with
      | nil => rfl
      | cons b bs => rw [Leb128.readLoop, if_pos (by omega)]
    rw [hnone]
    rfl
  | succ n ih =>
    intro acc shift pos hshift
    rw [readUvarintLoop]
    split
    · rename_i hpos
      rw [List.drop_eq_getElem_cons hpos, Leb128.readLoop]
      dsimp only
      split
      · rfl
      · split
        · have hlen : buf.length - (buf.drop (pos + 1)).length = pos + 1 := by
            rw [List.length_drop]
            omega
          rw [Option.map_some, standAt, hlen]
        · exact ih _ _ _ (by omega)
    · rename_i hpos
      rw [List.drop_eq_nil_of_le (Nat.not_lt.mp hpos)]
      rfl

/-- Reading at a position is reading the bytes from there on. -/
theorem readUvarintAt_eq (buf : Bytes) (pos : Nat) :
    readUvarintAt buf pos = (readUvarint (buf.drop pos)).map (standAt buf) := by
  rw [readUvarintAt, readUvarintLoop_eq buf 11 0 0 pos (by omega), readUvarint, Leb128.read]
  cases Leb128.readLoop 0 0 (buf.drop pos) <;> rfl

theorem readUvarint_ok {buf : Bytes} {r : Nat × Bytes} (h : readUvarint buf = .ok r) :
    Leb128.read buf = some r := by
  unfold readUvarint at h
  split at h
  · rename_i hread
    rw [hread, Except.ok.inj h]
  · cases h

/-- A read over positions, against the same read over what is left. -/
theorem readUvarintAt_cases {buf rest : Bytes} {pos : Nat} (h : buf.drop pos = rest) :
    (∃ e, readUvarint rest = .error e ∧ readUvarintAt buf pos = .error e) ∨
      ∃ v rest' pos', readUvarint rest = .ok (v, rest') ∧ readUvarintAt buf pos = .ok (v, pos') ∧
        buf.drop pos' = rest' ∧ pos' ≤ buf.length := by
  subst h
  rw [readUvarintAt_eq]
  cases hread : readUvarint (buf.drop pos) with
  | error e => exact .inl ⟨e, rfl, rfl⟩
  | ok r =>
    obtain ⟨hdrop, -, hle⟩ := drop_standAt (readUvarint_ok hread)
    exact .inr ⟨r.1, r.2, _, rfl, rfl, hdrop, hle⟩

/-- **No panic.** On every slice the compiled decoder is the decoder of the
wire form. -/
theorem decodeProposalAt_eq {bytes : Bytes} (hlen : bytes.length < maxLen) :
    decodeProposalAt bytes = .done (decodeProposal bytes) := by
  unfold maxLen at hlen
  unfold decodeProposalAt proposalFields decodeProposal
  rcases readUvarintAt_cases (List.drop_zero (l := bytes)) with
    ⟨e, h, hat⟩ | ⟨epoch, rest, pos, h, hat, hdrop, -⟩
  · rw [h, hat]
    rfl
  rw [h, hat]
  simp only [bind, Except.bind]
  rcases readUvarintAt_cases hdrop with ⟨e, h, hat⟩ | ⟨view, rest, pos, h, hat, hdrop, -⟩
  · rw [h, hat]
  rw [h, hat]
  dsimp only
  rcases readUvarintAt_cases hdrop with ⟨e, h, hat⟩ | ⟨parent, rest, pos, h, hat, hdrop, hle⟩
  · rw [h, hat]
  rw [h, hat]
  dsimp only
  subst hdrop
  rw [addUsize_of_lt (by omega), getRange, Nat.add_sub_cancel_left]
  have hrest := List.length_drop (i := pos) (l := bytes)
  by_cases hfits : pos + 32 ≤ bytes.length
  · rw [if_pos ⟨by omega, hfits⟩]
    dsimp only
    by_cases hend : pos + 32 = bytes.length
    · have hdigest : (bytes.drop pos).length = 32 := by omega
      rw [if_neg (not_not.mpr hend), List.take_of_length_le (by omega)]
      dsimp only
      rw [toDigest?, dif_pos hdigest]
    · rw [if_pos hend, toDigest?, dif_neg (by omega)]
  · rw [if_neg (fun hand => hfits hand.2), toDigest?, dif_neg (by omega)]

/-! ### Second encodings -/

/-- Each of the three varints in front of the digest is in its shortest form. -/
def ShortForms (bytes : Bytes) : Prop :=
  ∀ w₁ w₂ w₃ digest : Bytes, bytes = w₁ ++ (w₂ ++ (w₃ ++ digest)) → digest.length = 32 →
    Leb128.Whole w₁ → Leb128.Whole w₂ → Leb128.Whole w₃ →
    w₁.length ≤ 10 → w₂.length ≤ 10 → w₃.length ≤ 10 →
      Leb128.Shortest w₁ ∧ Leb128.Shortest w₂ ∧ Leb128.Shortest w₃

theorem readUvarint_whole {w : Bytes} (rest : Bytes) (hw : Leb128.Whole w) (hlen : w.length ≤ 10) :
    readUvarint (w ++ rest) = .ok (Leb128.val w % 2 ^ 64, rest) := by
  rw [readUvarint, Leb128.read_whole rest hw hlen]

/-- What a decoded proposal was cut from. -/
theorem decodeProposal_ok_iff {bytes : Bytes} {p : DecodedProposal} :
    decodeProposal bytes = .ok p ↔ ∃ w₁ w₂ w₃ : Bytes,
      bytes = w₁ ++ (w₂ ++ (w₃ ++ p.payload.bytes)) ∧
      (Leb128.Whole w₁ ∧ w₁.length ≤ 10 ∧ p.epoch = Leb128.val w₁ % 2 ^ 64) ∧
      (Leb128.Whole w₂ ∧ w₂.length ≤ 10 ∧ p.view = Leb128.val w₂ % 2 ^ 64) ∧
      (Leb128.Whole w₃ ∧ w₃.length ≤ 10 ∧ p.parent = Leb128.val w₃ % 2 ^ 64) := by
  unfold decodeProposal
  constructor
  · intro h
    obtain ⟨⟨epoch, rest₁⟩, h₁, h⟩ := bind_eq_ok.mp h
    obtain ⟨⟨view, rest₂⟩, h₂, h⟩ := bind_eq_ok.mp h
    obtain ⟨⟨parent, digest⟩, h₃, h⟩ := bind_eq_ok.mp h
    cases hdigest : toDigest? digest with
    | none => simp [hdigest] at h
    | some payload =>
      simp only [hdigest] at h
      cases h
      obtain ⟨w₁, hb₁, hw₁⟩ := Leb128.exists_whole_of_read (readUvarint_ok h₁)
      obtain ⟨w₂, hb₂, hw₂⟩ := Leb128.exists_whole_of_read (readUvarint_ok h₂)
      obtain ⟨w₃, hb₃, hw₃⟩ := Leb128.exists_whole_of_read (readUvarint_ok h₃)
      rw [bytes_of_toDigest? hdigest] at hb₃
      exact ⟨w₁, w₂, w₃, by rw [hb₁, hb₂, hb₃], hw₁, hw₂, hw₃⟩
  · rintro ⟨w₁, w₂, w₃, rfl, ⟨hw₁, hl₁, he⟩, ⟨hw₂, hl₂, hv⟩, hw₃, hl₃, hp⟩
    rw [readUvarint_whole _ hw₁ hl₁]
    simp only [bind, Except.bind]
    rw [readUvarint_whole _ hw₂ hl₂]
    dsimp only
    rw [readUvarint_whole _ hw₃ hl₃]
    dsimp only
    rw [toDigest?_bytes, ← he, ← hv, ← hp]

/-- The decoder is canonical on a byte string exactly if the string has no
long form. -/
theorem canonical_iff_shortForms (bytes : Bytes) :
    (∀ p, decodeProposal bytes = .ok p → bytes = encodeProposal p) ↔ ShortForms bytes := by
  constructor
  · intro hcanon w₁ w₂ w₃ digest hbytes hdigest hw₁ hw₂ hw₃ hl₁ hl₂ hl₃
    have hdec : decodeProposal bytes = .ok ⟨Leb128.val w₁ % 2 ^ 64, Leb128.val w₂ % 2 ^ 64,
        Leb128.val w₃ % 2 ^ 64, digest, hdigest⟩ :=
      decodeProposal_ok_iff.mpr ⟨w₁, w₂, w₃, hbytes, ⟨hw₁, hl₁, rfl⟩, ⟨hw₂, hl₂, rfl⟩, hw₃, hl₃, rfl⟩
    have hword : ∀ w : Bytes, Leb128.val w % 2 ^ 64 < 2 ^ 64 := fun w => Nat.mod_lt _ (by omega)
    have henc := hcanon _ hdec
    rw [encodeProposal, List.append_assoc, List.append_assoc, hbytes] at henc
    -- varints start no other varint, so the two cuts agree piece by piece
    obtain ⟨h₁, henc⟩ := hw₁.append_inj (Leb128.whole_encode (hword w₁)) henc
    obtain ⟨h₂, henc⟩ := hw₂.append_inj (Leb128.whole_encode (hword w₂)) henc
    obtain ⟨h₃, -⟩ := hw₃.append_inj (Leb128.whole_encode (hword w₃)) henc
    refine ⟨?_, ?_, ?_⟩
    · rw [h₁]
      exact Leb128.shortest_encode (hword w₁)
    · rw [h₂]
      exact Leb128.shortest_encode (hword w₂)
    · rw [h₃]
      exact Leb128.shortest_encode (hword w₃)
  · intro hshort p hdec
    obtain ⟨w₁, w₂, w₃, hbytes, ⟨hw₁, hl₁, he⟩, ⟨hw₂, hl₂, hv⟩, hw₃, hl₃, hp⟩ :=
      decodeProposal_ok_iff.mp hdec
    obtain ⟨hs₁, hs₂, hs₃⟩ :=
      hshort w₁ w₂ w₃ _ hbytes p.payload.length_bytes hw₁ hw₂ hw₃ hl₁ hl₂ hl₃
    rw [encodeProposal, writeUvarint, writeUvarint, writeUvarint, he, hv, hp,
      Leb128.encode_val hw₁ hl₁ hs₁, Leb128.encode_val hw₂ hl₂ hs₂, Leb128.encode_val hw₃ hl₃ hs₃,
      hbytes, List.append_assoc, List.append_assoc]

theorem length_encodeProposal (p : DecodedProposal) : (encodeProposal p).length < maxLen := by
  have h₁ := Leb128.length_encode p.epoch
  have h₂ := Leb128.length_encode p.view
  have h₃ := Leb128.length_encode p.parent
  have h₄ := p.payload.length_bytes
  simp only [encodeProposal, writeUvarint, List.length_append, maxLen]
  omega

/-- **Signed proposals.** Decoding undoes encoding, panics on no slice, and is
canonical exactly where no varint is in a long form. -/
theorem decodeProposalAt_unique {epoch view parent : Nat} (he : epoch < 2 ^ 64)
    (hv : view < 2 ^ 64) (hp : parent < 2 ^ 64) (payload : Digest) {bytes : Bytes}
    (hlen : bytes.length < maxLen) :
    decodeProposalAt (encodeProposal ⟨epoch, view, parent, payload⟩) =
        .done (.ok ⟨epoch, view, parent, payload⟩) ∧
      decodeProposalAt bytes ≠ .panicked ∧
      ((∀ p, decodeProposalAt bytes = .done (.ok p) → bytes = encodeProposal p) ↔
        ShortForms bytes) := by
  refine ⟨?_, ?_, ?_⟩
  · rw [decodeProposalAt_eq (length_encodeProposal _), decodeProposal_encodeProposal _ he hv hp]
  · rw [decodeProposalAt_eq hlen]
    rintro ⟨⟩
  · rw [← canonical_iff_shortForms, decodeProposalAt_eq hlen]
    refine forall_congr' fun p => ?_
    rw [Ran.done.injEq]

theorem decodeProposalAt_unique_sample :
    decodeProposalAt (encodeProposal ⟨3, 1000, 999, sha256 []⟩) =
        .done (.ok ⟨3, 1000, 999, sha256 []⟩) ∧
      (encodeProposal ⟨3, 1000, 999, sha256 []⟩).length < maxLen ∧
      ShortForms (encodeProposal ⟨3, 1000, 999, sha256 []⟩) := by
  have hlen := length_encodeProposal ⟨3, 1000, 999, sha256 []⟩
  have he : 3 < 2 ^ 64 := by omega
  have hv : 1000 < 2 ^ 64 := by omega
  have hp : 999 < 2 ^ 64 := by omega
  obtain ⟨hdec, -, hshort⟩ := decodeProposalAt_unique he hv hp (sha256 []) hlen
  refine ⟨hdec, hlen, hshort.mp fun p hp => ?_⟩
  rw [hdec] at hp
  cases hp
  rfl

/-- Epoch 0 in two bytes. -/
def longProposal : Bytes := [0x80, 0x00, 0x00, 0x00] ++ List.replicate 32 7

/-- A second encoding of one proposal is taken. -/
theorem longProposal_decodes :
    ∃ p, decodeProposalAt longProposal = .done (.ok p) ∧ longProposal.length < maxLen ∧
      longProposal ≠ encodeProposal p ∧ decodeProposalAt (encodeProposal p) = .done (.ok p) := by
  refine ⟨⟨0, 0, 0, List.replicate 32 7, rfl⟩, ?_, ?_, ?_, ?_⟩
  all_goals decide +kernel

end LayerSdk.Lc
