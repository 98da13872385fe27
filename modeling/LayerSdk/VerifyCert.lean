import LayerSdk.GasPrice
import LayerSdk.PayloadChannel
import LayerSdk.HybridCert

/-!
# The certificate checker

`verify-cert` checks a hybrid certificate offline, with a parser and a MAYO
check of its own. The node decodes the certificate with the library's codecs
and gives it to its scheme.

Both cut the same slices out of the bytes (`Framed`) and check the same
signatures (`Sound`). They differ in three places: the checker bounds the number
of participants, it does not look at the bits of the last byte of the bitmap
that stand for nobody, and it takes a keys file without a threshold for one
with threshold zero.
-/

namespace LayerSdk

/-! ## The library's codecs -/

def bitAt (bitmap : Bytes) (i : Nat) : Bool := ((bitmap.getD (i / 8) 0).toNat).testBit (i % 8)

/-- What the bitmap's codec does about the bits behind the last one. -/
structure BitMapCodec where
  padding : Nat → Bytes → Bool
  padding_zero : ∀ n bitmap, (∀ i < 8 * bitmap.length, n ≤ i → bitAt bitmap i = false) →
    padding n bitmap = true

/-- The codec that wants them to be zero. -/
def BitMapCodec.strict : BitMapCodec where
  padding n bitmap := decide (∀ i < 8 * bitmap.length, n ≤ i → bitAt bitmap i = false)
  padding_zero _ _ h := decide_eq_true h

def readBytes (n : Nat) (buf : Bytes) : Option (Bytes × Bytes) :=
  if n ≤ buf.length then some (buf.take n, buf.drop n) else none

/-- `Signers::read_cfg`: the number of bits, then the bits, eight to a byte. -/
def Signers.readCfg (codec : BitMapCodec) (maxParticipants : Nat) (buf : Bytes) :
    Option (Signers × Bytes) := do
  let (len, buf) ← readBytes 8 buf
  let n := fromBeBytes len
  if n > maxParticipants then none
  else
    let (bitmap, buf) ← readBytes ((n + 7) / 8) buf
    if codec.padding n bitmap then some (⟨(List.range n).map (bitAt bitmap)⟩, buf) else none

/-- A certificate of the classical scheme: a compressed point, decoded when it is
looked at. -/
abbrev ClassicalCert := { b : Bytes // b.length = 48 }

def ClassicalCert.readCfg (buf : Bytes) : Option (ClassicalCert × Bytes) :=
  if h : 48 ≤ buf.length then some (⟨buf.take 48, List.length_take_of_le h⟩, buf.drop 48) else none

/-- The BLS operations over `G1` signatures and `G2` keys. -/
structure BlsOps (Pk Sig : Type) where
  g1Decode : Bytes → Option Sig
  g2Decode : Bytes → Option Pk
  verifyMessage : Pk → Bytes → Bytes → Sig → Bool

/-! ## The node -/

def certTagHybrid : UInt8 := 0x01

def readMayoSig (buf : Bytes) : Option (MayoSig × Bytes) :=
  if h : mayo2SigBytes ≤ buf.length then
    some (⟨buf.take mayo2SigBytes, List.length_take_of_le h⟩, buf.drop mayo2SigBytes)
  else none

def readMayoSigs : Nat → Bytes → Option (List MayoSig × Bytes)
  | 0, buf => some ([], buf)
  | k + 1, buf => do
    let (sig, buf) ← readMayoSig buf
    let (sigs, buf) ← readMayoSigs k buf
    return (sig :: sigs, buf)

def HybridCertificate.readCfg (codec : BitMapCodec) (maxParticipants : Nat) :
    Bytes → Option (HybridCertificate ClassicalCert × Bytes)
  | [] => none
  | tag :: buf =>
    if tag ≠ certTagHybrid then none
    else do
      let (classical, buf) ← ClassicalCert.readCfg buf
      let (signers, buf) ← Signers.readCfg codec maxParticipants buf
      let (pqSigs, buf) ← readMayoSigs signers.count buf
      return (⟨classical, signers, pqSigs⟩, buf)

/-- `decode_cfg`: nothing may be left over. -/
def HybridCertificate.decodeCfg (codec : BitMapCodec) (maxParticipants : Nat) (bytes : Bytes) :
    Option (HybridCertificate ClassicalCert) :=
  match readCfg codec maxParticipants bytes with
  | some (cert, []) => some cert
  | _ => none

/-- A finalization's subject is its proposal, here in its encoding. -/
def finalizeEncoding : SubjectEncoding Bytes := ⟨fun base _ => base ++ str "_FINALIZE", id⟩

def consensusNamespace : Bytes := str "slay3r-consensus-v1"

/-- The table of MAYO keys a node makes of the Ed25519 and MAYO keys of its key file. -/
def participantMayo (validators : List (Bytes × Bytes)) : List Bytes :=
  (validators.mergeSort fun a b => (compare a.1 b.1).isLE).map Prod.snd

/-! ## The checker -/

namespace VerifyCert

structure KeysFile where
  thresholdPublicKeyHex : String
  thresholdRequired : Option Nat
  validatorPublicKeys : Option (List String)
  validatorMayoPublicKeys : Option (List String)

structure HybridEnvelope where
  classical : Bytes
  participants : Nat
  signers : List Nat
  mayoSigs : List Bytes
deriving DecidableEq, Repr

def minLen : Nat := 1 + 48 + 8 + 1

/-- The `k` slices of the length of a signature. -/
def mayoSlices (k : Nat) (rest : Bytes) : List Bytes :=
  (List.range k).map fun i => (rest.drop (i * mayo2SigBytes)).take mayo2SigBytes

def parseHybridEnvelope (bytes : Bytes) : Except String HybridEnvelope :=
  if bytes.length < minLen then
    .error ("hybrid envelope too short: " ++ toString bytes.length ++ " bytes (min " ++
      toString minLen ++ ")")
  else if bytes.head? ≠ some 0x01 then
    .error ("expected 0x01 hybrid tag, got 0x" ++ hexEncode (bytes.take 1))
  else
    let classical := (bytes.drop 1).take 48
    let participants := fromBeBytes ((bytes.drop 49).take 8)
    if participants = 0 ∨ participants > 4096 then
      .error ("implausible participant count: " ++ toString participants)
    else
      let bitmapBytes := (participants + 7) / 8
      if bytes.length < 57 + bitmapBytes then .error "signer bitmap truncated"
      else
        let bitmap := (bytes.drop 57).take bitmapBytes
        let signers := (List.range participants).filter (bitAt bitmap)
        let rest := bytes.drop (57 + bitmapBytes)
        if rest.length ≠ signers.length * mayo2SigBytes then
          .error ("MAYO2 block length mismatch: " ++ toString rest.length ++ " bytes for " ++
            toString signers.length ++ " signer(s) (expected " ++
            toString (signers.length * mayo2SigBytes) ++ ")")
        else .ok ⟨classical, participants, signers, mayoSlices signers.length rest⟩

def trimmedHex (h : String) : Option Bytes := hexDecode (String.ofList (trimChars h.toList))

/-- `hex::decode` of the trimmed text; the library's part of the message is left out. -/
def decodeHex (error : String) (h : String) : Except String Bytes :=
  (trimmedHex h).elim (.error error) .ok

section Check

variable {Pk Sig : Type} (bls : BlsOps Pk Sig) (mayo : Bytes → Bytes → Bytes → Except String Bool)

/-- The loop over the carried signatures. -/
def verifyCarried (participantMayo : List Bytes) (namespaced : Bytes) :
    List (Nat × Bytes) → Except String Unit
  | [] => .ok ()
  | (signer, sig) :: rest =>
    match mayo namespaced sig (participantMayo.getD signer []) with
    | .error e =>
      .error ("MAYO2 verify error for participant " ++ toString signer ++ ": " ++ e)
    | .ok false =>
      .error ("MAYO2 signature for participant " ++ toString signer ++ " FAILED")
    | .ok true => verifyCarried participantMayo namespaced rest

/-- The MAYO keys by participant, which is the rank of the Ed25519 key. -/
def reorderMayo (ed mayoHex : List String) : Except String (List Bytes) := do
  let edBytes ← ed.mapM (decodeHex "bad ed25519 key hex")
  let validatorByParticipant := (List.range edBytes.length).mergeSort fun i j =>
    (compare (edBytes.getD i []) (edBytes.getD j [])).isLE
  validatorByParticipant.mapM fun vi =>
    decodeHex ("bad MAYO2 key hex for validator " ++ toString vi) (mayoHex.getD vi "")

def verifyMayoHalf (envelope : HybridEnvelope) (keys : KeysFile) (ns message : Bytes) :
    Except String Nat :=
  match keys.validatorPublicKeys, keys.validatorMayoPublicKeys with
  | none, _ => .error "keys file lacks validator_public_keys"
  | some _, none => .error "keys file lacks validator_mayo_public_keys"
  | some ed, some mayoHex =>
    if ed.length ≠ mayoHex.length ∨ ed = [] then
      .error "validator_public_keys/validator_mayo_public_keys mismatch"
    else do
      let participantMayo ← reorderMayo ed mayoHex
      match participantMayo.findIdx? fun pk => pk.length ≠ mayo2PkBytes with
      | some rank =>
        .error ("MAYO2 key for participant " ++ toString rank ++ " has " ++
          toString (participantMayo.getD rank []).length ++ " bytes (expected " ++
          toString mayo2PkBytes ++ ")")
      | none =>
        if envelope.participants ≠ participantMayo.length then
          .error ("bitmap covers " ++ toString envelope.participants ++
            " participants but the key file has " ++ toString participantMayo.length)
        else do
          verifyCarried mayo participantMayo (ns ++ message)
            (envelope.signers.zip envelope.mayoSigs)
          return envelope.signers.length

/-- The envelope is taken off; anything else is left to the point's decoder. -/
def unwrapEnvelope (certBytes : Bytes) : Except String (Bytes × Option HybridEnvelope) :=
  if certBytes.length = 48 then .ok (certBytes, none)
  else if certBytes.head? = some 0x01 then
    (parseHybridEnvelope certBytes).map fun env => (env.classical, some env)
  else .ok (certBytes, none)

def defaultNamespace : Bytes := str "slay3r-consensus-v1" ++ str "_FINALIZE"

/-- The run with `--cert`, `--keys-file` and `--message`. An error is the exit code and
the first line printed; otherwise the exit code is zero, and the number of MAYO
signatures is there if the certificate is hybrid. -/
def verifyCert (keys : KeysFile) (certBytes messageBytes : Bytes) :
    Except (Nat × String) (Option Nat) :=
  match unwrapEnvelope certBytes with
  | .error e => .error (3, "INVALID: Failed to parse hybrid certificate envelope: " ++ e)
  | .ok (classicalBytes, envelope) =>
    match decodeHex "" keys.thresholdPublicKeyHex with
    | .error _ => .error (2, "INVALID: Failed to decode threshold_public_key_hex")
    | .ok pubkeyBytes =>
      match bls.g2Decode pubkeyBytes with
      | none => .error (3, "INVALID: Failed to decode threshold public key as G2 point")
      | some thresholdPubkey =>
        match bls.g1Decode classicalBytes with
        | none => .error (3, "INVALID: Failed to decode certificate as G1 signature")
        | some signature =>
          if bls.verifyMessage thresholdPubkey defaultNamespace messageBytes signature then
            match envelope with
            | none => .ok none
            | some env =>
              match verifyMayoHalf mayo env keys defaultNamespace messageBytes with
              | .error e => .error (4, "INVALID: PQ half verification failed: " ++ e)
              | .ok valid =>
                let quorum := keys.thresholdRequired.getD 0
                if valid ≥ quorum then .ok (some valid)
                else
                  .error (4, "INVALID: PQ quorum NOT met: " ++ toString valid ++
                    " < " ++ toString quorum ++ " (PQ_PROTOCOL_AUTH §4)")
          else .error (4, "INVALID: Certificate verification failed")

end Check

/-! ## The slices both take -/

def classicalOf (cert : Bytes) : Bytes := (cert.drop 1).take 48

def participantsOf (cert : Bytes) : Nat := fromBeBytes ((cert.drop 49).take 8)

def bitmapOf (cert : Bytes) : Bytes := (cert.drop 57).take ((participantsOf cert + 7) / 8)

def signersOf (cert : Bytes) : List Nat :=
  (List.range (participantsOf cert)).filter (bitAt (bitmapOf cert))

def sigsOf (cert : Bytes) : List Bytes :=
  mayoSlices (signersOf cert).length (cert.drop (57 + (participantsOf cert + 7) / 8))

/-- Tag, point, bitmap and signatures, with nothing missing and nothing left over. -/
structure Framed (cert : Bytes) : Prop where
  tag : cert.head? = some 0x01
  length : cert.length =
    57 + (participantsOf cert + 7) / 8 + (signersOf cert).length * mayo2SigBytes

theorem length_mayoSlices (k : Nat) (rest : Bytes) : (mayoSlices k rest).length = k := by
  rw [mayoSlices, List.length_map, List.length_range]

variable {cert buf rest : Bytes} {codec : BitMapCodec} {max : Nat}

theorem parseHybridEnvelope_ok_iff {env : HybridEnvelope} : parseHybridEnvelope cert = .ok env ↔
      Framed cert ∧ participantsOf cert ≠ 0 ∧ participantsOf cert ≤ 4096 ∧
        env = ⟨classicalOf cert, participantsOf cert, signersOf cert, sigsOf cert⟩ := by
  have hrest : (cert.drop (57 + (participantsOf cert + 7) / 8)).length =
      cert.length - (57 + (participantsOf cert + 7) / 8) := List.length_drop ..
  simp only [parseHybridEnvelope, guard_eq_ok, not_or, not_lt, not_not, ne_eq, gt_iff_lt,
    Except.ok.injEq]
  constructor
  · rintro ⟨-, htag, ⟨hne, hle⟩, hbitmap, hblock, rfl⟩
    refine ⟨⟨htag, ?_⟩, hne, hle, rfl⟩
    have hblock' : cert.length - (57 + (participantsOf cert + 7) / 8) =
        (signersOf cert).length * mayo2SigBytes := hrest.symm.trans hblock
    have hbitmap' : 57 + (participantsOf cert + 7) / 8 ≤ cert.length := hbitmap
    omega
  · rintro ⟨⟨htag, hlength⟩, hne, hle, rfl⟩
    have hmin : minLen ≤ cert.length := by
      rw [minLen]
      omega
    have hbitmap : 57 + (participantsOf cert + 7) / 8 ≤ cert.length := by omega
    have hblock : (cert.drop (57 + (participantsOf cert + 7) / 8)).length =
        (signersOf cert).length * mayo2SigBytes := by omega
    exact ⟨hmin, htag, ⟨hne, hle⟩, hbitmap, hblock, rfl⟩

/-! ## What the node decodes -/

theorem readMayoSig_eq_some {sig : MayoSig} :
    readMayoSig buf = some (sig, rest) ↔ mayo2SigBytes ≤ buf.length ∧
      sig.val = buf.take mayo2SigBytes ∧ rest = buf.drop mayo2SigBytes := by
  simp [readMayoSig, Subtype.ext_iff, eq_comm, and_left_comm]

theorem mayoSlices_succ (k : Nat) (buf : Bytes) :
    mayoSlices (k + 1) buf =
      buf.take mayo2SigBytes :: mayoSlices k (buf.drop mayo2SigBytes) := by
  rw [mayoSlices, List.range_succ_eq_map, List.map_cons, List.map_map, mayoSlices]
  congr 1
  refine List.map_congr_left fun i _ => ?_
  rw [Function.comp_apply, List.drop_drop, Nat.succ_mul, Nat.add_comm]

theorem readMayoSigs_eq_some : ∀ {k : Nat} {buf rest : Bytes} {sigs : List MayoSig},
    readMayoSigs k buf = some (sigs, rest) ↔ k * mayo2SigBytes ≤ buf.length ∧
      sigs.map Subtype.val = mayoSlices k buf ∧ rest = buf.drop (k * mayo2SigBytes)
  | 0, buf, rest, sigs => by
    constructor
    · intro h
      cases h
      exact ⟨Nat.zero_mul mayo2SigBytes ▸ Nat.zero_le _, rfl, rfl⟩
    · rintro ⟨-, hsigs, rfl⟩
      rw [List.map_eq_nil_iff.mp hsigs]
      rfl
  | k + 1, buf, rest, sigs => by
    have hdrop : (buf.drop mayo2SigBytes).length = buf.length - mayo2SigBytes :=
      List.length_drop ..
    have hmul : (k + 1) * mayo2SigBytes = mayo2SigBytes + k * mayo2SigBytes := by
      rw [Nat.succ_mul, Nat.add_comm]
    rw [readMayoSigs, mayoSlices_succ, hmul, ← List.drop_drop]
    simp only [bind, Option.bind_eq_some_iff, Prod.exists, readMayoSig_eq_some,
      readMayoSigs_eq_some, pure, Option.some.injEq, Prod.mk.injEq]
    constructor
    · rintro ⟨sig, _, ⟨hlen, hsig, rfl⟩, sigs', _, ⟨hlen', hsigs, rfl⟩, rfl, rfl⟩
      rw [List.map_cons, hsig, hsigs]
      exact ⟨by omega, rfl, rfl⟩
    · rintro ⟨hlen, hsigs, rfl⟩
      obtain ⟨sig, sigs', rfl, hsig, hsigs'⟩ := List.map_eq_cons_iff.mp hsigs
      exact ⟨sig, _, ⟨by omega, hsig, rfl⟩, sigs', _, ⟨by omega, hsigs', rfl⟩, rfl, rfl⟩

theorem readBytes_eq_some {n : Nat} {first : Bytes} : readBytes n buf = some (first, rest) ↔
      n ≤ buf.length ∧ first = buf.take n ∧ rest = buf.drop n := by
  simp [readBytes, eq_comm]

theorem readCfg_signers_eq_some {signers : Signers} :
    Signers.readCfg codec max buf = some (signers, rest) ↔
      let n := fromBeBytes (buf.take 8)
      let bitmap := (buf.drop 8).take ((n + 7) / 8)
      8 + (n + 7) / 8 ≤ buf.length ∧ n ≤ max ∧ codec.padding n bitmap = true ∧
        signers = ⟨(List.range n).map (bitAt bitmap)⟩ ∧ rest = buf.drop (8 + (n + 7) / 8) := by
  have hdrop : (buf.drop 8).length = buf.length - 8 := List.length_drop ..
  simp only [Signers.readCfg, bind, Option.bind_eq_some_iff, Prod.exists, readBytes_eq_some,
    Option.ite_none_left_eq_some, Option.ite_none_right_eq_some, Option.some.injEq,
    Prod.mk.injEq, gt_iff_lt, not_lt]
  constructor
  · rintro ⟨_, _, ⟨hle, rfl, rfl⟩, hmax, _, _, ⟨hle', rfl, rfl⟩, hpadding, rfl, rfl⟩
    exact ⟨by omega, hmax, hpadding, rfl, List.drop_drop ..⟩
  · rintro ⟨hle, hmax, hpadding, rfl, rfl⟩
    exact ⟨_, _, ⟨by omega, rfl, rfl⟩, hmax, _, _, ⟨by omega, rfl, rfl⟩, hpadding, rfl,
      List.drop_drop ..⟩

theorem readCfg_classical_eq_some {classical : ClassicalCert} :
    ClassicalCert.readCfg buf = some (classical, rest) ↔
      48 ≤ buf.length ∧ classical.val = buf.take 48 ∧ rest = buf.drop 48 := by
  simp [ClassicalCert.readCfg, Subtype.ext_iff, eq_comm, and_left_comm]

/-- The signers of a bitmap are the positions of its bits. -/
theorem iter_ofBits (n : Nat) (bit : Nat → Bool) :
    Signers.iter ⟨(List.range n).map bit⟩ = (List.range n).filter bit := by
  rw [Signers.iter, Signers.len, List.length_map, List.length_range]
  refine List.filter_congr fun i hi => ?_
  rw [List.getElem?_map, List.getElem?_range (List.mem_range.mp hi), Option.map_some]
  simp

/-- What decodes is framed, and its parts are the slices. -/
structure Decoded (cert : Bytes) (c : HybridCertificate ClassicalCert) : Prop where
  classical : c.classical.val = classicalOf cert
  signers : c.signers = ⟨(List.range (participantsOf cert)).map (bitAt (bitmapOf cert))⟩
  pqSigs : c.pqSigs.map Subtype.val = sigsOf cert

theorem readCfg_eq_some_iff {c : HybridCertificate ClassicalCert} :
    HybridCertificate.readCfg codec max cert = some (c, rest) ↔
      cert.head? = some 0x01 ∧
        57 + (participantsOf cert + 7) / 8 + (signersOf cert).length * mayo2SigBytes ≤
          cert.length ∧
        participantsOf cert ≤ max ∧
        codec.padding (participantsOf cert) (bitmapOf cert) = true ∧ Decoded cert c ∧
        rest = cert.drop (57 + (participantsOf cert + 7) / 8 +
          (signersOf cert).length * mayo2SigBytes) := by
  cases cert with
  | nil => simp [HybridCertificate.readCfg]
  | cons tag buf =>
    -- the cursor of the node against positions in the whole
    have hparticipants : fromBeBytes ((buf.drop 48).take 8) = participantsOf (tag :: buf) := rfl
    have hbitmap : ((buf.drop 48).drop 8).take ((participantsOf (tag :: buf) + 7) / 8) =
        bitmapOf (tag :: buf) := by
      rw [List.drop_drop, bitmapOf, List.drop_succ_cons]
    have hsigs : (buf.drop 48).drop (8 + (participantsOf (tag :: buf) + 7) / 8) =
        (tag :: buf).drop (57 + (participantsOf (tag :: buf) + 7) / 8) := by
      rw [List.drop_drop, ← List.drop_succ_cons (a := tag)]
      congr 1
      omega
    have hcount : Signers.count ⟨(List.range (participantsOf (tag :: buf))).map
        (bitAt (bitmapOf (tag :: buf)))⟩ = (signersOf (tag :: buf)).length := by
      rw [Signers.count, iter_ofBits, signersOf]
    have hlength : ((tag :: buf).drop (57 + (participantsOf (tag :: buf) + 7) / 8)).length =
        buf.length + 1 - (57 + (participantsOf (tag :: buf) + 7) / 8) := List.length_drop ..
    have hrest : (buf.drop 48).length = buf.length - 48 := List.length_drop ..
    rw [List.head?_cons, Option.some.injEq, List.length_cons]
    simp only [HybridCertificate.readCfg, bind, pure, Option.ite_none_left_eq_some,
      Option.bind_eq_some_iff, Prod.exists, readCfg_classical_eq_some, readCfg_signers_eq_some,
      readMayoSigs_eq_some, Option.some.injEq, Prod.mk.injEq, ne_eq, not_not]
    constructor
    · rintro ⟨htag, classical, _, ⟨hle, hval, rfl⟩, _, _, ⟨hle', hmax, hpadding, rfl, rfl⟩,
        pqSigs, _, ⟨hle'', hpq, rfl⟩, rfl, rfl⟩
      rw [hparticipants, hbitmap] at *
      rw [hsigs, hcount] at *
      exact ⟨htag, by omega, hmax, hpadding, ⟨hval, rfl, hpq⟩, List.drop_drop ..⟩
    · rintro ⟨rfl, hle, hmax, hpadding, ⟨hval, hbits, hpq⟩, rfl⟩
      refine ⟨rfl, c.classical, _, ⟨by omega, hval, rfl⟩, c.signers, _, ⟨?_, hmax, ?_, ?_, rfl⟩,
        c.pqSigs, _, ⟨?_, ?_, rfl⟩, rfl, ?_⟩
      all_goals rw [hparticipants]
      · omega
      · rw [hbitmap]
        exact hpadding
      · rw [hbitmap]
        exact hbits
      all_goals rw [hsigs, hbits, hcount]
      · omega
      · exact hpq
      · exact List.drop_drop ..

theorem decodeCfg_eq_some_iff {c : HybridCertificate ClassicalCert} :
    HybridCertificate.decodeCfg codec max cert = some c ↔
      Framed cert ∧ participantsOf cert ≤ max ∧
        codec.padding (participantsOf cert) (bitmapOf cert) = true ∧ Decoded cert c := by
  have hdecode : HybridCertificate.decodeCfg codec max cert = some c ↔
      HybridCertificate.readCfg codec max cert = some (c, []) := by
    rw [HybridCertificate.decodeCfg]
    split
    · rename_i cert' heq
      simp [heq]
    · rename_i hne
      simp only [reduceCtorEq, false_iff]
      exact fun h => hne c h
  rw [hdecode, readCfg_eq_some_iff, @eq_comm _ [], List.drop_eq_nil_iff]
  constructor
  · rintro ⟨htag, hle, hmax, hpadding, hdecoded, hge⟩
    exact ⟨⟨htag, Nat.le_antisymm hge hle⟩, hmax, hpadding, hdecoded⟩
  · rintro ⟨⟨htag, hlength⟩, hmax, hpadding, hdecoded⟩
    exact ⟨htag, hlength.ge, hmax, hpadding, hdecoded, hlength.le⟩

/-! ## What both check -/

section Sound

variable {Pk Sig : Type} {bls : BlsOps Pk Sig} {mayo : Bytes → Bytes → Bytes → Except String Bool}
  {identity : Pk}

/-- A compressed point that is a signature of the message. -/
def blsAccepts (bls : BlsOps Pk Sig) (identity : Pk) (ns message point : Bytes) : Bool :=
  match bls.g1Decode point with
  | some signature => bls.verifyMessage identity ns message signature
  | none => false

/-- The slices are signatures of the proposal by the group and by the participants of
the bitmap. -/
structure Sound (bls : BlsOps Pk Sig) (mayo : Bytes → Bytes → Bytes → Except String Bool)
    (identity : Pk) (table : List Bytes) (proposal cert : Bytes) : Prop where
  framed : Framed cert
  participants : participantsOf cert = table.length
  classical : blsAccepts bls identity defaultNamespace proposal (classicalOf cert) = true
  carried : ∀ x ∈ (signersOf cert).zip (sigsOf cert),
    mayo (defaultNamespace ++ proposal) x.2 (table.getD x.1 []) = .ok true

/-- The keys file has the group's key, and the validators' keys in the order of the
network. A threshold, if there is one, is the network's. -/
structure KeysFile.Describes (keys : KeysFile) (bls : BlsOps Pk Sig) (identity : Pk)
    (validators : List (Bytes × Bytes)) (threshold : Nat) : Prop where
  group : ∃ b, trimmedHex keys.thresholdPublicKeyHex = some b ∧ bls.g2Decode b = some identity
  publicKeys : ∃ ed, keys.validatorPublicKeys = some ed ∧
    ed.map trimmedHex = validators.map fun v => some v.1
  mayoKeys : ∃ mayoHex, keys.validatorMayoPublicKeys = some mayoHex ∧
    mayoHex.map trimmedHex = validators.map fun v => some v.2
  threshold : ∀ t, keys.thresholdRequired = some t → t = threshold

theorem mapM_eq_ok {α β ε : Type} {f : α → Except ε β} :
    ∀ {as : List α} {bs : List β}, as.map f = bs.map .ok → as.mapM f = .ok bs
  | [], [], _ => rfl
  | a :: as, b :: bs, h => by
    obtain ⟨hhead, htail⟩ := List.cons.inj h
    rw [List.mapM_cons, hhead, mapM_eq_ok htail]
    rfl

theorem decodeHex_of_trimmedHex {h : String} {b : Bytes} (hhex : trimmedHex h = some b)
    (error : String) : decodeHex error h = .ok b := by
  rw [decodeHex, hhex, Option.elim_some]

/-- Sorting the ranks by the Ed25519 keys is sorting the validators. -/
theorem map_sorted_ranks (validators : List (Bytes × Bytes)) :
    ((List.range validators.length).mergeSort fun i j =>
        (compare ((validators.map Prod.fst).getD i [])
          ((validators.map Prod.fst).getD j [])).isLE).map
      (fun i => (validators.getD i ([], [])).2) = participantMayo validators := by
  have hall : (List.range validators.length).map (fun i => validators.getD i ([], [])) =
      validators := by
    refine List.ext_getElem (by simp) fun i hi hi' => ?_
    simp [List.getElem?_eq_getElem hi']
  have hkey : ∀ i, (validators.map Prod.fst).getD i [] = (validators.getD i ([], [])).1 := by
    intro i
    simp only [List.getD_eq_getElem?_getD, List.getElem?_map]
    cases validators[i]? <;> rfl
  have hsort : ((List.range validators.length).mergeSort fun i j =>
        (compare ((validators.map Prod.fst).getD i [])
          ((validators.map Prod.fst).getD j [])).isLE).map
      (fun i => validators.getD i ([], [])) =
        validators.mergeSort fun a b => (compare a.1 b.1).isLE := by
    nth_rewrite 5 [← hall]
    refine List.map_mergeSort fun i _ j _ => ?_
    rw [hkey, hkey]
  rw [participantMayo, ← hsort, List.map_map]
  rfl

variable {validators : List (Bytes × Bytes)} {keys : KeysFile} {threshold : Nat}
  {cert proposal : Bytes}

theorem reorderMayo_eq {ed mayoHex : List String}
    (hed : ed.map trimmedHex = validators.map fun v => some v.1)
    (hmayo : mayoHex.map trimmedHex = validators.map fun v => some v.2) :
    reorderMayo ed mayoHex = .ok (participantMayo validators) := by
  have hedBytes : ed.mapM (decodeHex "bad ed25519 key hex") = .ok (validators.map Prod.fst) := by
    refine mapM_eq_ok ?_
    have helim := congrArg
      (List.map fun o => Option.elim o (Except.error "bad ed25519 key hex") Except.ok) hed
    rw [List.map_map, List.map_map] at helim
    rw [List.map_map]
    exact helim
  rw [reorderMayo, hedBytes, ← map_sorted_ranks]
  refine mapM_eq_ok ?_
  rw [List.length_map, List.map_map]
  refine List.map_congr_left fun i hi => ?_
  have hlt : i < validators.length := List.mem_range.mp (List.mem_mergeSort.mp hi)
  have hentry := congrArg (fun l => l[i]?) hmayo
  simp only [List.getElem?_map, List.getElem?_eq_getElem hlt, Option.map_some] at hentry
  obtain ⟨h, hh, hhex⟩ := Option.map_eq_some_iff.mp hentry
  rw [Function.comp_apply, List.getD_eq_getElem?_getD, hh, Option.getD_some,
    decodeHex_of_trimmedHex hhex, List.getD_eq_getElem?_getD, List.getElem?_eq_getElem hlt,
    Option.getD_some]

theorem verifyCarried_ok_iff {table : List Bytes} {namespaced : Bytes} :
    ∀ {carried : List (Nat × Bytes)}, verifyCarried mayo table namespaced carried = .ok () ↔
      ∀ x ∈ carried, mayo namespaced x.2 (table.getD x.1 []) = .ok true
  | [] => by simp [verifyCarried]
  | (signer, sig) :: rest => by
    rw [verifyCarried, List.forall_mem_cons]
    split
    · rename_i e h
      simp only [h, reduceCtorEq, false_and]
    · rename_i h
      simp only [h, reduceCtorEq, Except.ok.injEq, Bool.false_eq_true, false_and]
    · rename_i h
      rw [verifyCarried_ok_iff, and_iff_right h]

/-- The MAYO check with a keys file of a network whose keys have the right length. -/
theorem verifyMayoHalf_ok_iff (hkeys : keys.Describes bls identity validators threshold)
    (hne : validators ≠ []) (hpks : ∀ pk ∈ participantMayo validators, pk.length = mayo2PkBytes)
    {env : HybridEnvelope} {ns message : Bytes} {valid : Nat} :
    verifyMayoHalf mayo env keys ns message = .ok valid ↔
      env.participants = (participantMayo validators).length ∧
      (∀ x ∈ env.signers.zip env.mayoSigs,
        mayo (ns ++ message) x.2 ((participantMayo validators).getD x.1 []) = .ok true) ∧
      valid = env.signers.length := by
  obtain ⟨ed, hed, hedHex⟩ := hkeys.publicKeys
  obtain ⟨mayoHex, hmayoHex, hmayo⟩ := hkeys.mayoKeys
  have hedLen : ed.length = validators.length := by
    simpa using congrArg List.length hedHex
  have hmayoLen : mayoHex.length = validators.length := by
    simpa using congrArg List.length hmayo
  have hmatch : ¬ (ed.length ≠ mayoHex.length ∨ ed = []) := by
    refine not_or.mpr ⟨fun h => h (hedLen.trans hmayoLen.symm), fun h => hne ?_⟩
    rw [h] at hedLen
    exact List.length_eq_zero_iff.mp hedLen.symm
  have hfind : (participantMayo validators).findIdx? (fun pk => pk.length ≠ mayo2PkBytes) =
      none := by
    rw [List.findIdx?_eq_none_iff]
    intro pk hpk
    simp [hpks pk hpk]
  rw [verifyMayoHalf, hed, hmayoHex]
  dsimp only
  rw [if_neg hmatch, reorderMayo_eq hedHex hmayo]
  dsimp only [bind, Except.bind]
  rw [hfind]
  by_cases hcount : env.participants = (participantMayo validators).length
  · rw [if_neg (not_not.mpr hcount), and_iff_right hcount]
    rw [← verifyCarried_ok_iff]
    cases verifyCarried mayo (participantMayo validators) (ns ++ message)
        (env.signers.zip env.mayoSigs) with
    | error e => simp
    | ok _ => simp [pure, Except.pure, eq_comm]
  · rw [if_pos hcount]
    simp [hcount]

/-- Only an envelope leads to a hybrid certificate. -/
theorem unwrapEnvelope_some_iff {classical : Bytes} {env : HybridEnvelope} :
    unwrapEnvelope cert = .ok (classical, some env) ↔
      parseHybridEnvelope cert = .ok env ∧ classical = env.classical := by
  rw [unwrapEnvelope]
  constructor
  · intro h
    split at h
    · cases h
    split at h
    · cases hparse : parseHybridEnvelope cert <;> rw [hparse] at h <;> cases h
      exact ⟨rfl, rfl⟩
    · cases h
  · rintro ⟨hparse, rfl⟩
    obtain ⟨hframed, hpos, -, -⟩ := parseHybridEnvelope_ok_iff.mp hparse
    have hlength := hframed.length
    rw [if_neg (by omega), if_pos hframed.tag, hparse]
    rfl

theorem verifyCert_some_iff (hkeys : keys.Describes bls identity validators threshold) {n : Nat} :
    verifyCert bls mayo keys cert proposal = .ok (some n) ↔
      ∃ env, parseHybridEnvelope cert = .ok env ∧
        blsAccepts bls identity defaultNamespace proposal env.classical = true ∧
        verifyMayoHalf mayo env keys defaultNamespace proposal = .ok n ∧
        keys.thresholdRequired.getD 0 ≤ n := by
  obtain ⟨b, hhex, hgroup⟩ := hkeys.group
  rw [verifyCert]
  constructor
  · intro h
    split at h
    · cases h
    rename_i classical envelope hunwrap
    simp only [decodeHex_of_trimmedHex hhex, hgroup] at h
    split at h
    · cases h
    rename_i signature hsignature
    split at h
    · rename_i hverify
      cases envelope with
      | none => cases h
      | some env =>
        obtain ⟨hparse, rfl⟩ := unwrapEnvelope_some_iff.mp hunwrap
        dsimp only at h
        split at h
        · cases h
        rename_i valid hhalf
        split at h
        · rename_i hquorum
          cases h
          exact ⟨env, hparse, by rwa [blsAccepts, hsignature], hhalf, hquorum⟩
        · cases h
    · cases h
  · rintro ⟨env, hparse, hclassical, hhalf, hquorum⟩
    simp only [unwrapEnvelope_some_iff.mpr ⟨hparse, rfl⟩, decodeHex_of_trimmedHex hhex, hgroup]
    rw [blsAccepts] at hclassical
    split at hclassical
    · rename_i signature hsignature
      simp only [hsignature, if_pos hclassical, hhalf]
      exact if_pos hquorum
    · cases hclassical

/-- The checker's verdict. -/
theorem verifyCert_hybrid_iff (hkeys : keys.Describes bls identity validators threshold)
    (hne : validators ≠ []) (hpks : ∀ pk ∈ participantMayo validators, pk.length = mayo2PkBytes) :
    (∃ n, verifyCert bls mayo keys cert proposal = .ok (some n)) ↔
      Sound bls mayo identity (participantMayo validators) proposal cert ∧
        participantsOf cert ≤ 4096 ∧ keys.thresholdRequired.getD 0 ≤ (signersOf cert).length := by
  simp only [verifyCert_some_iff hkeys, verifyMayoHalf_ok_iff hkeys hne hpks,
    parseHybridEnvelope_ok_iff]
  constructor
  · rintro ⟨n, env, ⟨hframed, -, hle, rfl⟩, hclassical, ⟨hcount, hcarried, rfl⟩, hquorum⟩
    exact ⟨⟨hframed, hcount, hclassical, hcarried⟩, hle, hquorum⟩
  · rintro ⟨hsound, hle, hquorum⟩
    refine ⟨_, _, ⟨hsound.framed, ?_, hle, rfl⟩, hsound.classical,
      ⟨hsound.participants, hsound.carried, rfl⟩, hquorum⟩
    rw [hsound.participants, participantMayo, List.length_map, List.length_mergeSort]
    exact fun h => hne (List.length_eq_zero_iff.mp h)

theorem length_of_mem_sigsOf (h : Framed cert) {sig : Bytes} (hsig : sig ∈ sigsOf cert) :
    sig.length = mayo2SigBytes := by
  obtain ⟨i, hi, rfl⟩ := List.mem_map.mp hsig
  have hslot : (i + 1) * mayo2SigBytes ≤ (signersOf cert).length * mayo2SigBytes :=
    Nat.mul_le_mul_right _ (List.mem_range.mp hi)
  rw [Nat.succ_mul] at hslot
  have hlength := h.length
  rw [List.length_take, List.length_drop, List.length_drop]
  omega

theorem exists_decoded (h : Framed cert) : ∃ c, Decoded cert c := by
  have hlength := h.length
  have hclassical : (classicalOf cert).length = 48 := by
    rw [classicalOf, List.length_take, List.length_drop]
    omega
  exact ⟨⟨⟨classicalOf cert, hclassical⟩, _, (sigsOf cert).attachWith _ fun _ hsig =>
    length_of_mem_sigsOf h hsig⟩, rfl, rfl, List.attachWith_map_subtype_val _⟩

/-- The node checks each signature as the checker does. -/
theorem verifyPq_iff_mayo {scheme : HybridScheme Bytes Sig ClassicalCert}
    (hns : scheme.baseNamespace = consensusNamespace) {signer : Participant}
    (hsigner : signer < scheme.mayoPks.length) {sig : MayoSig} :
    scheme.verifyPq finalizeEncoding (fun msg sig pk => (mayo msg sig pk).toOption) proposal
        signer sig = true ↔
      mayo (defaultNamespace ++ proposal) sig.val (scheme.mayoPks.getD signer []) = .ok true := by
  have hmessage : scheme.namespacedMessage finalizeEncoding proposal =
      defaultNamespace ++ proposal := by
    rw [HybridScheme.namespacedMessage, hns]
    rfl
  rw [HybridScheme.verifyPq_iff, hmessage, List.getD_eq_getElem?_getD,
    List.getElem?_eq_getElem hsigner, Option.getD_some]
  simp only [Option.some.injEq, exists_eq_left', HybridScheme.mayoVerify]
  cases mayo (defaultNamespace ++ proposal) sig.val scheme.mayoPks[signer] with
  | error e | ok valid => simp [Except.toOption]

/-- The node's verdict. -/
theorem decode_verify_iff (scheme : HybridScheme Bytes Sig ClassicalCert) (codec : BitMapCodec)
    (hinner : ∀ proposal (c : ClassicalCert), scheme.inner.verifyCertificate proposal c =
      blsAccepts bls identity defaultNamespace proposal c.val)
    (hns : scheme.baseNamespace = consensusNamespace) :
    (∃ c, HybridCertificate.decodeCfg codec scheme.mayoPks.length cert = some c ∧
      scheme.verifyCertificate finalizeEncoding (fun msg sig pk => (mayo msg sig pk).toOption)
        proposal c = true) ↔
      Sound bls mayo identity scheme.mayoPks proposal cert ∧
        codec.padding (participantsOf cert) (bitmapOf cert) = true ∧
        scheme.pqQuorum ≤ (signersOf cert).length := by
  have hverify : ∀ c, Decoded cert c →
      (scheme.verifyCertificate finalizeEncoding (fun msg sig pk => (mayo msg sig pk).toOption)
        proposal c = true ↔
      blsAccepts bls identity defaultNamespace proposal (classicalOf cert) = true ∧
      participantsOf cert = scheme.mayoPks.length ∧
      (∀ x ∈ (signersOf cert).zip (sigsOf cert),
        mayo (defaultNamespace ++ proposal) x.2 (scheme.mayoPks.getD x.1 []) = .ok true) ∧
      scheme.pqQuorum ≤ (signersOf cert).length) := by
    rintro c ⟨hclassical, hsigners, hpqSigs⟩
    have hlen : c.signers.len = participantsOf cert := by
      rw [hsigners, Signers.len, List.length_map, List.length_range]
    have hiter : c.signers.iter = signersOf cert := by
      rw [hsigners, iter_ofBits, signersOf]
    have hcount : c.pqSigs.length = c.signers.count := by
      rw [← List.length_map (f := Subtype.val), hpqSigs, sigsOf, length_mayoSlices, Signers.count,
        hiter]
    rw [HybridScheme.verifyCertificate_iff, hinner, hclassical, hlen, and_iff_right hcount,
      Signers.count, hiter]
    refine and_congr_right fun _ => and_congr_right fun hparticipants => and_congr_left fun _ => ?_
    rw [← hpqSigs, List.zip_map_right, List.forall_mem_map]
    refine forall₂_congr fun x hx => verifyPq_iff_mayo hns ?_
    have hsigner : x.1 ∈ signersOf cert := (List.of_mem_zip hx).1
    rw [← hparticipants]
    exact List.mem_range.mp (List.mem_of_mem_filter hsigner)
  constructor
  · rintro ⟨c, hdecode, haccept⟩
    obtain ⟨hframed, -, hpadding, hdecoded⟩ := decodeCfg_eq_some_iff.mp hdecode
    obtain ⟨hclassical, hparticipants, hcarried, hquorum⟩ := (hverify c hdecoded).mp haccept
    exact ⟨⟨hframed, hparticipants, hclassical, hcarried⟩, hpadding, hquorum⟩
  · rintro ⟨hsound, hpadding, hquorum⟩
    obtain ⟨c, hdecoded⟩ := exists_decoded hsound.framed
    refine ⟨c, decodeCfg_eq_some_iff.mpr ⟨hsound.framed, hsound.participants.le, hpadding,
      hdecoded⟩, (hverify c hdecoded).mpr ⟨hsound.classical, hsound.participants,
      hsound.carried, hquorum⟩⟩

/-- What the two do differently has the same outcome. -/
def SameVerdict (codec : BitMapCodec) (keys : KeysFile) (threshold : Nat) (cert : Bytes) : Prop :=
  participantsOf cert ≤ 4096 ∧ keys.thresholdRequired.getD 0 ≤ (signersOf cert).length ↔
    codec.padding (participantsOf cert) (bitmapOf cert) = true ∧
      threshold ≤ (signersOf cert).length

/-- A keys file with a threshold, not too many participants, and padding the codec
takes. -/
theorem sameVerdict_of {codec : BitMapCodec}
    (hthreshold : keys.thresholdRequired = some threshold) (hle : participantsOf cert ≤ 4096)
    (hpadding : codec.padding (participantsOf cert) (bitmapOf cert) = true) :
    SameVerdict codec keys threshold cert := by
  rw [SameVerdict, hthreshold, Option.getD_some, and_iff_right hle, and_iff_right hpadding]

/-- **The certificate checker.** With a keys file of the network it reports a hybrid
certificate valid exactly if the node decodes and accepts it, unless the
certificate is sound and the bound on the participants, the padding of the bitmap
or the missing threshold makes the difference. -/
theorem verifyCert_agrees_iff (bls : BlsOps Pk Sig)
    (mayo : Bytes → Bytes → Bytes → Except String Bool) (codec : BitMapCodec) {identity : Pk}
    {inner : InnerScheme Bytes Sig ClassicalCert}
    (hinner : ∀ proposal (c : ClassicalCert), inner.verifyCertificate proposal c =
      blsAccepts bls identity defaultNamespace proposal c.val)
    {validators : List (Bytes × Bytes)} {mayoSeed : Option Bytes} {threshold : Nat}
    {scheme : HybridScheme Bytes Sig ClassicalCert}
    (hnew : HybridScheme.new inner consensusNamespace (participantMayo validators) mayoSeed
      threshold = some scheme)
    {keys : KeysFile} (hkeys : keys.Describes bls identity validators threshold)
    (cert proposal : Bytes) :
    ((∃ n, verifyCert bls mayo keys cert proposal = .ok (some n)) ↔
      ∃ c, HybridCertificate.decodeCfg codec validators.length cert = some c ∧
        scheme.verifyCertificate finalizeEncoding (fun msg sig pk => (mayo msg sig pk).toOption)
          proposal c = true) ↔
    (Sound bls mayo identity (participantMayo validators) proposal cert →
      SameVerdict codec keys threshold cert) := by
  obtain ⟨rfl, hpks, hpos, hle⟩ := HybridScheme.new_spec hnew
  have hlength : (participantMayo validators).length = validators.length := by
    rw [participantMayo, List.length_map, List.length_mergeSort]
  have hne : validators ≠ [] := by
    rintro rfl
    rw [hlength] at hle
    exact hpos (Nat.le_zero.mp hle)
  rw [verifyCert_hybrid_iff hkeys hne hpks, ← hlength]
  exact (iff_congr Iff.rfl (decode_verify_iff
    ⟨inner, consensusNamespace, participantMayo validators, mayoSeed, threshold⟩ codec hinner
    rfl)).trans and_congr_right_iff

end Sound

/-! ## One validator -/

theorem trimChars_eq_self {cs : List Char} (h : ∀ c ∈ cs, isWhitespace c = false) :
    trimChars cs = cs := by
  have hdrop : ∀ l : List Char, (∀ c ∈ l, isWhitespace c = false) →
      l.dropWhile isWhitespace = l := by
    intro l hl
    cases l with
    | nil => rfl
    | cons c l =>
      refine List.dropWhile_cons_of_neg ?_
      rw [hl c (List.mem_cons_self)]
      exact Bool.false_ne_true
  rw [trimChars, hdrop cs h, hdrop cs.reverse fun c hc => h c (List.mem_reverse.mp hc),
    List.reverse_reverse]

theorem trimmedHex_hexEncode (b : Bytes) : trimmedHex (hexEncode b) = some b := by
  have hdigit : ∀ n < 16, isWhitespace (hexDigit n) = false := by decide
  have htrim : trimChars (hexEncode b).toList = (hexEncode b).toList := by
    refine trimChars_eq_self fun c hc => ?_
    rw [hexEncode, String.toList_ofList] at hc
    obtain ⟨x, -, hx⟩ := List.mem_flatMap.mp hc
    have hlt := x.toNat_lt
    rcases List.mem_cons.mp hx with rfl | hx
    · exact hdigit _ (by omega)
    · rw [List.mem_singleton.mp hx]
      exact hdigit _ (by omega)
  rw [trimmedHex, htrim, String.ofList_toList, hexDecode_hexEncode]

def soleMayoPk : Bytes := List.replicate mayo2PkBytes 7

def soleSignature : Bytes := List.replicate 48 3

/-- The only signature there is. -/
def soleBls : BlsOps Bytes Bytes where
  g1Decode b := if b.length = 48 then some b else none
  g2Decode b := some b
  verifyMessage _ _ _ sig := sig = soleSignature

def soleMayo (_ sig _ : Bytes) : Except String Bool :=
  .ok (sig = HybridScheme.sampleMayoSig.val)

def soleInner : InnerScheme Bytes Bytes ClassicalCert where
  participants := 1
  verifyAttestation _ _ sig := sig = soleSignature
  assemble atts := if 1 ≤ atts.length then some ⟨soleSignature, rfl⟩ else none
  verifyCertificate proposal c := blsAccepts soleBls [5] defaultNamespace proposal c.val

def soleScheme : HybridScheme Bytes Bytes ClassicalCert :=
  ⟨soleInner, consensusNamespace, participantMayo [([1], soleMayoPk)], none, 1⟩

theorem participantMayo_sole : participantMayo [([1], soleMayoPk)] = [soleMayoPk] := by
  rw [participantMayo, List.mergeSort_singleton, List.map_singleton]

theorem new_sole : HybridScheme.new soleInner consensusNamespace
    (participantMayo [([1], soleMayoPk)]) none 1 = some soleScheme := by
  have hpks : ¬ ([soleMayoPk].any fun pk => pk.length ≠ mayo2PkBytes) = true := by
    simp [soleMayoPk]
  have hlength : [soleMayoPk].length = soleInner.participants := rfl
  rw [soleScheme, participantMayo_sole, HybridScheme.new, if_neg (not_not.mpr hlength),
    if_neg hpks, if_neg (by decide)]

def soleKeys (thresholdRequired : Option Nat) : KeysFile :=
  ⟨hexEncode [5], thresholdRequired, some [hexEncode [1]], some [hexEncode soleMayoPk]⟩

theorem soleKeys_describes {thresholdRequired : Option Nat}
    (h : ∀ t, thresholdRequired = some t → t = 1) :
    (soleKeys thresholdRequired).Describes soleBls [5] [([1], soleMayoPk)] 1 where
  group := ⟨[5], trimmedHex_hexEncode _, rfl⟩
  publicKeys := ⟨_, rfl, by simp [trimmedHex_hexEncode]⟩
  mayoKeys := ⟨_, rfl, by simp [trimmedHex_hexEncode]⟩
  threshold := h

/-- A certificate for one participant. -/
def soleCert (bitmap : UInt8) (sigs : List MayoSig) : Bytes :=
  1 :: soleSignature ++ u64be 1 ++ [bitmap] ++ (sigs.map Subtype.val).flatten

theorem verifyCert_agrees_sole :
    (∃ n, verifyCert soleBls soleMayo (soleKeys (some 1))
      (soleCert 1 [HybridScheme.sampleMayoSig]) [] = .ok (some n)) ↔
    ∃ c, HybridCertificate.decodeCfg .strict 1 (soleCert 1 [HybridScheme.sampleMayoSig]) = some c ∧
      soleScheme.verifyCertificate finalizeEncoding
        (fun msg sig pk => (soleMayo msg sig pk).toOption) [] c = true :=
  (verifyCert_agrees_iff soleBls soleMayo .strict (fun _ _ => rfl) new_sole
    (soleKeys_describes fun _ h => (Option.some.inj h).symm) _ _).mpr fun _ =>
      sameVerdict_of rfl (by decide) (by decide)

theorem sound_soleCert {bitmap : UInt8} {sigs : List MayoSig}
    (hframed : Framed (soleCert bitmap sigs))
    (hparticipants : participantsOf (soleCert bitmap sigs) = 1)
    (hsigs : ∀ x ∈ (signersOf (soleCert bitmap sigs)).zip (sigsOf (soleCert bitmap sigs)),
      x.2 = HybridScheme.sampleMayoSig.val) :
    Sound soleBls soleMayo [5] (participantMayo [([1], soleMayoPk)]) []
      (soleCert bitmap sigs) where
  framed := hframed
  participants := by rw [hparticipants, participantMayo_sole, List.length_singleton]
  classical := rfl
  carried x hx := by rw [soleMayo, hsigs x hx, decide_eq_true rfl]

/-- The checker calls two certificates valid that the node does not take: one without
any MAYO signature, as the keys file has no threshold, and one with a bit set for
nobody. -/
theorem verifyCert_disagrees :
    ((∃ n, verifyCert soleBls soleMayo (soleKeys none) (soleCert 0 []) [] = .ok (some n)) ∧
      ∀ codec, ¬ ∃ c, HybridCertificate.decodeCfg codec 1 (soleCert 0 []) = some c ∧
        soleScheme.verifyCertificate finalizeEncoding
          (fun msg sig pk => (soleMayo msg sig pk).toOption) [] c = true) ∧
    ((∃ n, verifyCert soleBls soleMayo (soleKeys (some 1))
        (soleCert 3 [HybridScheme.sampleMayoSig]) [] = .ok (some n)) ∧
      ¬ ∃ c, HybridCertificate.decodeCfg .strict 1 (soleCert 3 [HybridScheme.sampleMayoSig]) =
          some c ∧
        soleScheme.verifyCertificate finalizeEncoding
          (fun msg sig pk => (soleMayo msg sig pk).toOption) [] c = true) := by
  have hpks : ∀ pk ∈ participantMayo [([1], soleMayoPk)], pk.length = mayo2PkBytes :=
    (HybridScheme.new_spec new_sole).2.1
  have hne : [([1], soleMayoPk)] ≠ ([] : List (Bytes × Bytes)) := List.cons_ne_nil _ _
  have hlength : soleScheme.mayoPks.length = 1 := by
    rw [soleScheme, participantMayo_sole, List.length_singleton]
  refine ⟨⟨?_, fun codec hnode => ?_⟩, ?_, fun hnode => ?_⟩
  · refine (verifyCert_hybrid_iff (soleKeys_describes fun _ h => by cases h) hne hpks).mpr
      ⟨sound_soleCert ⟨rfl, by decide⟩ (by decide) (by decide), by decide, by decide⟩
  · rw [← hlength] at hnode
    obtain ⟨-, -, hquorum⟩ :=
      (decode_verify_iff soleScheme codec (fun _ _ => rfl) rfl).mp hnode
    exact absurd hquorum (by decide)
  · refine (verifyCert_hybrid_iff (soleKeys_describes fun _ h => (Option.some.inj h).symm)
      hne hpks).mpr ⟨sound_soleCert ⟨rfl, by decide +kernel⟩ (by decide) (by decide +kernel),
        by decide, by decide⟩
  · rw [← hlength] at hnode
    obtain ⟨-, hpadding, -⟩ :=
      (decode_verify_iff soleScheme .strict (fun _ _ => rfl) rfl).mp hnode
    exact absurd hpadding (by decide)

end VerifyCert

end LayerSdk
