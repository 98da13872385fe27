import LayerSdk.Codec
import LayerSdk.Leb128

/-!
# Light client: certificates

The contract's verification core: the wire form of a finalized proposal and
the check of its threshold certificate. The pairing is a parameter (`Bls`);
everything around it is the contract's own: lengths, the order of the
checks, the message that is signed.

A proposal carries epoch, view, parent view and payload digest. It carries
no block height and no timestamp.
-/

namespace LayerSdk.Lc

inductive ContractError where
  | std (e : StdError)
  | clientFrozen (height : Nat)
  | nonMonotonicHeight (header latest : Nat)
  | invalidPublicKeyLength (len : Nat)
  | invalidPublicKey
  | invalidCertificateLength (len : Nat)
  | invalidCertificate
  | invalidProposal
  | verificationFailed
  | consensusStateNotFound (height : Nat)
  | misbehaviourMismatch
  | noEquivocation
  | membershipProofsUnsupported
  | invalidMembershipProof
  | unsupported
  -- no value of the contract's own: the call traps, and the host drops it
  | aborted
deriving DecidableEq, Repr

/-- `#[from] StdError`. -/
def ofStd {α : Type} : Except StdError α → Except ContractError α
  | .ok a => .ok a
  | .error e => .error (.std e)

@[simp] theorem ofStd_ok {α : Type} (a : α) : ofStd (.ok a) = .ok a := rfl

theorem ofStd_eq_ok {α : Type} {x : Except StdError α} {a : α} :
    ofStd x = .ok a ↔ x = .ok a := by
  cases x <;> simp [ofStd]

structure DecodedProposal where
  epoch : Nat
  view : Nat
  parent : Nat
  payload : Digest
deriving DecidableEq

/-! ## The signed message -/

def baseNamespace : Bytes := str "slay3r-consensus-v1"

def finalizeSuffix : Bytes := str "_FINALIZE"

def g1MessageDst : Bytes := str "BLS_SIG_BLS12381G1_XMD:SHA-256_SSWU_RO_POP_"

def finalizeNamespace : Bytes := baseNamespace ++ finalizeSuffix

def writeUvarint (value : Nat) : Bytes := Leb128.encode value

def unionUnique (ns msg : Bytes) : Bytes := writeUvarint ns.length ++ ns ++ msg

/-! ## Decoding a proposal -/

def readUvarint (buf : Bytes) : Except ContractError (Nat × Bytes) :=
  match Leb128.read buf with
  | some r => .ok r
  | none => .error .invalidProposal

/-- `try_into` to `[u8; 32]`. -/
def toDigest? (b : Bytes) : Option Digest :=
  if h : b.length = 32 then some ⟨b, h⟩ else none

/-- Three varints, then exactly 32 bytes. -/
def decodeProposal (bytes : Bytes) : Except ContractError DecodedProposal := do
  let (epoch, rest) ← readUvarint bytes
  let (view, rest) ← readUvarint rest
  let (parent, rest) ← readUvarint rest
  match toDigest? rest with
  | some payload => .ok ⟨epoch, view, parent, payload⟩
  -- too short, or trailing bytes after the digest
  | none => .error .invalidProposal

/-- The encoding the consensus engine signs. -/
def encodeProposal (p : DecodedProposal) : Bytes :=
  writeUvarint p.epoch ++ writeUvarint p.view ++ writeUvarint p.parent ++ p.payload.bytes

theorem toDigest?_bytes (d : Digest) : toDigest? d.bytes = some d := by
  rw [toDigest?, dif_pos d.length_bytes]

theorem bytes_of_toDigest? {b : Bytes} {d : Digest} (h : toDigest? b = some d) : b = d.bytes := by
  unfold toDigest? at h
  split at h
  · cases h
    rfl
  · cases h

theorem readUvarint_writeUvarint {v : Nat} (hv : v < 2 ^ 64) (rest : Bytes) :
    readUvarint (writeUvarint v ++ rest) = .ok (v, rest) := by
  rw [readUvarint, writeUvarint, Leb128.read_encode hv]

theorem decodeProposal_encodeProposal (p : DecodedProposal) (he : p.epoch < 2 ^ 64)
    (hv : p.view < 2 ^ 64) (hp : p.parent < 2 ^ 64) :
    decodeProposal (encodeProposal p) = .ok p := by
  unfold decodeProposal encodeProposal
  rw [List.append_assoc, List.append_assoc, readUvarint_writeUvarint he]
  dsimp only [bind, Except.bind]
  rw [readUvarint_writeUvarint hv]
  dsimp only
  rw [readUvarint_writeUvarint hp]
  dsimp only
  rw [toDigest?_bytes]

/-! ## The certificate -/

/-- The curve library: compressed points, hashing to the curve, the pairing. -/
structure Bls where
  G1 : Type
  G2 : Type
  Gt : Type
  g1FromCompressed : Bytes → Option G1
  g2FromCompressed : Bytes → Option G2
  hashToCurve : Bytes → Bytes → G1
  generator : G2
  pairing : G1 → G2 → Gt
  decEq : DecidableEq Gt

variable (bls : Bls)

instance : DecidableEq bls.Gt := bls.decEq

def verifyCertificate (groupPublicKey proposalBytes certificateBytes : Bytes) :
    Except ContractError DecodedProposal :=
  if groupPublicKey.length ≠ 96 then .error (.invalidPublicKeyLength groupPublicKey.length)
  else if certificateBytes.length ≠ 48 then
    .error (.invalidCertificateLength certificateBytes.length)
  else do
    let decoded ← decodeProposal proposalBytes
    match bls.g2FromCompressed groupPublicKey with
    | none => .error .invalidPublicKey
    | some pubkey =>
      match bls.g1FromCompressed certificateBytes with
      | none => .error .invalidCertificate
      | some signature =>
        let msg := unionUnique finalizeNamespace proposalBytes
        let hm := bls.hashToCurve msg g1MessageDst
        let lhs := bls.pairing signature bls.generator
        let rhs := bls.pairing hm pubkey
        if lhs = rhs then .ok decoded else .error .verificationFailed

/-- What an accepted certificate says. -/
theorem verifyCertificate_ok {pk proposal cert : Bytes} {p : DecodedProposal}
    (h : verifyCertificate bls pk proposal cert = .ok p) :
    decodeProposal proposal = .ok p ∧
      ∃ pubkey signature, bls.g2FromCompressed pk = some pubkey ∧
        bls.g1FromCompressed cert = some signature ∧
        bls.pairing signature bls.generator =
          bls.pairing (bls.hashToCurve (unionUnique finalizeNamespace proposal) g1MessageDst)
            pubkey := by
  obtain ⟨-, h⟩ := guard_eq_ok.mp h
  obtain ⟨-, h⟩ := guard_eq_ok.mp h
  obtain ⟨p', hdec, h⟩ := bind_eq_ok.mp h
  split at h
  · cases h
  rename_i pubkey hpubkey
  split at h
  · cases h
  rename_i signature hsignature
  dsimp only at h
  split at h
  · rename_i hpairing
    cases h
    exact ⟨hdec, pubkey, signature, hpubkey, hsignature, hpairing⟩
  · cases h

/-- An ideal signature: the certificates in the table are the ones that were
made, each for its message, and there are no others. -/
def Bls.ofTable (rows : List (Bytes × Bytes)) : Bls where
  G1 := Bytes
  G2 := Bytes
  Gt := Bytes
  g1FromCompressed cert := (rows.find? fun r => decide (r.1 = cert)).map fun r =>
    unionUnique finalizeNamespace r.2
  g2FromCompressed pk := some pk
  hashToCurve msg _ := msg
  generator := []
  pairing p _ := p
  decEq := inferInstance

theorem mem_of_verifyCertificate_ofTable {rows : List (Bytes × Bytes)} {pk proposal cert : Bytes}
    {p : DecodedProposal} (h : verifyCertificate (.ofTable rows) pk proposal cert = .ok p) :
    (cert, proposal) ∈ rows := by
  obtain ⟨-, pubkey, signature, -, hsignature, hpairing⟩ := verifyCertificate_ok _ h
  obtain ⟨r, hfind, hr⟩ := Option.map_eq_some_iff.mp hsignature
  have hcert : r.1 = cert := by simpa using List.find?_some hfind
  have hproposal : r.2 = proposal := List.append_cancel_left (hr.trans hpairing)
  have hmem := List.mem_of_find?_eq_some hfind
  rwa [← hcert, ← hproposal]

end LayerSdk.Lc
