import LayerSdk.LcStore
import LayerSdk.Merkle

/-!
# Light client: the contract

The entry points the host calls. A call that returns an error leaves no
trace: the host discards what it wrote, so a call is a function from a store
to an error or to a new store and the response.

Serialisers, the curve and the hash are what the contract is linked with
(`Deps`). Of a header only `proposalBytes` is signed; `height` and
`timestamp` come from whoever relays it.
-/

namespace LayerSdk.Lc

structure Header where
  height : Height
  timestamp : Nat
  proposalBytes : Bytes
  certificateBytes : Bytes
deriving DecidableEq, Repr

structure Misbehaviour where
  headerA : Header
  headerB : Header
deriving DecidableEq, Repr

structure MembershipProof where
  payloadBytes : Bytes
  leafIndex : Nat
  siblings : List (Option Bytes)
deriving DecidableEq, Repr

structure InstantiateMsg where
  clientState : Bytes
  consensusState : Bytes
  checksum : Bytes

inductive SudoMsg where
  | updateState (clientMessage : Bytes)
  | updateStateOnMisbehaviour (clientMessage : Bytes)
  | verifyUpgradeAndUpdateState (upgradeClientState upgradeConsensusState proofUpgradeClient
      proofUpgradeConsensusState : Bytes)
  | verifyMembership (height : Height) (delayTimePeriod delayBlockPeriod : Nat) (proof : Bytes)
      (keyPath : List Bytes) (value : Bytes)
  | verifyNonMembership (height : Height) (delayTimePeriod delayBlockPeriod : Nat) (proof : Bytes)
      (keyPath : List Bytes)
  | migrateClientStore
deriving DecidableEq, Repr

/-- The data of a response: `UpdateStateResponse` or `EmptyResult`. -/
inductive Response where
  | updateState (heights : List Height)
  | empty
deriving DecidableEq, Repr

/-- What the contract is linked with. -/
structure Deps where
  sha256 : Bytes → Digest
  bls : Bls
  clientState : WasmCodec ClientState
  consensusState : WasmCodec ConsensusState
  header : WasmCodec Header
  misbehaviour : WasmCodec Misbehaviour
  membershipProof : WasmCodec MembershipProof

variable (d : Deps)

/-! ## Entry points -/

def instantiate (storage : Store) (msg : InstantiateMsg) : Except ContractError Store := do
  let clientState ← ofStd (d.clientState.fromJson msg.clientState)
  let consensusState ← ofStd (d.consensusState.fromJson msg.consensusState)
  match hexDecode clientState.groupPublicKeyHex with
  | none => .error .invalidPublicKey
  | some pk =>
    if pk.length ≠ 96 then .error (.invalidPublicKeyLength pk.length)
    else do
      let storage ← ofStd
        (saveConsensusState d.consensusState storage clientState.latestHeight consensusState)
      ofStd (saveClientState d.clientState storage clientState msg.checksum)

def checkHeader (clientState : ClientState) (header : Header) :
    Except ContractError DecodedProposal :=
  match clientState.frozenHeight with
  | some frozenAt => .error (.clientFrozen frozenAt.revisionHeight)
  | none =>
    if header.height.revisionNumber ≠ clientState.latestHeight.revisionNumber then
      .error .invalidProposal
    else
      match hexDecode clientState.groupPublicKeyHex with
      | none => .error .invalidPublicKey
      | some pk => verifyCertificate d.bls pk header.proposalBytes header.certificateBytes

def checkUpdateHeader (storage : Store) (clientState : ClientState) (header : Header) :
    Except ContractError DecodedProposal := do
  let decoded ← checkHeader d clientState header
  let latest := clientState.latestHeight.revisionHeight
  if header.height.revisionHeight ≤ latest then
    -- a replay at the latest height: only the payload is compared
    if header.height.revisionHeight = latest then
      match ← ofStore (mayLoadConsensusState d.consensusState storage header.height) with
      | none => .error (.consensusStateNotFound header.height.revisionHeight)
      | some existing =>
        if existing.payloadDigestHex = hexEncode decoded.payload.bytes then .ok decoded
        else .error (.nonMonotonicHeight header.height.revisionHeight latest)
    else .error (.nonMonotonicHeight header.height.revisionHeight latest)
  else
    match ← ofStore (mayLoadConsensusState d.consensusState storage header.height) with
    | none => .ok decoded
    | some existing =>
      if existing.payloadDigestHex ≠ hexEncode decoded.payload.bytes then
        .error .verificationFailed
      else .ok decoded

def checkMisbehaviour (clientState : ClientState) (misbehaviour : Misbehaviour) :
    Except ContractError Unit := do
  let decodedA ← checkHeader d clientState misbehaviour.headerA
  let decodedB ← checkHeader d clientState misbehaviour.headerB
  let sameRound := decodedA.epoch = decodedB.epoch ∧ decodedA.view = decodedB.view
  let sameHeight := misbehaviour.headerA.height.revisionHeight =
    misbehaviour.headerB.height.revisionHeight
  if ¬ sameRound ∧ ¬ sameHeight then .error .misbehaviourMismatch
  else if decodedA.payload = decodedB.payload then .error .noEquivocation
  else .ok ()

/-- The consensus state a verified header stands for. -/
def consensusStateOf (header : Header) (decoded : DecodedProposal) : ConsensusState where
  payloadDigestHex := hexEncode decoded.payload.bytes
  timestamp := header.timestamp
  epoch := decoded.epoch
  view := decoded.view
  parent := decoded.parent

def updateState (storage : Store) (clientMessage : Bytes) :
    Except ContractError (Store × Response) := do
  let (clientState, checksum) ← ofStore (loadClientState d.clientState storage)
  let header ← ofStd (d.header.fromJson clientMessage)
  let decoded ← checkUpdateHeader d storage clientState header
  let storage ← ofStd (saveConsensusState d.consensusState storage header.height
    (consensusStateOf header decoded))
  let storage ← ofStd (saveClientState d.clientState storage
    { clientState with latestHeight := header.height } checksum)
  .ok (storage, .updateState [header.height])

def updateStateOnMisbehaviour (storage : Store) (clientMessage : Bytes) :
    Except ContractError (Store × Response) := do
  let (clientState, checksum) ← ofStore (loadClientState d.clientState storage)
  let misbehaviour ← ofStd (d.misbehaviour.fromJson clientMessage)
  let _ ← checkMisbehaviour d clientState misbehaviour
  let freezeHeight := min misbehaviour.headerA.height.revisionHeight
    misbehaviour.headerB.height.revisionHeight
  let storage ← ofStd (saveClientState d.clientState storage
    { clientState with frozenHeight := some ⟨0, freezeHeight⟩ } checksum)
  .ok (storage, .empty)

/-- Every `Some` must be 32 bytes. -/
def parseSiblings : List (Option Bytes) → Option (List (Option Digest))
  | [] => some []
  | none :: rest => (parseSiblings rest).map (none :: ·)
  | some b :: rest =>
    match toDigest? b with
    | none => none
    | some sib => (parseSiblings rest).map (some sib :: ·)

/-- The trailing 32 bytes of the payload. -/
def trailingRoot (payloadBytes : Bytes) : Option Digest :=
  if payloadBytes.length < 32 then none
  else toDigest? (payloadBytes.drop (payloadBytes.length - 32))

def verifyMembership (storage : Store) (height : Height) (proof : Bytes) (keyPath : List Bytes)
    (value : Bytes) : Except ContractError (Store × Response) := do
  match ← ofStore (mayLoadConsensusState d.consensusState storage height) with
  | none => .error (.consensusStateNotFound height.revisionHeight)
  | some consensus =>
    let proof ← ofStd (d.membershipProof.fromJson proof)
    if hexEncode (d.sha256 proof.payloadBytes).bytes ≠ consensus.payloadDigestHex then
      .error .invalidMembershipProof
    else
      match trailingRoot proof.payloadBytes with
      | none => .error .invalidMembershipProof
      | some stateRoot =>
        let key := keyPath.flatten
        let leaf := leafHash d.sha256 key value
        match parseSiblings proof.siblings with
        | none => .error .invalidMembershipProof
        | some siblings =>
          if computeRoot d.sha256 leaf proof.leafIndex siblings ≠ stateRoot then
            .error .invalidMembershipProof
          else .ok (storage, .empty)

def sudoEntry (storage : Store) : SudoMsg → Except ContractError (Store × Response)
  | .updateState clientMessage => updateState d storage clientMessage
  | .updateStateOnMisbehaviour clientMessage => updateStateOnMisbehaviour d storage clientMessage
  | .verifyMembership height _ _ proof keyPath value =>
    verifyMembership d storage height proof keyPath value
  | .verifyNonMembership .. => .error .membershipProofsUnsupported
  | .verifyUpgradeAndUpdateState .. => .error .unsupported
  | .migrateClientStore => .ok (storage, .empty)

/-! ## JSON texts

The texts of the contract's types. They make a closed `Deps` out of the
finitely many values a run touches. -/

def heightJson (h : Height) : Bytes :=
  objectJson [("revision_number", numberJson h.revisionNumber),
    ("revision_height", numberJson h.revisionHeight)]

def clientStateJson (cs : ClientState) : Bytes :=
  objectJson [("chain_id", quoted (str cs.chainId)),
    ("group_public_key_hex", quoted (str cs.groupPublicKeyHex)),
    ("latest_height", heightJson cs.latestHeight),
    ("frozen_height", optionJson heightJson cs.frozenHeight)]

def consensusStateJson (cs : ConsensusState) : Bytes :=
  objectJson [("payload_digest_hex", quoted (str cs.payloadDigestHex)),
    ("timestamp", numberJson cs.timestamp), ("epoch", numberJson cs.epoch),
    ("view", numberJson cs.view), ("parent", numberJson cs.parent)]

def headerJson (h : Header) : Bytes :=
  objectJson [("height", heightJson h.height), ("timestamp", numberJson h.timestamp),
    ("proposal_bytes", binaryJson h.proposalBytes),
    ("certificate_bytes", binaryJson h.certificateBytes)]

def misbehaviourJson (m : Misbehaviour) : Bytes :=
  objectJson [("header_a", headerJson m.headerA), ("header_b", headerJson m.headerB)]

def membershipProofJson (p : MembershipProof) : Bytes :=
  objectJson [("payload_bytes", binaryJson p.payloadBytes), ("leaf_index", numberJson p.leafIndex),
    ("siblings", str "[" ++ commaSeparated (p.siblings.map (optionJson binaryJson)) ++ str "]")]

/-- The contract linked with a hash, the certificates that exist, and
serialisers that know the given values. -/
def Deps.ofValues (hash : Bytes → Digest) (certificates : List (Bytes × Bytes))
    (clients : List ClientState) (consensus : List ConsensusState) (headers : List Header)
    (misbehaviours : List Misbehaviour) (proofs : List MembershipProof) : Deps where
  sha256 := hash
  bls := .ofTable certificates
  clientState := .table (clients.map fun x => (x, clientStateJson x))
  consensusState := .table (consensus.map fun x => (x, consensusStateJson x))
  header := .table (headers.map fun x => (x, headerJson x))
  misbehaviour := .table (misbehaviours.map fun x => (x, misbehaviourJson x))
  membershipProof := .table (proofs.map fun x => (x, membershipProofJson x))

end LayerSdk.Lc
