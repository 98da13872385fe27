import LayerSdk.App
import LayerSdk.LcVerify
import LayerSdk.Payload

/-!
# State sync

A joining node asks its configured peers for a snapshot and for the finality
records of two blocks, and imports what they serve. The peers are an
interface with unrestricted answers: nothing is assumed about who answers
what, and the same question may be answered differently each time.

The root the import trusts is the state root of the payload served for block
`height + 1`. The joiner checks that the payload is certified and that the
peers agree on it, and it checks the height of the payload served for the
snapshot's own block, but it never looks at the height of the first one. What
a certified record of another block does there is `adoptSnapshot_anchor_iff`.
-/

namespace LayerSdk

open EffectProg

/-! ## The peers -/

structure SnapshotMeta where
  height : Nat
  format : Nat
  chunks : Nat
  stateRoot : Bytes
deriving DecidableEq, Repr

structure ChunkResponse where
  chunk : Bytes
  checksum : Bytes
deriving DecidableEq, Repr

/-- The finality record the `Block` endpoint serves. -/
structure QueryBlockResponse where
  proposalBytes : Bytes
  certificateBytes : Bytes
  payloadBytes : Bytes
deriving DecidableEq, Repr

inductive QueryStatus where
  | notFound
  | other
deriving DecidableEq, Repr

inductive PeerOp where
  | connectStatesync (peer : String)
  | listSnapshots (peer : String)
  | loadSnapshotChunk (peer : String) (height format chunk : Nat)
  | connectLightClient (peer : String)
  | block (peer : String) (height : Nat)
deriving DecidableEq, Repr

abbrev PeerOp.Res : PeerOp → Type
  | connectStatesync _ => Bool
  | listSnapshots _ => Option (List SnapshotMeta)
  | loadSnapshotChunk .. => Option ChunkResponse
  | connectLightClient _ => Bool
  | block .. => Except QueryStatus QueryBlockResponse

abbrev peerSig : Sig := ⟨PeerOp, PeerOp.Res⟩

inductive SyncError where
  | zeroPeers
  | minAnchorAgree (minAgree peers : Nat)
  | noDonor (errs : List (String × SyncError))
  | connect (peer : String)
  | listSnapshots
  | noUsableSnapshot (peer : String)
  | rootLength (length : Nat)
  | tooManyChunks (chunks : Nat)
  | loadChunk (chunk : Nat)
  | exceedsMaxBytes (maxBytes chunk : Nat)
  | checksumMismatch (chunk : Nat)
  | chunkDecode (chunk : Nat) (reason : String)
  | lightClientConnect (peer : String)
  | blockFailed (height : Nat)
  | noCertifiedBlock (height : Nat)
  | noPeerServed
  | anchorDisagreement (peer first : String)
  | anchorQuorumTooSmall (agreeing minAgree : Nat)
  | anchorQuorum (height : Nat) (cause : SyncError)
  | uncertifiedTipQuorum (height : Nat) (cause : SyncError)
  | payloadDecode
  | advertisedRootMismatch (height : Nat)
  | noDonorAdvertises (height : Nat)
  | rootDisagreement (donor : String) (height : Nat)
  | rootQuorumTooSmall (agreeing minAgree : Nat)
  | haltedChainRootQuorum (cause : SyncError)
  | donatedRootMismatch (height : Nat)
  | tipDecode
  | tipHeight (payload snapshot : Nat)
  | app (e : PulsarError)

abbrev SyncM (α : Type) := ExceptT SyncError (Prog peerSig) α

/-- Ask, and take the answer whatever it is. -/
def ask (op : PeerOp) : SyncM (PeerOp.Res op) := ExceptT.lift (perform (S := peerSig) op)

/-- `ensure!`. -/
def ensure (b : Prop) [Decidable b] (e : SyncError) : SyncM Unit :=
  if b then pure () else throw e

def ofOption {α : Type} (e : SyncError) : Option α → SyncM α
  | some x => pure x
  | none => throw e

/-- The result as a value. -/
def outcome {α : Type} (p : SyncM α) : SyncM (Except SyncError α) :=
  ExceptT.mk (Except.ok <$> p.run)

/-! ## Snapshots -/

def maxSnapshotChunks : Nat := 2 ^ 20

structure FetchedSnapshot where
  height : Nat
  records : List Record
  advertisedRoot : Digest

/-- Six attempts. -/
def connectLoop (peer : String) : Nat → SyncM Unit
  | 0 => throw (.connect peer)
  | n + 1 => do
    if ← ask (.connectStatesync peer) then pure () else connectLoop peer n

def connectStatesync (peer : String) : SyncM Unit := connectLoop peer 6

def listLoop (peer : String) : Nat → SyncM (List SnapshotMeta)
  | 0 => throw .listSnapshots
  | n + 1 => do
    match ← ask (.listSnapshots peer) with
    | some snaps => pure snaps
    | none => listLoop peer n

def listSnapshots (peer : String) : SyncM (List SnapshotMeta) := listLoop peer 6

def latestSnapshotMeta (snaps : List SnapshotMeta) (peer : String) : SyncM SnapshotMeta :=
  ofOption (.noUsableSnapshot peer) (maxByKey SnapshotMeta.height (snaps.filter fun m => 0 < m.height))

section Fetch

variable (H : Bytes → Digest)

/-- The chunks from `i` on, after `total` bytes. -/
def fetchChunks (peer : String) (m : SnapshotMeta) (maxBytes : Nat) :
    List Nat → Nat → SyncM (List Record)
  | [], _ => pure []
  | i :: rest, total => do
    let r ← ask (.loadSnapshotChunk peer m.height m.format i)
    let r ← ofOption (.loadChunk i) r
    let total := min u64Max (total + r.chunk.length)
    ensure (total ≤ maxBytes) (.exceedsMaxBytes maxBytes i)
    ensure ((H r.chunk).bytes = r.checksum) (.checksumMismatch i)
    match decodeSnapshotChunk r.chunk with
    | .error reason => throw (.chunkDecode i reason)
    | .ok records => do
      let others ← fetchChunks peer m maxBytes rest total
      pure (records ++ others)

def fetchSnapshotFrom (peer : String) (maxBytes : Nat) : SyncM FetchedSnapshot := do
  connectStatesync peer
  let m ← latestSnapshotMeta (← listSnapshots peer) peer
  let advertisedRoot ← ofOption (.rootLength m.stateRoot.length) (Lc.toDigest? m.stateRoot)
  ensure (m.chunks ≤ maxSnapshotChunks) (.tooManyChunks m.chunks)
  let records ← fetchChunks H peer m maxBytes (List.range m.chunks) 0
  pure ⟨m.height, records, advertisedRoot⟩

/-- The first peer that serves a complete dump. -/
def fetchSnapshotLoop (maxBytes : Nat) : List String → List (String × SyncError) →
    SyncM FetchedSnapshot
  | [], errs => throw (.noDonor errs)
  | peer :: rest, errs => do
    match ← outcome (fetchSnapshotFrom H peer maxBytes) with
    | .ok snap => pure snap
    | .error e => fetchSnapshotLoop maxBytes rest (errs ++ [(peer, e)])

def fetchSnapshot (peers : List String) (maxBytes : Nat) : SyncM FetchedSnapshot :=
  fetchSnapshotLoop H maxBytes peers []

end Fetch

/-! ## Finality records -/

/-- The validator set and what the consensus library does with it. -/
structure FinalityScheme where
  Certificate : Type
  decodeProposal : Bytes → Except String Lc.DecodedProposal
  decodeCertificate : Bytes → Except String Certificate
  verify : Lc.DecodedProposal → Certificate → Bool

abbrev FinalityCheck := QueryBlockResponse → Except String Unit

def verifyFinality (H : Bytes → Digest) (scheme : FinalityScheme) : FinalityCheck := fun block =>
  match scheme.decodeProposal block.proposalBytes with
  | .error e => .error ("proposal decode failed: " ++ e)
  | .ok proposal =>
    if proposal.payload ≠ H block.payloadBytes then
      .error "payload bytes do not match the finalized proposal digest"
    else
      match scheme.decodeCertificate block.certificateBytes with
      | .error e => .error ("certificate decode failed: " ++ e)
      | .ok certificate =>
        if scheme.verify proposal certificate then .ok ()
        else
          .error "finalization certificate does not verify against the configured validator set"

/-- Twelve attempts while the block is not there. -/
def blockLoop (peer : String) (height : Nat) : Nat → SyncM QueryBlockResponse
  | 0 => throw (.noCertifiedBlock height)
  | n + 1 => do
    match ← ask (.block peer height) with
    | .ok block => pure block
    | .error .notFound => blockLoop peer height n
    | .error .other => throw (.blockFailed height)

def fetchBlockRetry (peer : String) (height : Nat) : SyncM QueryBlockResponse := do
  if ← ask (.connectLightClient peer) then blockLoop peer height 12
  else throw (.lightClientConnect peer)

/-- The payloads of the peers whose record is accepted; the others are skipped. -/
def collectPayloads (accept : QueryBlockResponse → Bool) (height : Nat) :
    List String → SyncM (List (String × Bytes))
  | [] => pure []
  | peer :: rest => do
    let r ← outcome (fetchBlockRetry peer height)
    let others ← collectPayloads accept height rest
    match r with
    | .ok block =>
      if accept block then pure ((peer, block.payloadBytes) :: others) else pure others
    | .error _ => pure others

def selectAnchor (payloads : List (String × Bytes)) (minAgree : Nat) : Except SyncError Bytes :=
  match payloads with
  | [] => .error .noPeerServed
  | (firstPeer, first) :: rest =>
    match rest.find? fun x => x.2 ≠ first with
    | some (peer, _) => .error (.anchorDisagreement peer firstPeer)
    | none =>
      if payloads.length ≥ minAgree then .ok first
      else .error (.anchorQuorumTooSmall payloads.length minAgree)

/-- A result with its error put into context. -/
def withContext {α : Type} (f : SyncError → SyncError) (r : Except SyncError α) : SyncM α :=
  ExceptT.mk (pure (r.mapError f))

def fetchCertifiedPayload (check : FinalityCheck) (peers : List String) (height minAgree : Nat) :
    SyncM Bytes := do
  let payloads ← collectPayloads (fun block => (check block).isOk) height peers
  withContext (.anchorQuorum height) (selectAnchor payloads minAgree)

/-- Records without a certificate whose payload has the asked height. -/
def fetchUncertifiedTip (peers : List String) (height minAgree : Nat) : SyncM Bytes := do
  let payloads ← collectPayloads (fun block => block.certificateBytes.isEmpty &&
    (BlockPayload.fromBytes block.payloadBytes).any fun p => p.height == height) height peers
  withContext (.uncertifiedTipQuorum height) (selectAnchor payloads minAgree)

/-! ## Advertised roots -/

def fetchAdvertisedRoot (peer : String) : SyncM (String × Nat × Digest) := do
  connectStatesync peer
  let m ← latestSnapshotMeta (← listSnapshots peer) peer
  let root ← ofOption (.rootLength m.stateRoot.length) (Lc.toDigest? m.stateRoot)
  pure (peer, m.height, root)

def fetchAdvertisedRoots : List String → SyncM (List (String × Nat × Digest))
  | [] => pure []
  | peer :: rest => do
    let r ← outcome (fetchAdvertisedRoot peer)
    let others ← fetchAdvertisedRoots rest
    match r with
    | .ok x => pure (x :: others)
    | .error _ => pure others

def selectAdvertisedRoot (metas : List (String × Nat × Digest)) (height minAgree : Nat) :
    Except SyncError Digest :=
  match metas.filter fun m => m.2.1 = height with
  | [] => .error (.noDonorAdvertises height)
  | first :: rest =>
    match rest.find? fun m => m.2.2 ≠ first.2.2 with
    | some m => .error (.rootDisagreement m.1 height)
    | none =>
      if rest.length + 1 ≥ minAgree then .ok first.2.2
      else .error (.rootQuorumTooSmall (rest.length + 1) minAgree)

/-! ## Adoption -/

structure StateSyncConfig where
  peers : List String
  minAnchorAgree : Nat
  maxSnapshotBytes : Nat
  haltedChainAnchor : Bool

section Adopt

variable (H : Bytes → Digest) (c : AppCodecs) (ss : StateSyncConfig) (chainId : String)
  (check : FinalityCheck)

/-- The trusted root, and whether it is that of a certified payload (`true`) or
of the halted-chain fallback. -/
def trustedRoot (snap : FetchedSnapshot) : SyncM (Digest × Bool) := do
  let anchorRes ← outcome
    (fetchCertifiedPayload check ss.peers (snap.height + 1) ss.minAnchorAgree)
  match anchorRes with
  | .ok anchorBytes => do
    let payload ← ofOption .payloadDecode (BlockPayload.fromBytes anchorBytes)
    ensure (payload.stateRoot = snap.advertisedRoot) (.advertisedRootMismatch (snap.height + 1))
    pure (payload.stateRoot, true)
  | .error e =>
    if ss.haltedChainAnchor then do
      let metas ← fetchAdvertisedRoots ss.peers
      let root ← withContext .haltedChainRootQuorum
        (selectAdvertisedRoot metas snap.height ss.minAnchorAgree)
      ensure (root = snap.advertisedRoot) (.donatedRootMismatch snap.height)
      pure (root, false)
    else throw e

/-- The payload of the snapshot's own block. -/
def tipBytes (snap : FetchedSnapshot) : SyncM Bytes := do
  match ← outcome (fetchCertifiedPayload check ss.peers snap.height ss.minAnchorAgree) with
  | .ok b => pure b
  | .error e =>
    if ss.haltedChainAnchor then
      fetchUncertifiedTip ss.peers snap.height ss.minAnchorAgree
    else throw e

/-- `snap.height + 1` in `u64`. -/
def rejectOverflow (height : Nat) : SyncM Unit :=
  if height = u64Max then ExceptT.lift .crash else pure ()

/-- The arguments of `snapshot_import`, and which anchor they come from. -/
structure Adoption where
  block : BlockInfo
  records : List Record
  expectedRoot : Digest
  tipPayload : Bytes
  certified : Bool

def fetchAdoption : SyncM Adoption := do
  ensure (ss.peers ≠ []) .zeroPeers
  ensure (1 ≤ ss.minAnchorAgree ∧ ss.minAnchorAgree ≤ ss.peers.length)
    (.minAnchorAgree ss.minAnchorAgree ss.peers.length)
  let snap ← fetchSnapshot H ss.peers ss.maxSnapshotBytes
  rejectOverflow snap.height
  let (root, certified) ← trustedRoot ss check snap
  let tip ← tipBytes ss check snap
  let tipPayload ← ofOption .tipDecode (BlockPayload.fromBytes tip)
  ensure (tipPayload.height = snap.height) (.tipHeight tipPayload.height snap.height)
  pure ⟨⟨snap.height, tipPayload.timestampNanos, chainId⟩, snap.records, root, tip, certified⟩

/-- `adopt_snapshot` on the application `a`; `none` is a panic in the import. -/
def adoptSnapshot (a : App) : Prog peerSig (Option (Except SyncError Nat × App)) := do
  match ← (fetchAdoption H ss chainId check).run with
  | .error e => pure (some (.error e, a))
  | .ok call =>
    pure ((FailState.exec (snapshotImport H c call.block call.records call.expectedRoot
      call.tipPayload) a).map fun (r, a') =>
        ((r.map fun _ => call.block.height).mapError .app, a'))

end Adopt

end LayerSdk
