import Mathlib.Data.Finset.Card
import LayerSdk.AppRoot
import LayerSdk.HashChain
import LayerSdk.Payload

/-!
# The node

A validator executes what consensus finalizes. `finalize` is told a digest,
walks back over payloads it holds until it meets the executed tip, and executes
what it found, oldest first. One call runs at a time; but between any two of its
steps the rest of the node goes on: peers push payloads, the relay and the
proposer add some, records are written beside the consensus state, payload
files come and go.

A call is modelled as the phase it is in, one constructor per point where it
lets go of its locks, and the node as the fields the calls share. `step` runs
one step of anything, chosen by an `Action`; a run is a list of actions, so
every interleaving is one. Time is not modelled: a call that finds nothing may
give up or poll again.
-/

namespace LayerSdk

open EffectProg HashChain

/-! ## Payload files -/

/-- The digest-keyed store. `files` is absent in memory mode. -/
structure PayloadStore where
  files : Option (Std.ExtTreeMap Bytes Bytes)
  index : Std.ExtTreeMap Bytes Nat

namespace PayloadStore

variable (H : Bytes → Digest)

def inMemory : PayloadStore := ⟨none, ∅⟩

def path (d : Bytes) (height : Nat) : Bytes := str (hexEncode d ++ "." ++ Nat.repr height)

/-- A file is only as good as its content. -/
def get (s : PayloadStore) (d : Digest) : Option BlockPayload := do
  let height ← s.index[d.bytes]?
  let files ← s.files
  let bytes ← files[path d.bytes height]?
  let payload ← BlockPayload.fromBytes bytes
  if payload.digest H = d then some payload else none

/-- `put_executed`; `io` is whether the file could be written. -/
def putExecuted (io : Bool) (s : PayloadStore) (p : BlockPayload) : PayloadStore :=
  match s.files with
  | none => s
  | some files =>
    if io && !s.index.contains (p.digest H).bytes then
      ⟨some (files.insert (path (p.digest H).bytes p.height) p.toBytes),
        s.index.insert (p.digest H).bytes p.height⟩
    else s

def pruneBelow (s : PayloadStore) (height : Nat) : PayloadStore :=
  let stale := s.index.toList.filter fun e => e.2 < height
  ⟨s.files.map fun files => stale.foldl (fun fs e => fs.erase (path e.1 e.2)) files,
    stale.foldl (fun index e => index.erase e.1) s.index⟩

end PayloadStore

/-! ## The shared fields -/

def maxBlockTxs : Nat := 100
def maxBlockTxBytes : Nat := 8 * 1024 * 1024
def peerPayloadLookahead : Nat := 64
def maxRequestedDigests : Nat := 65536
def maxPendingPayloadsTotal : Nat := 16384
def pendingSolicitedReserve : Nat := 1024
def defaultRetainHeights : Nat := 65536

def zeroDigest : Digest := ⟨List.replicate 32 0, by decide⟩

abbrev Pending := Std.ExtTreeMap Bytes BlockPayload

structure LayerNode where
  app : App
  pendingPayloads : Pending
  currentHeight : Nat
  lastDigest : Digest
  store : PayloadStore
  requested : Finset Digest
  requestedHeights : Finset Nat
  certifiedDigests : List Digest
  maxSeenHeight : Nat

namespace LayerNode

variable (H : Bytes → Digest)

def genesisParent : Digest := H (str "slay3r/genesis-parent/v1")

/-- The executed tip of a start at `initialHeight` is the payload stored there. -/
def new (c : AppCodecs) (app : App) (initialHeight : Nat) : LayerNode where
  app := app
  pendingPayloads := ∅
  currentHeight := initialHeight
  lastDigest :=
    if initialHeight = 0 then genesisParent H
    else
      match app.getBlockPayload c initialHeight with
      | some bytes => H bytes
      | none => zeroDigest
  store := .inMemory
  requested := ∅
  requestedHeights := ∅
  certifiedDigests := []
  maxSeenHeight := initialHeight

def markResolved (n : LayerNode) (d : Digest) : LayerNode :=
  { n with certifiedDigests :=
      if n.certifiedDigests.head? = some d then n.certifiedDigests.tail
      else n.certifiedDigests.filter (· ≠ d) }

def requestPayload (n : LayerNode) (d : Digest) : LayerNode :=
  { n with requested :=
      insert d (if n.requested.card ≥ maxRequestedDigests then ∅ else n.requested) }

/-- `pending.insert(payload.digest(), payload)`: what the proposer, the relay and
the start-up code do. -/
def insertPending (n : LayerNode) (p : BlockPayload) : LayerNode :=
  { n with pendingPayloads := n.pendingPayloads.insert (p.digest H).bytes p }

/-- Make room for a payload that was asked for, or refuse. -/
def makeRoom (pending : Pending) (solicited : Bool) : Except String Pending :=
  if pending.size ≥ maxPendingPayloadsTotal then
    if solicited then
      match maxByKey (fun e => e.2.height) pending.toList with
      | none => .error "pending payload capacity reached"
      | some victim => .ok (pending.erase victim.1)
    else .error "pending payload capacity reached"
  else if !solicited && pending.size ≥ maxPendingPayloadsTotal - pendingSolicitedReserve then
    .error "pending payload capacity reached"
  else .ok pending

/-- `accept_peer_relay` with the tip it has read: whether the payload is new, and
whether to echo it. `none` is a panic. -/
def acceptPeerRelay (n : LayerNode) (tip : Nat) (p : BlockPayload) :
    Option ((Except String Bool × Bool) × LayerNode) :=
  if p.txs.length > maxBlockTxs ∨ (p.txs.map List.length).sum > maxBlockTxBytes then
    some ((.error "payload exceeds block limits", false), n)
  else if p.height ≤ tip then
    some ((.error "payload at or below executed tip", false), n)
  else
    let digest := p.digest H
    let withinObserved : Bool := p.height ≤ n.maxSeenHeight
    let asked := digest ∈ n.requested
    let solicited : Bool := asked ∨ p.height ∈ n.requestedHeights
    let n := { n with
      maxSeenHeight := max n.maxSeenHeight p.height
      requested := n.requested.erase digest
      requestedHeights :=
        if asked then n.requestedHeights else n.requestedHeights.erase p.height }
    if n.pendingPayloads.contains digest.bytes then some ((.ok false, false), n)
    else if !solicited && !withinObserved && tip + peerPayloadLookahead > u64Max then none
    else if !solicited && !withinObserved && p.height > tip + peerPayloadLookahead then
      some ((.error "unsolicited payload beyond lookahead window", false), n)
    else
      match makeRoom n.pendingPayloads solicited with
      | .error e => some ((.error e, false), n)
      | .ok pending =>
        some ((.ok true, !solicited),
          { n with pendingPayloads := pending.insert digest.bytes p })

end LayerNode

/-! ## A call of `finalize` -/

/-- The walk back from `digest`; `chain` has the payloads found so far, the oldest
first, and `cursor` is the digest wanted next. -/
structure Walk where
  digest : Digest
  tipHeight : Nat
  tipDigest : Digest
  chain : List BlockPayload
  cursor : Digest

/-- The execution of what the walk found. -/
structure Queue where
  tipHeight : Nat
  executed : Nat
  rest : List BlockPayload
  result : Option (Nat × Nat)

/-- Where a call is: `idle` is no call, `walking` the head of the first loop,
`reading` before the look into the files, `missing` after it, `applying` the
head of the second loop, `checked` after the state root comparison, `executing`
in `execute_payload` before and `built` after `block_from_payload`, `recording`
and `storing` after the commit, `closing` after the loop. -/
inductive Phase (Tx : Type) where
  | idle
  | walking (w : Walk)
  | reading (w : Walk)
  | missing (w : Walk)
  | applying (q : Queue)
  | checked (p : BlockPayload) (q : Queue)
  | executing (p : BlockPayload) (q : Queue)
  | built (p : BlockPayload) (block : Block Tx) (txHashes : List String) (q : Queue)
  | recording (p : BlockPayload) (responses : List (String × Bytes)) (q : Queue)
  | storing (p : BlockPayload) (q : Queue)
  | closing (result : Option (Nat × Nat))

/-- The libraries a node calls: transaction parsing for a chain id, and the
encoding of a transaction's response. -/
structure NodeDeps (Tx Data : Type) where
  parseCosmosTx : Bytes → String → Option Tx
  encodeTxResponse : String → Nat → TxResult Data → Bytes

section Finalize

variable {Tx Msg Data Genesis : Type} (H : Bytes → Digest) (c : AppCodecs)
  (logic : StateMachine Tx Msg Data Genesis) (deps : NodeDeps Tx Data)

def upperHexDigit (n : Nat) : Char := if n < 10 then Char.ofNat (48 + n) else Char.ofNat (55 + n)

def txHashHex (raw : Bytes) : String :=
  String.ofList ((H raw).bytes.flatMap fun b =>
    [upperHexDigit (b.toNat / 16), upperHexDigit (b.toNat % 16)])

/-- The block of a payload, and the hashes of the transactions that parse. -/
def blockFromPayload (a : App) (p : BlockPayload) (height : Nat) : Block Tx × List String :=
  let chainId := (a.info.map BlockInfo.chainId).getD "junoclaw-1"
  let parsed := p.txs.filterMap fun raw =>
    (deps.parseCosmosTx raw chainId).map fun tx => (tx, txHashHex H raw)
  (⟨parsed.map Prod.fst, height, p.timestampNanos, p.proposer⟩, parsed.map Prod.snd)

/-- The call takes the execution lock and reads the tip. -/
def beginFinalize (n : LayerNode) (digest : Digest) : LayerNode × Phase Tx :=
  if digest = n.lastDigest then (n.markResolved digest, .idle)
  else (n, .walking ⟨digest, n.currentHeight, n.lastDigest, [], digest⟩)

/-- A payload for the cursor is there. -/
def walkTo (w : Walk) (p : BlockPayload) : Phase Tx :=
  -- executed already, or a chain that does not meet the tip
  if p.height ≤ w.tipHeight then .idle
  else .walking { w with chain := p :: w.chain, cursor := p.parentDigest }

def walkPending (n : LayerNode) (w : Walk) : Phase Tx :=
  if w.cursor = w.tipDigest then .applying ⟨w.tipHeight, 0, w.chain, none⟩
  else
    match n.pendingPayloads[w.cursor.bytes]? with
    | some p => walkTo w p
    | none => .reading w

def walkStore (n : LayerNode) (w : Walk) : Phase Tx :=
  match n.store.get H w.cursor with
  | some p => walkTo w p
  | none => .missing w

/-- The head of the second loop: contiguous height, and the root we have. -/
def checkNext (n : LayerNode) (q : Queue) : Phase Tx :=
  match q.rest with
  | [] => .closing q.result
  | p :: rest =>
    if q.tipHeight + 1 + q.executed > u64Max ∨ p.height ≠ q.tipHeight + 1 + q.executed then .idle
    else if p.stateRoot ≠ (n.app.stateRoot c).getD zeroDigest then .idle
    else .checked p { q with rest }

def dropPending (n : LayerNode) (p : BlockPayload) : LayerNode :=
  { n with pendingPayloads := n.pendingPayloads.erase (p.digest H).bytes }.markResolved (p.digest H)

/-- `set_tx_response` for each response; an error is only logged. -/
def recordResponses : List (String × Bytes) → App → Option App
  | [], a => some a
  | (txhash, encoded) :: rest, a =>
    (FailState.exec (setTxResponse H c txhash encoded) a).bind fun x => recordResponses rest x.2

/-- An executed payload, and the application just before. -/
structure Executed where
  payload : BlockPayload
  before : App

/-- The commit, and with it the new tip. -/
def commitPayload (n : LayerNode) (p : BlockPayload) (block : Block Tx) (txHashes : List String)
    (q : Queue) : Option ((LayerNode × Phase Tx) × Option Executed) :=
  match FailState.exec (finalizeBlockWithPayload H c logic block (some p.toBytes)) n.app with
  | none => none
  | some (.error _, app) => some (({ n with app }, .idle), none)
  | some (.ok response, app) =>
    let responses := (txHashes.zip response.txResults).map fun x =>
      (x.1, deps.encodeTxResponse x.1 block.height x.2)
    let q := { q with executed := q.executed + 1, result := some (block.height, p.timestampNanos) }
    some (({ n with app, currentHeight := block.height, lastDigest := p.digest H },
      .recording p responses q), some ⟨p, n.app⟩)

def closeFinalize (n : LayerNode) : Option (Nat × Nat) → LayerNode
  | none => n
  | some (height, _) =>
    { n with
      pendingPayloads := n.pendingPayloads.filter fun _ p => height < p.height
      store := n.store.pruneBelow (height - defaultRetainHeights) }

/-- The next step of a call; `io` is the luck of a file write. `none` is a panic,
or no step: a call that misses a payload waits. -/
def advance (io : Bool) (n : LayerNode) :
    Phase Tx → Option ((LayerNode × Phase Tx) × Option Executed)
  | .idle => none
  | .walking w => some ((n, walkPending n w), none)
  | .reading w => some ((n, walkStore H n w), none)
  | .missing _ => none
  | .applying q => some ((n, checkNext c n q), none)
  | .checked p q => some ((dropPending H n p, .executing p q), none)
  | .executing p q =>
    if n.currentHeight = u64Max then none
    else
      let (block, txHashes) := blockFromPayload H deps n.app p (n.currentHeight + 1)
      some ((n, .built p block txHashes q), none)
  | .built p block txHashes q => commitPayload H c logic deps n p block txHashes q
  | .recording p responses q =>
    (recordResponses H c responses n.app).map fun app => (({ n with app }, .storing p q), none)
  | .storing p q => some (({ n with store := n.store.putExecuted H io p }, .applying q), none)
  | .closing result => some ((closeFinalize n result, .idle), none)

/-! ## Everything at once -/

structure NodeState (Tx : Type) where
  node : LayerNode
  phase : Phase Tx

/-- What can happen next. -/
inductive Action (Tx : Type) where
  /-- A call of `finalize` gets the execution lock. -/
  | finalize (digest : Digest)
  | advance (io : Bool)
  /-- A missing payload: poll again, perhaps asking the peers, or give up. -/
  | poll (request : Bool)
  | giveUp
  /-- The task of the call is dropped where it waits. -/
  | cancel
  /-- The commit panics; whatever it leaves behind, the call is over. -/
  | panic (app : App)
  /-- A peer's payload, handled with a tip read earlier. -/
  | relay (tip : Nat) (p : BlockPayload)
  | insertPending (p : BlockPayload)
  /-- A record is written or pruned, or a block is simulated. -/
  | appCall (call : AppCall Tx)
  /-- Payload files are written by `certify`, removed, damaged. -/
  | files (store : PayloadStore)
  /-- The fetch bookkeeping of the other tasks. -/
  | bookkeeping (requested : Finset Digest) (requestedHeights : Finset Nat)
      (certifiedDigests : List Digest) (maxSeenHeight : Nat)

/-- The calls other tasks make on the application while the node runs. -/
def AppCall.isLive : AppCall Tx → Bool
  | .simulateFinalizeBlock _ => true
  | call => call.isRecord

/-- One step of anything. -/
def step (s : NodeState Tx) : Action Tx → Option (NodeState Tx × Option Executed)
  | .finalize digest =>
    match s.phase with
    | .idle =>
      let (node, phase) := beginFinalize s.node digest
      some (⟨node, phase⟩, none)
    | _ => none
  | .advance io => (advance H c logic deps io s.node s.phase).map fun x => (⟨x.1.1, x.1.2⟩, x.2)
  | .poll request =>
    match s.phase with
    | .missing w =>
      some (⟨if request then s.node.requestPayload w.cursor else s.node, .walking w⟩, none)
    | _ => none
  | .giveUp =>
    match s.phase with
    | .missing _ => some (⟨s.node, .idle⟩, none)
    | _ => none
  | .cancel => some (⟨s.node, .idle⟩, none)
  | .panic app =>
    match s.phase with
    | .built p block txHashes q =>
      if (commitPayload H c logic deps s.node p block txHashes q).isNone then
        some (⟨{ s.node with app }, .idle⟩, none)
      else none
    | _ => none
  | .relay tip p =>
    if tip ≤ s.node.currentHeight then
      (s.node.acceptPeerRelay H tip p).map fun x => (⟨x.2, s.phase⟩, none)
    else none
  | .insertPending p => some (⟨s.node.insertPending H p, s.phase⟩, none)
  | .appCall call =>
    if call.isLive then
      (call.apply H c logic s.node.app).map fun app => (⟨{ s.node with app }, s.phase⟩, none)
    else none
  | .files store => some (⟨{ s.node with store }, s.phase⟩, none)
  | .bookkeeping requested requestedHeights certifiedDigests maxSeenHeight =>
    some (⟨{ s.node with requested, requestedHeights, certifiedDigests, maxSeenHeight },
      s.phase⟩, none)

/-- A run, with what it executed, in order. -/
def runActions : List (Action Tx) → NodeState Tx → Option (NodeState Tx × List Executed)
  | [], s => some (s, [])
  | a :: rest, s => do
    let (s, x) ← step H c logic deps s a
    let (s, log) ← runActions rest s
    pure (s, x.toList ++ log)

end Finalize

end LayerSdk
