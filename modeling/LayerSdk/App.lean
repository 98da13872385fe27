import LayerSdk.ExecuteTx
import LayerSdk.FailState
import LayerSdk.StateRoot

/-!
# The application

The operations of `App` that write: genesis, blocks (committed or
simulated), the light-client records, pruning, and the import of a snapshot.
Each is a program over the record `App` that can fail with an error, which
keeps what was already changed, or panic.

The persistent store is the only thing a restart keeps. `rootIndex` is a
cache of the leaf hashes of the committed consensus entries, which every
operation that writes past the tracker has to drop or leave true.
-/

namespace LayerSdk

open EffectProg Comp FailState

/-! ## State -/

structure InnerData where
  block : BlockInfo
  chainId : String
  params : BlockParams
deriving DecidableEq, Repr

structure App where
  storage : Persistent
  rootIndex : Option RootIndex
  data : Option InnerData

def App.new (storage : Persistent) : App := ⟨storage, none, none⟩

inductive AppLoadError where
  | noStoredState
  | invalidState (reason : String)
deriving DecidableEq, Repr

def AppLoadError.display : AppLoadError → String
  | .noStoredState => "No State Stored"
  | .invalidState reason => "Invalid State: " ++ reason

/-- `&mut self` methods: an error keeps the changes made so far. -/
abbrev AppM (α : Type) := FailM App PulsarError α

section Storage

variable (H : Bytes → Digest) {α : Type}

/-- Read the committed store with an infinite meter. -/
def withReader (p : StorageM PulsarError α) : AppM α := ofFun fun a =>
  (exec (reader a.storage.backend) p .infinite a.storage.data).map fun x => (x.2.1, a)

/-- `writer.commit(&meter)?`. -/
def commitWriter (w : Writer) (m : GasMeter) (x : α) : AppM α := ofFun fun a =>
  (a.storage.commit H w m).map fun (storage, _, r) =>
    (r.map (fun _ => x) |>.mapError fromGas, { a with storage })

/-- Open a writer, run with an infinite meter, commit. An error before the
commit drops the writer. -/
def withWriter (p : StorageM PulsarError α) : AppM α := ofFun fun a =>
  match exec (writerObj a.storage.backend) p .infinite a.storage.writer with
  | none => none
  | some (_, .error e, _) => some (.error e, a)
  | some (w, .ok x, m) => FailState.exec (commitWriter H w m x) a

/-- Run on the block's storage; nothing is committed yet. -/
def runTracked (p : StorageM PulsarError α) (s : BlockState) (m : GasMeter) :
    AppM (α × BlockState × GasMeter) := ofFun fun a =>
  (exec (trackedWriter a.storage.backend) p m s).map fun (s', r, m') =>
    (r.map fun x => (x, s', m'), a)

end Storage

section Operations

variable (H : Bytes → Digest) (c : AppCodecs)

/-! ## The root index -/

def rebuildRootIndex : AppM Unit := do
  let entries ← withReader scan
  modify fun a => { a with rootIndex := some (buildIndex H entries) }

def ensureRootIndex : AppM Unit := do
  if (← get).rootIndex.isNone then rebuildRootIndex H

def storeStateRoot : AppM Unit := do
  ensureRootIndex H
  let index ← unwrap (← get).rootIndex
  withWriter H (c.stateRootItem.save (rootWithPending H index ∅))

def computeStateRoot : AppM Digest := withReader (stateRootOver H)

/-! ## Start -/

/-- What `load_from_storage` reads. -/
def loadState : StorageM PlusError (Option AppState × Option BlockInfo) := do
  let block ← c.lastBlock.mayLoad
  let state ← prefixed namespaceApp c.appStateItem.mayLoad
  pure (state, block)

def loadFromStorage (a : App) : Option (Except AppLoadError Unit × App) :=
  let a := { a with rootIndex := none }
  match exec (reader a.storage.backend) (loadState c) .infinite a.storage.data with
  | none => none
  | some (_, .error e, _) => some (.error (.invalidState e.display), a)
  | some (_, .ok (some state, some block), _) =>
    some (.ok (), { a with data := some ⟨block, state.chainId, state.params⟩ })
  | some (_, .ok _, _) => some (.error .noStoredState, a)

structure InitChainRequest where
  time : Nat
  chainId : String
  params : BlockParams
  appState : Bytes
  initialHeight : Nat

/-- `app_hash`: the stored state root, or the store's own hash. -/
def App.appHash (a : App) : Option Bytes :=
  match exec (reader a.storage.backend) (c.stateRootItem.mayLoad : StorageM PlusError _) .infinite
      a.storage.data with
  | none => none
  | some (_, .ok (some root), _) => some root.bytes
  | some _ => some a.storage.appHash

/-- `item.may_load(&reader, &meter).ok().flatten()` on the committed store. -/
def App.readItem {α : Type} (i : Item α) (a : App) : Option α :=
  match exec (reader a.storage.backend) (i.mayLoad : StorageM PlusError _) .infinite
      a.storage.data with
  | some (_, .ok value, _) => value
  | _ => none

def App.stateRoot (a : App) : Option Digest := a.readItem c.stateRootItem

def App.getBlockPayload (a : App) (height : Nat) : Option Bytes := a.readItem (c.blockPayload height)

def App.info (a : App) : Option BlockInfo := a.data.map InnerData.block

variable {Tx Msg Data Genesis : Type} (logic : StateMachine Tx Msg Data Genesis)

/-- Everything `init` writes. -/
def writeGenesis (request : InitChainRequest) (lastBlock : BlockInfo) :
    StorageM PulsarError Unit := do
  let genesis ← Comp.ofExcept (logic.parseGenesis request.appState)
  logic.init lastBlock genesis
  c.lastBlock.save lastBlock
  prefixed namespaceApp (c.appStateItem.save ⟨request.chainId, request.params⟩)

/-- Genesis; the result is the app hash. -/
def init (request : InitChainRequest) : AppM Bytes := do
  let lastBlock : BlockInfo := ⟨request.initialHeight - 1, request.time, request.chainId⟩
  withWriter H (writeGenesis c logic request lastBlock)
  -- the writes of genesis went past the tracker
  modify fun a => { a with
    data := some ⟨lastBlock, request.chainId, request.params⟩, rootIndex := none }
  storeStateRoot H c
  unwrap ((← get).appHash c)

/-! ## Blocks -/

def maxBeginBlockGas : Nat := 10000000

def maxEndBlockGas : Nat := 10000000

def blockGasMeter (params : BlockParams) : GasMeter :=
  match params.maxGas with
  | some limit => .new limit
  | none => .infinite

def executeTxs (block : BlockInfo) : List Tx → StorageM PulsarError (List (TxResult Data))
  | [] => pure []
  | tx :: rest => do
    let result ← executeTx logic block tx
    let results ← executeTxs block rest
    pure (result :: results)

/-- The block up to the state root. The meter at the end is infinite; the
three phases have their own. -/
def runBlock (fullBlock : Block Tx) (block : BlockInfo) (params : BlockParams)
    (payload : Option Bytes) : StorageM PulsarError (List Event × List (TxResult Data)) := do
  let events ← withMeter (.new maxBeginBlockGas) (logic.beginBlock fullBlock)
  let events ← Comp.ofExcept events.1
  let txResults ← withMeter (blockGasMeter params) (executeTxs logic block fullBlock.txs)
  let txResults ← Comp.ofExcept txResults.1
  let endEvents ← withMeter (.new maxEndBlockGas) (logic.endBlock block)
  let endEvents ← Comp.ofExcept endEvents.1
  c.lastBlock.save block
  match payload with
  | some bytes => (c.blockPayload block.height).save bytes
  | none => pure ()
  pure (events ++ endEvents, txResults)

structure FinalizeBlockResponse (Data : Type) where
  events : List Event
  txResults : List (TxResult Data)
  appHash : Bytes

/-- After the commit: fold the block's writes into the index, move on. -/
def closeBlock (block : BlockInfo) (dirty : Dirty) (a : App) : App :=
  { a with
    rootIndex := a.rootIndex.map fun index => foldDirty H index dirty
    data := a.data.map fun d => { d with block } }

/-- A block goes one height up and not back in time. -/
def checkBlock (block oldBlock : BlockInfo) : AppM Unit :=
  if oldBlock.height = u64Max then crash
  else if block.height ≠ oldBlock.height + 1 then
    throw (.badBlockHeight block.height oldBlock.height)
  else if block.time < oldBlock.time then
    throw (.descendingBlockTime oldBlock.time block.time)
  else pure ()

/-- A simulated block is dropped here. -/
def commitBlock (commit : Bool) (block : BlockInfo) (s : BlockState) (m : GasMeter) : AppM Unit :=
  if commit then do
    commitWriter H s.2 m ()
    modify (closeBlock H block s.1)
  else pure ()

def finalizeBlockImpl (fullBlock : Block Tx) (payload : Option Bytes) (commit : Bool) :
    AppM (FinalizeBlockResponse Data) := do
  let data ← unwrap (← get).data
  let block : BlockInfo := ⟨fullBlock.height, fullBlock.time, data.chainId⟩
  checkBlock block data.block
  ensureRootIndex H
  let a ← get
  let (out, s, m) ←
    runTracked (runBlock c logic fullBlock block data.params payload) (∅, a.storage.writer) .infinite
  let index ← unwrap a.rootIndex
  let root := rootWithPending H index s.1
  let ((), s, m) ← runTracked (c.stateRootItem.save root) s m
  commitBlock H commit block s m
  pure ⟨out.1, out.2, root.bytes⟩

def finalizeBlockWithPayload (fullBlock : Block Tx) (payload : Option Bytes) :
    AppM (FinalizeBlockResponse Data) := finalizeBlockImpl H c logic fullBlock payload true

def finalizeBlock (fullBlock : Block Tx) : AppM (FinalizeBlockResponse Data) :=
  finalizeBlockWithPayload H c logic fullBlock none

def simulateFinalizeBlock (fullBlock : Block Tx) : AppM (FinalizeBlockResponse Data) :=
  finalizeBlockImpl H c logic fullBlock none false

/-! ## Records beside the consensus state -/

def setBlockCertificate (height : Nat) (certificate : Bytes) : AppM Unit :=
  withWriter H ((c.blockCertificate height).save certificate)

def setBlockProposal (height : Nat) (proposal : Bytes) : AppM Unit :=
  withWriter H ((c.blockProposal height).save proposal)

def setBlockTimestamp (height timestampNanos : Nat) : AppM Unit :=
  withWriter H ((c.blockTimestamp height).save timestampNanos)

def setBlockFinality (height : Nat) (certificate proposal : Bytes) (timestampNanos : Nat) :
    AppM Unit :=
  withWriter H do
    (c.blockCertificate height).save certificate
    (c.blockProposal height).save proposal
    (c.blockTimestamp height).save timestampNanos

def setBlockPayload (height : Nat) (payload : Bytes) : AppM Unit :=
  withWriter H ((c.blockPayload height).save payload)

def setTxResponse (txhash : String) (encoded : Bytes) : AppM Unit :=
  withWriter H ((c.txResponse txhash).save encoded)

/-- Remove the listed records; the result is their number. -/
def removeRecords : List (Item Bytes) → StorageM PulsarError Nat
  | [] => pure 0
  | i :: rest => do
    i.remove
    let removed ← removeRecords rest
    pure (removed + 1)

/-- The items of the heights under each of two kinds, height by height. -/
def recordsAt (kinds : String × String) (heights : List Nat) : List (Item Bytes) :=
  heights.flatMap fun h => [c.record kinds.1 (Nat.repr h), c.record kinds.2 (Nat.repr h)]

def pruneSidecars (heights : List Nat) (txhashes : List String) (newFloor : Nat) : AppM Nat :=
  withWriter H do
    let removed ← removeRecords (recordsAt c ("_payload/", "_ts/") heights ++
      txhashes.map c.txResponse)
    c.pruneFloor.save newFloor
    pure removed

def pruneFinality (heights : List Nat) (newFloor : Nat) : AppM Nat :=
  withWriter H do
    let removed ← removeRecords (recordsAt c ("_cert/", "_proposal/") heights)
    c.finalityPruneFloor.save newFloor
    pure removed

/-! ## Snapshots -/

def setRecords : List Record → StorageM PulsarError Unit
  | [] => pure ()
  | (k, v) :: rest => do
    Storage.set k v
    setRecords rest

def writeSnapshot (block : BlockInfo) (records : List Record) (tipPayload : Bytes) :
    StorageM PulsarError Unit := do
  setRecords records
  c.lastBlock.save block
  (c.blockPayload block.height).save tipPayload

/-- `load_from_storage` with its error as the import reports it. -/
def loadImported : AppM Unit := ofFun fun a =>
  (loadFromStorage c a).map fun (r, a') =>
    (r.mapError fun e => .std (.genericErr ("snapshot import: state load failed: " ++ e.display)),
      a')

def snapshotImport (block : BlockInfo) (records : List Record) (expectedRoot : Digest)
    (tipPayload : Bytes) : AppM Unit :=
  if verifySnapshotRoot H records expectedRoot then do
    withWriter H (writeSnapshot c block records tipPayload)
    loadImported c
    -- the imported writes went past the tracker
    modify fun a => { a with rootIndex := none }
    storeStateRoot H c
  else throw (.std (.genericErr "snapshot root mismatch — refusing to adopt state"))

/-! ## Runs -/

/-- A call from outside, with its arguments. -/
inductive AppCall (Tx : Type) where
  | loadFromStorage
  | init (request : InitChainRequest)
  | finalizeBlock (fullBlock : Block Tx) (payload : Option Bytes)
  | simulateFinalizeBlock (fullBlock : Block Tx)
  | setBlockCertificate (height : Nat) (certificate : Bytes)
  | setBlockProposal (height : Nat) (proposal : Bytes)
  | setBlockTimestamp (height timestampNanos : Nat)
  | setBlockFinality (height : Nat) (certificate proposal : Bytes) (timestampNanos : Nat)
  | setBlockPayload (height : Nat) (payload : Bytes)
  | setTxResponse (txhash : String) (encoded : Bytes)
  | pruneSidecars (heights : List Nat) (txhashes : List String) (newFloor : Nat)
  | pruneFinality (heights : List Nat) (newFloor : Nat)
  | snapshotImport (block : BlockInfo) (records : List Record) (expectedRoot : Digest)
      (tipPayload : Bytes)

/-- The application after a call that did not panic, whatever it returned. -/
def AppCall.apply (call : AppCall Tx) (a : App) : Option App :=
  match call with
  | .loadFromStorage => (LayerSdk.loadFromStorage c a).map Prod.snd
  | .init request => (FailState.exec (LayerSdk.init H c logic request) a).map Prod.snd
  | .finalizeBlock fullBlock payload =>
    (FailState.exec (finalizeBlockWithPayload H c logic fullBlock payload) a).map Prod.snd
  | .simulateFinalizeBlock fullBlock =>
    (FailState.exec (LayerSdk.simulateFinalizeBlock H c logic fullBlock) a).map Prod.snd
  | .setBlockCertificate height certificate =>
    (FailState.exec (LayerSdk.setBlockCertificate H c height certificate) a).map Prod.snd
  | .setBlockProposal height proposal =>
    (FailState.exec (LayerSdk.setBlockProposal H c height proposal) a).map Prod.snd
  | .setBlockTimestamp height timestampNanos =>
    (FailState.exec (LayerSdk.setBlockTimestamp H c height timestampNanos) a).map Prod.snd
  | .setBlockFinality height certificate proposal timestampNanos =>
    (FailState.exec (LayerSdk.setBlockFinality H c height certificate proposal timestampNanos)
      a).map Prod.snd
  | .setBlockPayload height payload =>
    (FailState.exec (LayerSdk.setBlockPayload H c height payload) a).map Prod.snd
  | .setTxResponse txhash encoded =>
    (FailState.exec (LayerSdk.setTxResponse H c txhash encoded) a).map Prod.snd
  | .pruneSidecars heights txhashes newFloor =>
    (FailState.exec (LayerSdk.pruneSidecars H c heights txhashes newFloor) a).map Prod.snd
  | .pruneFinality heights newFloor =>
    (FailState.exec (LayerSdk.pruneFinality H c heights newFloor) a).map Prod.snd
  | .snapshotImport block records expectedRoot tipPayload =>
    (FailState.exec (LayerSdk.snapshotImport H c block records expectedRoot tipPayload)
      a).map Prod.snd

def runCalls : List (AppCall Tx) → App → Option App
  | [], a => some a
  | call :: rest, a => (call.apply H c logic a).bind (runCalls rest)

end Operations

end LayerSdk
