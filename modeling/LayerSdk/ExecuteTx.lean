import LayerSdk.Atomic

/-!
# Executing one transaction

`execute_tx` over any state machine: the validation and the messages are two
transactions on the block's storage, each with its own meter, and the block's
meter pays for both. What the state machine does with the storage is not
restricted in any way.
-/

namespace LayerSdk

open EffectProg Comp

/-! ## Transactions and their results -/

structure Event where
  ty : String
  attributes : List (String × String)
deriving DecidableEq, Repr

structure MsgResponse (Data : Type) where
  data : Data
  events : List Event
deriving DecidableEq, Repr

structure TxResponse (Data : Type) where
  data : List Data
  events : List (List Event)
deriving DecidableEq, Repr

structure GasInfo where
  gasUsed : Nat
  gasWanted : Nat
deriving DecidableEq, Repr

def GasInfo.fromMeter (m : GasMeter) : GasInfo := ⟨m.used, m.limit⟩

structure TxResult (Data : Type) where
  gas : GasInfo
  result : Except PulsarError (TxResponse Data)
deriving DecidableEq

/-- Info on a validated transaction. -/
structure TxData (Msg : Type) where
  signer : Bytes
  msgs : List Msg
  gasWanted : Nat
deriving DecidableEq, Repr

/-- A block as consensus hands it over. -/
structure Block (Tx : Type) where
  txs : List Tx
  height : Nat
  time : Nat
  proposerAddress : Bytes

/-- The `logic` of an `App`: what it calls of its state machine. -/
structure StateMachine (Tx Msg Data Genesis : Type) where
  txLen : Tx → Nat
  parseGenesis : Bytes → Except PulsarError Genesis
  init : BlockInfo → Genesis → StorageM PulsarError Unit
  validateTx : BlockInfo → Tx → StorageM PulsarError (TxData Msg)
  processMsg : Bytes → BlockInfo → Msg → StorageM PulsarError (MsgResponse Data)
  beginBlock : Block Tx → StorageM PulsarError (List Event)
  endBlock : BlockInfo → StorageM PulsarError (List Event)

def maxValidateGas : Nat := 200000

def gasCostTxByte : Nat := 10

variable {Tx Msg Data Genesis : Type} (logic : StateMachine Tx Msg Data Genesis)

/-! ## The source's function -/

/-- All messages in order, up to the first that fails. -/
def processMsgs (signer : Bytes) (block : BlockInfo) :
    List Msg → StorageM PulsarError (List (MsgResponse Data))
  | [] => pure []
  | msg :: rest => do
    let resp ← logic.processMsg signer block msg
    let resps ← processMsgs signer block rest
    pure (resp :: resps)

def collectResponses (all : List (MsgResponse Data)) : TxResponse Data :=
  ⟨all.map MsgResponse.data, all.map MsgResponse.events⟩

/-- The current meter is the block's. -/
def executeTx (block : BlockInfo) (tx : Tx) : StorageM PulsarError (TxResult Data) := do
  let txByteGas := logic.txLen tx * gasCostTxByte
  let (valRes, valMeter) ← withMeter (.new maxValidateGas) (atomic (logic.validateTx block tx))
  match valRes with
  | .error e => do
    -- a block that runs out here lets later transactions fail
    let _ ← attempt (charge valMeter.used)
    pure ⟨.fromMeter valMeter, .error e⟩
  | .ok data =>
    match (GasMeter.new data.gasWanted).charge (valMeter.used + txByteGas) with
    | (txMeter, .error e) => do
      let _ ← attempt (charge valMeter.used)
      pure ⟨.fromMeter txMeter, .error (.gas e)⟩
    | (txMeter, .ok ()) => do
      let blockMeter ← meter
      if data.gasWanted > blockMeter.remaining then
        pure ⟨.fromMeter txMeter,
          .error (.exceedsRemainingBlockGas data.gasWanted blockMeter.remaining)⟩
      else do
        let (resps, txMeter') ← withMeter txMeter
          (atomic (processMsgs logic data.signer block data.msgs))
        let _ ← attempt (charge txMeter'.used)
        pure ⟨.fromMeter txMeter', resps.map collectResponses⟩

/-! ## Its two transactions -/

variable {logic}

theorem exec_withMeter_cases {σ ε α : Type} {h : StorageObj σ} {sub m m' : GasMeter}
    {p : StorageM ε α} {s s' : σ} {r : Except ε (Except ε α × GasMeter)}
    (hexec : exec h (withMeter sub p) m s = some (s', r, m')) :
    m' = m ∧ ∃ res sub', r = .ok (res, sub') ∧ exec h p sub s = some (s', res, sub') := by
  rw [exec_withMeter] at hexec
  obtain ⟨⟨s₁, res, sub'⟩, hinner, heq⟩ := Option.map_eq_some_iff.mp hexec
  obtain ⟨rfl, rfl, rfl⟩ := heq
  exact ⟨rfl, res, sub', rfl, hinner⟩

/-- `p` succeeds as a transaction on the block's storage `s` and leaves `s'`,
which shows `s` with exactly the changes `p` has made in its overlay. -/
def Commits (b : Backend) {α : Type} (p : StorageM PulsarError α) (m : GasMeter) (s : BlockState)
    (a : α) (s' : BlockState) (m' : GasMeter) : Prop :=
  exec (trackedWriter b) (atomic p) m s = some (s', .ok a, m') ∧
    ∃ ov, exec (stack subTx (trackedWriter b)) p m (∅, s) = some ((ov, s), .ok a, m') ∧
      BlockState.view s' = applyDeltas (BlockState.view s) ov.toList

/-- A state machine with one counter per signer and messages that write one
byte each and fail on zero. A transaction is its list of messages. -/
def sampleLogic : StateMachine Bytes UInt8 Unit Unit where
  txLen tx := tx.length
  parseGenesis _ := .ok ()
  init _ _ := pure ()
  validateTx _ tx := do
    let sequence ← Storage.get [0x73]
    Storage.set [0x73] (0x01 :: sequence.getD [])
    pure ⟨[0x61], tx, 10000⟩
  processMsg signer _ msg := do
    Storage.set signer [msg]
    if msg = 0 then throw (.std (.genericErr "zero")) else pure ⟨(), []⟩
  beginBlock _ := pure []
  endBlock _ := pure []

end LayerSdk
