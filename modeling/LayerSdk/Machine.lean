import LayerSdk.Ibc

/-!
# The state machine

The keepers put together. `sm E n` answers the calls the keepers make to each
other with `n` levels of them left; a transaction runs at some depth, that of
the native stack, and what is proved later holds at every depth.
-/

namespace LayerSdk

open EffectProg

variable (E : Externals)

/-- `StateMachine::process_msg`: each keeper works through a meter. -/
def processMsgOn (sm : Sm) (sender : AccountId) (block : BlockInfo) :
    Msg → StorageM PulsarError MsgResult
  | .bank msg => Comp.under appMeter (Bank.processMsg E sm block sender msg)
  | .wasm msg => Comp.under appMeter (Wasm.processMsg E sm block sender msg)
  | .ibc msg => Comp.under appMeter (Ibc.processMsg E sm block sender msg)

/-- The state machine with some levels of calls left. -/
def sm : Nat → Sm
  | 0 => Sm.overflow
  | n + 1 =>
    { bankTransfer := Bank.transfer E (sm n)
      wasmProcessMsgNoSubmsg := Wasm.processMsgNoSubmsg E (sm n)
      processMsg := processMsgOn E (sm n)
      dispatchResponseMessages := Wasm.dispatchResponseMessages E (sm n) }

/-! ## Blocks -/

def proposerKey : Item Bytes := ⟨str "_proposer", E.codecs.bytes⟩

structure GenesisState where
  bank : List Bank.BankAccount
  govAccount : String
deriving DecidableEq, Repr

section Depth

variable (depth : Nat)

def initGenesis (block : BlockInfo) (genesis : GenesisState) : StorageM PulsarError Unit := do
  Bank.init E genesis.bank
  Wasm.init E (sm E depth) block genesis.govAccount

def validateTx (block : BlockInfo) (tx : SignedTx) : StorageM PulsarError (TxData Msg) :=
  Comp.under appMeter (Auth.validateTx E (sm E depth) block tx true)

/-- The signer of a validated transaction is an address. -/
def processMsg (signer : Bytes) (block : BlockInfo) (msg : Msg) : StorageM PulsarError MsgResult :=
  match AccountId.new signer with
  | .ok signer => processMsgOn E (sm E depth) signer block msg
  | .error e => throw (.accountId e)

def beginBlock (block : Block SignedTx) : StorageM PulsarError (List Event) := do
  (proposerKey E).save block.proposerAddress
  pure []

def feeEvent (proposer : AccountId) (distributed : List Coin) : List Event :=
  if distributed = [] then []
  else
    [⟨"fee_distribution", [("proposer", E.display proposer),
      ("amount", ", ".intercalate (distributed.map fun c => Nat.repr c.amount ++ c.denom))]⟩]

/-- The fees go to the proposer, where its address is one of an account. -/
def endBlock (block : BlockInfo) : StorageM PulsarError (List Event) := do
  let proposerBytes ← (proposerKey E).mayLoad
  match AccountId.new (proposerBytes.getD []) with
  | .error _ => pure []
  | .ok proposer => do
    let distributed ← Bank.distributeFees E (sm E depth) block feeCollectorAccount proposer
    pure (feeEvent E proposer distributed)

/-- The state machine as the app runs it. -/
def stateMachine (parseGenesis : Bytes → Except PulsarError GenesisState) :
    StateMachine SignedTx Msg MsgData GenesisState where
  txLen := SignedTx.txLen
  parseGenesis := parseGenesis
  init := initGenesis E depth
  validateTx := validateTx E depth
  processMsg := processMsg E depth
  beginBlock := beginBlock E
  endBlock := endBlock E depth

end Depth

end LayerSdk
