import LayerSdk.Plus

/-!
# Types of the application

Errors, blocks and the storage items of the application itself. Items whose
key starts with `_` are sidecar state: they take no part in the state root.
-/

namespace LayerSdk

/-! ## Errors -/

inductive AccountIdError where
  | bech32 (msg : String)
  | invalidVariant
  | invalidPrefix (got expected : String)
  | invalidLength (len : Nat)
deriving DecidableEq, Repr

inductive AuthError where
  | invalidSignature
  | accountExists (account : Bytes)
deriving DecidableEq, Repr

inductive BankError where
  | insufficientFunds (account : String)
  | unsupportedQuery (msg : String)
  | noEmptyTransfer
  | unauthorized
  | duplicateDenom (denom : String)
  | reinitializeExistingAccount (account : String)
deriving DecidableEq, Repr

inductive Instantiate2AddressError where
  | invalidSaltLength
deriving DecidableEq, Repr

inductive WasmError where
  | senderMismatch
  | unauthorized
  | invalidAttributeKey (key : String)
  | vm (msg : String)
  | contract (msg : String)
  | instantiate2Error (e : Instantiate2AddressError)
  | checksum
  | subMsgNotSupported
  | notRoot
  | unsupportedCosmosMsg (kind : String)
deriving DecidableEq, Repr

inductive IbcError where
  | clientExists (id : String)
  | clientNotFound (id : String)
  | connectionExists (id : String)
  | connectionNotFound (id : String)
  | connectionNotOpen (id : String)
  | channelExists (port channel : String)
  | channelNotFound (port channel : String)
  | channelNotOpen (port channel : String)
  | invalidState (object expected found : String)
  | unauthorized (signer : String)
  | invalidCommitment
  | invalid (msg : String)
deriving DecidableEq, Repr

inductive MsgError where
  | std (e : StdError)
  | unsupportedAnyType (url : String)
  | noMessages
  | multipleSigners
  | addr (e : AccountIdError)
  | parseError (msg : String)
deriving DecidableEq, Repr

inductive TxError where
  | msg (e : MsgError)
  | noSigner
  | multipleSigners
  | multipleFeeDenoms
  | unsupportedPubKey (kind : String)
  | unsupportedSigningMode (mode : String)
  | extensionsNotSupported
  | feeGrantNotSupported
  | feePayerNotSupported
  | missingPubKey
  | invalidSignature
  | invalidSequence (provided expected : Nat)
  | pubKeyMismatch
  | pubKeyMissing
  | internalAcccount
  | smartAccountSigner
  | txExpired (timeoutHeight height : Nat)
  | parseError (msg : String)
  | insufficientFee (required provided : Nat) (denom : String) (gasWanted : Nat)
deriving DecidableEq, Repr

inductive PulsarError where
  | std (e : StdError)
  | auth (e : AuthError)
  | accountId (e : AccountIdError)
  | bank (e : BankError)
  | wasm (e : WasmError)
  | ibc (e : IbcError)
  | tx (e : TxError)
  | gas (e : GasError)
  | badBlockHeight (got previous : Nat)
  | descendingBlockTime (got previous : Nat)
  | exceedsRemainingBlockGas (requested remaining : Nat)
deriving DecidableEq, Repr

instance : FromGas PulsarError := ⟨.gas⟩

instance : FromStd PulsarError := ⟨.std⟩

/-! ## Blocks -/

structure BlockInfo where
  height : Nat
  time : Nat
  chainId : String
deriving DecidableEq, Repr

structure BlockParams where
  maxBytes : Nat
  maxGas : Option Nat
deriving DecidableEq, Repr

structure AppState where
  chainId : String
  params : BlockParams
deriving DecidableEq, Repr

/-- A Merkle membership proof for one key of the committed state. -/
structure StateProof where
  stateHeight : Nat
  key : Bytes
  value : Bytes
  leafIndex : Nat
  siblings : List (Option Digest)
deriving DecidableEq

/-! ## Items -/

/-- The serialisers of what the application stores. -/
structure AppCodecs where
  blockInfo : JsonCodec BlockInfo
  appState : JsonCodec AppState
  bytes : JsonCodec Bytes
  number : JsonCodec Nat
  digest : JsonCodec Digest

def namespaceApp : Bytes := str "app"

namespace AppCodecs

variable (c : AppCodecs)

def appStateItem : Item AppState := ⟨str "state", c.appState⟩

def lastBlock : Item BlockInfo := ⟨str "_last_block", c.blockInfo⟩

def stateRootItem : Item Digest := ⟨str "_state_root", c.digest⟩

def pruneFloor : Item Nat := ⟨str "_prune_floor", c.number⟩

def finalityPruneFloor : Item Nat := ⟨str "_finality_prune_floor", c.number⟩

/-- The records kept per height or per transaction hash. -/
def record (kind suffix : String) : Item Bytes := ⟨str (kind ++ suffix), c.bytes⟩

def blockCertificate (height : Nat) : Item Bytes := c.record "_cert/" (Nat.repr height)

def blockProposal (height : Nat) : Item Bytes := c.record "_proposal/" (Nat.repr height)

def blockPayload (height : Nat) : Item Bytes := c.record "_payload/" (Nat.repr height)

def txResponse (txhash : String) : Item Bytes := c.record "_txres/" txhash

def blockTimestamp (height : Nat) : Item Nat := ⟨str ("_ts/" ++ Nat.repr height), c.number⟩

/-! The texts of these types, and a closed environment that knows finitely many
values. -/

def blockInfoJson (b : BlockInfo) : Bytes :=
  objectJson [("height", numberJson b.height), ("time", quoted (numberJson b.time)),
    ("chain_id", quoted (str b.chainId))]

def appStateJson (s : AppState) : Bytes :=
  objectJson [("chain_id", quoted (str s.chainId)),
    ("params", objectJson [("max_bytes", numberJson s.params.maxBytes),
      ("max_gas", optionJson numberJson s.params.maxGas)])]

def ofValues (blocks : List BlockInfo) (states : List AppState) (records : List Bytes)
    (numbers : List Nat) (digests : List Digest) : AppCodecs where
  blockInfo := (WasmCodec.table (blocks.map fun x => (x, blockInfoJson x))).toJsonCodec
  appState := (WasmCodec.table (states.map fun x => (x, appStateJson x))).toJsonCodec
  bytes := (WasmCodec.table (records.map fun x => (x, byteArrayJson x))).toJsonCodec
  number := (WasmCodec.table (numbers.map fun x => (x, numberJson x))).toJsonCodec
  digest := (WasmCodec.table (digests.map fun x => (x, byteArrayJson x.bytes))).toJsonCodec

end AppCodecs

end LayerSdk
