import LayerSdk.ExecuteTx
import LayerSdk.Leb128

/-!
# Accounts and messages

What the keepers exchange: addresses, the node's own message format, the
messages a contract returns, and the texts of the errors, which a contract
that catches one gets to read.

The bech32 crate is a parameter.
-/

namespace LayerSdk

/-! ## Addresses -/

/-- The bech32 crate. `decode` splits a text into its human-readable part, the
data without the checksum, and whether it is plain bech32; `fromBase32` fails
on bad padding; `encode` writes an address with the chain's own prefix. -/
structure Bech32 where
  decode : String → Except String (String × List UInt8 × Bool)
  fromBase32 : List UInt8 → Option Bytes
  encode : Bytes → String

def bech32Prefix : String := "juno"

/-- Valid lengths of decoded addresses. -/
def validAddrLength : List Nat := [20, 32]

structure AccountId where
  bytes : Bytes
  valid : bytes.length ∈ validAddrLength
deriving DecidableEq

namespace AccountId

theorem ext_bytes {a b : AccountId} (h : a.bytes = b.bytes) : a = b := by
  cases a
  cases b
  simpa using h

theorem length_le (a : AccountId) : a.bytes.length ≤ 0xFFFF := by
  have h := a.valid
  simp only [validAddrLength, List.mem_cons, List.not_mem_nil, or_false] at h
  omega

def new (raw : Bytes) : Except AccountIdError AccountId :=
  if h : raw.length ∈ validAddrLength then .ok ⟨raw, h⟩ else .error (.invalidLength raw.length)

/-- `none` is the panic of `from_base32(..).unwrap()` on bad padding. -/
def parseString (B : Bech32) (encoded : String) : Option (Except AccountIdError AccountId) :=
  match B.decode encoded with
  | .error msg => some (.error (.bech32 msg))
  | .ok (hrp, data, plain) =>
    if plain = false then some (.error .invalidVariant)
    else if hrp ≠ bech32Prefix then some (.error (.invalidPrefix hrp bech32Prefix))
    else (B.fromBase32 data).map new

/-- `to_string`. -/
def display (B : Bech32) (a : AccountId) : String := B.encode a.bytes

end AccountId

def rootAccount : AccountId :=
  ⟨[0x0d, 0xa0, 0x1d, 0xa0, 0x2d, 0xa0, 0x3d, 0xa0, 0x4d, 0xa0, 0x5d, 0xa0, 0x6d, 0xa0, 0x7d, 0xa0,
    0x8d, 0xa0, 0x9d, 0xa0], by decide⟩

/-! ## The node's messages -/

/-- The amount is a `Uint128`. -/
structure Coin where
  denom : String
  amount : Nat
deriving DecidableEq, Repr

inductive BankMsg where
  | send (sender recipient : AccountId) (amount : List Coin)
  | burn (sender : AccountId) (amount : List Coin)
deriving DecidableEq

inductive WasmMsg where
  | storeCode (sender : AccountId) (code : Bytes)
  | execute (sender contractAddr : AccountId) (msg : Bytes) (funds : List Coin)
  | instantiate (sender : AccountId) (admin : Option AccountId) (codeId : Nat) (msg : Bytes)
      (funds : List Coin) (label : String)
  | instantiate2 (sender : AccountId) (admin : Option AccountId) (codeId : Nat) (label : String)
      (msg : Bytes) (funds : List Coin) (salt : Bytes)
  | migrate (sender contractAddr : AccountId) (newCodeId : Nat) (msg : Bytes)
  | updateAdmin (sender contractAddr admin : AccountId)
  | clearAdmin (sender contractAddr : AccountId)
  | sudoContract (sender contractAddr : AccountId) (msg : Bytes)
  | pin (sender : AccountId) (codeId : Nat)
  | unpin (sender : AccountId) (codeId : Nat)
deriving DecidableEq

inductive IbcMsg where
  | createClient (sender : AccountId) (clientId chainId : String) (latestHeight : Nat)
  | updateClient (sender : AccountId) (clientId : String) (height : Nat)
  | connectionOpenInit (sender : AccountId)
      (clientId connectionId counterpartyClientId counterpartyConnectionId : String)
      (counterpartyPrefix : String)
  | connectionOpenAck (sender : AccountId) (connectionId counterpartyConnectionId : String)
      (proof : Bytes) (proofHeight : Nat)
  | channelOpenInit (sender : AccountId) (portId channelId connectionId : String)
      (counterpartyPortId counterpartyChannelId ordering version : String)
  | channelOpenAck (sender : AccountId) (portId channelId : String)
      (counterpartyChannelId counterpartyVersion : String) (proof : Bytes) (proofHeight : Nat)
  | transfer (sender : AccountId) (portId channelId : String) (token : Coin) (receiver : String)
      (timeoutHeight timeoutTimestamp : Nat)
  | acknowledgement (sender : AccountId) (portId channelId : String) (sequence : Nat)
      (acknowledgement proof : Bytes) (proofHeight : Nat)
  | timeout (sender : AccountId) (portId channelId : String) (sequence : Nat) (proof : Bytes)
      (proofHeight : Nat)
deriving DecidableEq

inductive Msg where
  | bank (msg : BankMsg)
  | wasm (msg : WasmMsg)
  | ibc (msg : IbcMsg)
deriving DecidableEq

/-- Which address must sign the message for it to be valid. -/
def Msg.requiredSigner : Msg → AccountId
  | .bank (.send sender ..) => sender
  | .bank (.burn sender ..) => sender
  | .wasm (.storeCode sender ..) => sender
  | .wasm (.execute sender ..) => sender
  | .wasm (.instantiate sender ..) => sender
  | .wasm (.instantiate2 sender ..) => sender
  | .wasm (.migrate sender ..) => sender
  | .wasm (.updateAdmin sender ..) => sender
  | .wasm (.clearAdmin sender ..) => sender
  | .wasm (.sudoContract sender ..) => sender
  | .wasm (.pin sender ..) => sender
  | .wasm (.unpin sender ..) => sender
  | .ibc (.createClient sender ..) => sender
  | .ibc (.updateClient sender ..) => sender
  | .ibc (.connectionOpenInit sender ..) => sender
  | .ibc (.connectionOpenAck sender ..) => sender
  | .ibc (.channelOpenInit sender ..) => sender
  | .ibc (.channelOpenAck sender ..) => sender
  | .ibc (.transfer sender ..) => sender
  | .ibc (.acknowledgement sender ..) => sender
  | .ibc (.timeout sender ..) => sender

/-- `Itertools::dedup`: drops repetitions of the element before. -/
def dedup {α : Type} [DecidableEq α] : List α → List α
  | [] => []
  | [x] => [x]
  | x :: y :: rest => if x = y then dedup (y :: rest) else x :: dedup (y :: rest)

/-- The one signer all messages need. -/
def requiredSigner (msgs : List Msg) : Except MsgError AccountId :=
  match dedup (msgs.map Msg.requiredSigner) with
  | [] => .error .noMessages
  | [signer] => .ok signer
  | _ :: _ :: _ => .error .multipleSigners

inductive BankMsgData where
  | send
  | burn
deriving DecidableEq, Repr

inductive WasmMsgData where
  | store (codeId : Nat) (checksum : Bytes)
  | execute (data : Bytes)
  | instantiate (contract : AccountId) (data : Bytes)
  | instantiate2 (contract : AccountId) (data : Bytes)
  | migrate (data : Bytes)
  | sudoContract (data : Bytes)
  | updateAdmin
  | clearAdmin
  | pinCode
  | unpinCode
deriving DecidableEq

inductive IbcMsgData where
  | createClient (clientId : String)
  | updateClient
  | connectionOpenInit
  | connectionOpenAck
  | channelOpenInit
  | channelOpenAck
  | transfer (sequence : Nat)
  | acknowledgement
  | timeout
deriving DecidableEq, Repr

inductive MsgData where
  | wasm (data : WasmMsgData)
  | bank (data : BankMsgData)
  | ibc (data : IbcMsgData)
deriving DecidableEq

/-- Overwrites the data field, where there is one. -/
def setDataField (newData : Bytes) : MsgData → MsgData
  | .wasm (.execute _) => .wasm (.execute newData)
  | .wasm (.instantiate contract _) => .wasm (.instantiate contract newData)
  | .wasm (.instantiate2 contract _) => .wasm (.instantiate2 contract newData)
  | .wasm (.migrate _) => .wasm (.migrate newData)
  | .wasm (.sudoContract _) => .wasm (.sudoContract newData)
  | data => data

/-! ## What a contract returns -/

inductive ReplyOn where
  | always
  | error
  | success
  | never
deriving DecidableEq, Repr

/-- `cosmwasm_std::BankMsg`; `other` is a variant the node does not know, with
the text of its discriminant. -/
inductive CwBankMsg where
  | send (toAddress : String) (amount : List Coin)
  | burn (amount : List Coin)
  | other (kind : String)
deriving DecidableEq

/-- `cosmwasm_std::WasmMsg`. -/
inductive CwWasmMsg where
  | execute (contractAddr : String) (msg : Bytes) (funds : List Coin)
  | instantiate (admin : Option String) (codeId : Nat) (msg : Bytes) (funds : List Coin)
      (label : String)
  | instantiate2 (admin : Option String) (codeId : Nat) (label : String) (msg : Bytes)
      (funds : List Coin) (salt : Bytes)
  | migrate (contractAddr : String) (msg : Bytes) (newCodeId : Nat)
  | updateAdmin (contractAddr admin : String)
  | clearAdmin (contractAddr : String)
  | other (kind : String)
deriving DecidableEq

inductive CustomRootMsg where
  | sudoContract (contractAddr : String) (msg : Bytes)
  | migrate (contractAddr : String) (newCodeId : Nat) (msg : Bytes)
  | updateAdmin (contractAddr admin : String)
  | clearAdmin (contractAddr : String)
  | pin (codeId : Nat)
  | unpin (codeId : Nat)
deriving DecidableEq

inductive CosmosMsg where
  | bank (msg : CwBankMsg)
  | wasm (msg : CwWasmMsg)
  | custom (msg : CustomRootMsg)
  | stargate (typeUrl : String)
  | any (typeUrl : String)
  | other (kind : String)
deriving DecidableEq

structure SubMsg where
  id : Nat
  payload : Bytes
  msg : CosmosMsg
  gasLimit : Option Nat
  replyOn : ReplyOn
deriving DecidableEq

/-- `cosmwasm_std::Response`. -/
structure CwResponse where
  messages : List SubMsg
  attributes : List (String × String)
  events : List Event
  data : Option Bytes
deriving DecidableEq

/-- A `SubMsgResponse`; a message response is its type and value. -/
structure SubMsgResponse where
  events : List Event
  data : Option Bytes
  msgResponses : List (String × Bytes)
deriving DecidableEq

structure Reply where
  id : Nat
  payload : Bytes
  gasUsed : Nat
  result : Except String SubMsgResponse
deriving DecidableEq

/-! ## Response data as protobuf -/

/-- A proto3 field; the default is left out. -/
def protoBytes (field : Nat) (data : Bytes) : Bytes :=
  if data = [] then []
  else Leb128.encode (field * 8 + 2) ++ Leb128.encode data.length ++ data

def protoUint (field v : Nat) : Bytes :=
  if v = 0 then [] else Leb128.encode (field * 8) ++ Leb128.encode v

/-- For those that have no Cosmos message of their own. -/
def unknownCosmwasmResponse : String × Bytes := ("/cosmos.bank.v1beta1.MsgSend", [])

def encodeCosmwasmResponse (B : Bech32) (ibcJson : IbcMsgData → Bytes) :
    MsgData → String × Bytes
  | .bank .send => ("/cosmos.bank.v1beta1.MsgSendResponse", [])
  | .bank .burn => unknownCosmwasmResponse
  | .wasm (.store codeId checksum) =>
    ("/cosmwasm.wasm.v1.MsgStoreCodeResponse", protoUint 1 codeId ++ protoBytes 2 checksum)
  | .wasm (.execute data) => ("/cosmwasm.wasm.v1.MsgExecuteContractResponse", protoBytes 1 data)
  | .wasm (.instantiate contract data) =>
    ("/cosmwasm.wasm.v1.MsgInstantiateContractResponse",
      protoBytes 1 (str (contract.display B)) ++ protoBytes 2 data)
  | .wasm (.instantiate2 contract data) =>
    ("/cosmwasm.wasm.v1.MsgInstantiateContract2Response",
      protoBytes 1 (str (contract.display B)) ++ protoBytes 2 data)
  | .wasm (.migrate data) => ("/cosmwasm.wasm.v1.MsgMigrateContractResponse", protoBytes 1 data)
  | .wasm .updateAdmin => ("/cosmwasm.wasm.v1.MsgUpdateAdminResponse", [])
  | .wasm .clearAdmin => ("/cosmwasm.wasm.v1.MsgClearAdminResponse", [])
  | .wasm (.sudoContract _) => unknownCosmwasmResponse
  | .wasm .pinCode => unknownCosmwasmResponse
  | .wasm .unpinCode => unknownCosmwasmResponse
  | .ibc data => ("/junoclaw.ibc.v1.MsgResponse", ibcJson data)

/-- `maybe_binary`. -/
def maybeBinary (data : Bytes) : Option Bytes := if data = [] then none else some data

/-! ## Texts of errors -/

def AccountIdError.display : AccountIdError → String
  | .bech32 msg => "Bech32: " ++ msg
  | .invalidVariant => "Invalid variant: bech32m"
  | .invalidPrefix got expected => "Invalid prefix: " ++ got ++ " expected " ++ expected
  | .invalidLength len => "Invalid address size: " ++ Nat.repr len ++ " bytes"

def AuthError.display (B : Bech32) : AuthError → String
  | .invalidSignature => "Invalid Signature"
  | .accountExists account =>
    "Cannot create account " ++ B.encode account ++ ", one already exists at this address"

def BankError.display : BankError → String
  | .insufficientFunds account => "Account " ++ account ++ " has insufficient funds"
  | .unsupportedQuery msg => "Unsupported bank query: " ++ msg
  | .noEmptyTransfer => "Cannot transfer empty coins amount"
  | .unauthorized => "Cannot transfer funds from another account"
  | .duplicateDenom denom => "Bank amount contains the same denomination twice: " ++ denom
  | .reinitializeExistingAccount account =>
    "Initializing bank account on existing account: " ++ account

def Instantiate2AddressError.display : Instantiate2AddressError → String
  | .invalidSaltLength => "invalid salt length"

def WasmError.display : WasmError → String
  | .senderMismatch => "Cannot send message as another account"
  | .unauthorized => "Unauthorized action"
  | .invalidAttributeKey key => "Used an invalid key in an event attribute: " ++ key
  | .vm msg => "VmError: " ++ msg
  | .contract msg => "Contract Error: " ++ msg
  | .instantiate2Error e => "Instantiate2: " ++ e.display
  | .checksum => "Invalid Checksum, must be 32 bytes"
  | .subMsgNotSupported => "Tried to return SubMsg in sandboxed contract call"
  | .notRoot => "Only root contract call call custom messages"
  | .unsupportedCosmosMsg kind => "Unsupported CosmosMsg type: " ++ kind

def IbcError.display : IbcError → String
  | .clientExists id => "client already exists: " ++ id
  | .clientNotFound id => "client not found: " ++ id
  | .connectionExists id => "connection already exists: " ++ id
  | .connectionNotFound id => "connection not found: " ++ id
  | .connectionNotOpen id => "connection not open: " ++ id
  | .channelExists port channel => "channel already exists: " ++ port ++ "/" ++ channel
  | .channelNotFound port channel => "channel not found: " ++ port ++ "/" ++ channel
  | .channelNotOpen port channel => "channel not open: " ++ port ++ "/" ++ channel
  | .invalidState object expected found =>
    "invalid state transition for " ++ object ++ ": expected " ++ expected ++ ", found " ++ found
  | .unauthorized signer => "signer " ++ signer ++ " is not authorized for this message"
  | .invalidCommitment => "invalid packet commitment"
  | .invalid msg => msg

def MsgError.display : MsgError → String
  | .std e => e.display
  | .unsupportedAnyType url => "Unsupported Any type: " ++ url
  | .noMessages => "Tx doesn't have any messages"
  | .multipleSigners => "Tx requires signatures from multiple addresses - not supported"
  | .addr e => e.display
  | .parseError msg => "Parse: " ++ msg

def TxError.display : TxError → String
  | .msg e => e.display
  | .noSigner => "No signer on the tx"
  | .multipleSigners => "More than one signer on this tx"
  | .multipleFeeDenoms => "Trying to pay fees in multiple denoms, we allow only 1"
  | .unsupportedPubKey kind => "No support for complex pubkey types: " ++ kind
  | .unsupportedSigningMode mode => "No support for signing mode: " ++ mode
  | .extensionsNotSupported => "Tx extensions present but not supported"
  | .feeGrantNotSupported => "Fee grant field used but not supported"
  | .feePayerNotSupported => "Fee payer field used but not supported"
  | .missingPubKey => "No public key provided to validate the signature"
  | .invalidSignature => "The signature doesn't match the claimed pubkey and the message hash"
  | .invalidSequence provided expected =>
    "The provided sequence " ++ Nat.repr provided ++ " doesn't match, expected " ++
      Nat.repr expected
  | .pubKeyMismatch => "PubKey provided in the tx doesn't match the pubkey of the sender account"
  | .pubKeyMissing => "The first transaction provided by an account must contain the pubkey"
  | .internalAcccount => "Cannot execute an external transaction from an internal account"
  | .smartAccountSigner => "Smart accounts cannot sign transactions directly"
  | .txExpired timeoutHeight height =>
    "Tx expired: timeout_height " ++ Nat.repr timeoutHeight ++ " passed at height " ++
      Nat.repr height
  | .parseError text => "Parse: " ++ text
  | .insufficientFee required provided denom gasWanted =>
    "Insufficient fee: required at least " ++ Nat.repr required ++ denom ++ " for " ++
      Nat.repr gasWanted ++ " gas, provided " ++ Nat.repr provided

/-- `to_string`. -/
def PulsarError.display (B : Bech32) : PulsarError → String
  | .std e => e.display
  | .auth e => e.display B
  | .accountId e => e.display
  | .bank e => e.display
  | .wasm e => e.display
  | .ibc e => e.display
  | .tx e => e.display
  | .gas e => e.display
  | .badBlockHeight got previous =>
    "Unexpected block height. Got " ++ Nat.repr got ++ ", previous " ++ Nat.repr previous
  | .descendingBlockTime got previous =>
    "Descending block time. Got " ++ Nat.repr got ++ ", previous " ++ Nat.repr previous
  | .exceedsRemainingBlockGas requested remaining =>
    "Tx requested more gas than remaining in block. Requested " ++ Nat.repr requested ++
      ", remaining " ++ Nat.repr remaining

end LayerSdk
