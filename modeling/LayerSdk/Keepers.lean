import LayerSdk.Vm

/-!
# What the keepers share

The records the keepers store, what they take from outside the repository
(hashes, signatures, serialisers, the virtual machine), and the state
machine as they see it: the calls they make through `sm`.

The source is recursive through `sm`: a contract's response holds messages,
whose execution may call contracts again. Each keeper here takes the
operations of the state machine one level further down (`Sm`); `Machine` ties
the knot. The depth is that of the native stack, and a call at its end is a
panic.
-/

namespace LayerSdk

open EffectProg

/-! ## Keys and accounts -/

inductive MayoVariant where
  | mayo1
  | mayo2
  | mayo3
  | mayo5
deriving DecidableEq, Repr

def MayoVariant.toByte : MayoVariant → UInt8
  | .mayo1 => 1
  | .mayo2 => 2
  | .mayo3 => 3
  | .mayo5 => 5

def MayoVariant.fromByte (b : UInt8) : Option MayoVariant :=
  if b = 1 then some .mayo1
  else if b = 2 then some .mayo2
  else if b = 3 then some .mayo3
  else if b = 5 then some .mayo5
  else none

inductive PubKey where
  | ed25519 (pk : Bytes)
  | secp256k1 (pk : Bytes)
  | hybridSecp256k1Mayo (secp256k1 : Bytes) (mayoVariant : MayoVariant) (mayoPk : Bytes)
deriving DecidableEq, Repr

/-- Hashes and signature checks; a check that returns an error is `none`. -/
structure Crypto where
  sha256 : Bytes → Digest
  ripemd160 : Bytes → Bytes
  secp256k1Verify : Bytes → Bytes → Bytes → Option Bool
  ed25519Verify : Bytes → Bytes → Bytes → Option Bool
  mayoVerify : MayoVariant → Bytes → Bytes → Bytes → Option Bool

namespace PubKey

def hybridAccountDomain : Bytes := str "junoclaw-hybrid-v1"

def secp256k1SigBytes : Nat := 64

/-- `[variant][secp_len][secp pk][mayo pk]`; a key longer than a byte can say has none. -/
def toHybridAnyBytes : PubKey → Option Bytes
  | hybridSecp256k1Mayo secp variant mayoPk =>
    if secp.length < 256 then
      some (variant.toByte :: UInt8.ofNat secp.length :: (secp ++ mayoPk))
    else none
  | _ => none

def fromHybridAnyBytes : Bytes → Option PubKey
  | variant :: secpLen :: rest => do
    let variant ← MayoVariant.fromByte variant
    if rest.length < secpLen.toNat then none
    else
      let secp := rest.take secpLen.toNat
      let mayoPk := rest.drop secpLen.toNat
      if secp = [] ∨ mayoPk = [] then none else some (hybridSecp256k1Mayo secp variant mayoPk)
  | _ => none

def validateSignature (c : Crypto) (messageHash signature : Bytes) : PubKey → Except TxError Unit
  | secp256k1 pk =>
    if c.secp256k1Verify messageHash signature pk = some true then .ok ()
    else .error .invalidSignature
  | hybridSecp256k1Mayo secp variant mayoPk =>
    if signature.length < secp256k1SigBytes then .error .invalidSignature
    else if c.secp256k1Verify messageHash (signature.take secp256k1SigBytes) secp = some true ∧
        c.mayoVerify variant messageHash (signature.drop secp256k1SigBytes) mayoPk = some true then
      .ok ()
    else .error .invalidSignature
  | ed25519 pk =>
    if c.ed25519Verify messageHash signature pk = some true then .ok ()
    else .error .invalidSignature

def accountId (c : Crypto) (k : PubKey) : Except AccountIdError AccountId :=
  match k with
  | secp256k1 pk => AccountId.new (c.ripemd160 (c.sha256 pk).bytes)
  | hybridSecp256k1Mayo secp _ _ =>
    match k.toHybridAnyBytes with
    | some wire => AccountId.new (c.ripemd160 (c.sha256 (hybridAccountDomain ++ wire)).bytes)
    | none => .error (.invalidLength secp.length)
  | ed25519 pk => AccountId.new ((c.sha256 pk).bytes.take 20)

end PubKey

inductive Account where
  | external (pubkey : PubKey) (sequence : Nat)
  | internal
  | smart (contract : AccountId)
deriving DecidableEq

/-! ## Records of the wasm keeper -/

structure ContractData where
  codeId : Nat
  creator : AccountId
  admin : Option AccountId
  label : String
  created : Nat
deriving DecidableEq

structure CodeInfo where
  creator : AccountId
  checksum : Bytes
  pinned : Bool
deriving DecidableEq

/-- What the bank sends to a cw20 contract. -/
inductive Cw20ExecuteMsg where
  | transfer (recipient : String) (amount : Nat)
  | burn (amount : Nat)
deriving DecidableEq, Repr

/-! ## Records of the IBC keeper -/

structure Counterparty where
  portId : String
  channelId : String
deriving DecidableEq, Repr

structure ConnectionCounterparty where
  clientId : String
  connectionId : String
  keyPrefix : Option Bytes
deriving DecidableEq, Repr

/-- `ConnectionEnd`; the state is the protobuf enumeration's number. -/
structure ConnectionEnd where
  clientId : String
  versions : List (String × List String)
  state : Nat
  counterparty : Option ConnectionCounterparty
  delayPeriod : Nat
deriving DecidableEq, Repr

structure Channel where
  state : Nat
  ordering : Nat
  counterparty : Option Counterparty
  connectionHops : List String
  version : String
deriving DecidableEq, Repr

structure Packet where
  sequence : Nat
  sourcePort : String
  sourceChannel : String
  destinationPort : String
  destinationChannel : String
  data : Bytes
  timeoutHeight : Option (Nat × Nat)
  timeoutTimestamp : Nat
deriving DecidableEq

/-- The fields `timeout` reads back from the packet data. -/
structure FungibleTokenPacketData where
  amount : String
  denom : String
  sender : String
deriving DecidableEq, Repr

/-! ## Serialisers -/

/-- `encode_to_vec` and `decode` of a protobuf message; a decoding error is its text. -/
structure ProtoCodec (α : Type) where
  encode : α → Bytes
  decode : Bytes → Except String α
  decode_encode : ∀ x, decode (encode x) = .ok x

structure KeeperCodecs where
  uint128 : JsonCodec Nat
  u64 : JsonCodec Nat
  bool : JsonCodec Bool
  empty : JsonCodec Unit
  bytes : JsonCodec Bytes
  account : JsonCodec Account
  codeInfo : JsonCodec CodeInfo
  contractData : JsonCodec ContractData
  cw20 : Cw20ExecuteMsg → Except StdError Bytes
  rootInstantiateMsg : String → Except StdError Bytes
  ibcMsgData : IbcMsgData → Bytes
  utf8Lossy : Bytes → String
  connectionEnd : ProtoCodec ConnectionEnd
  channel : ProtoCodec Channel
  packet : ProtoCodec Packet
  packetData : Bytes → Except StdError FungibleTokenPacketData

/-- Everything outside the repository. `rootWasm` is the code of the root
contract, and `doQueryRaw` answers the queries of contracts. -/
structure Externals where
  bech32 : Bech32
  crypto : Crypto
  codecs : KeeperCodecs
  vm : CwVm
  rootWasm : Bytes
  doQueryRaw : BlockInfo → Bytes → QueryM Bytes

namespace Externals

variable (E : Externals)

/-- `to_string`. -/
def display (a : AccountId) : String := a.display E.bech32

/-- `AccountId::parse_string(..)?`. -/
def parseAccount (encoded : String) : StorageM PulsarError AccountId :=
  match AccountId.parseString E.bech32 encoded with
  | none => Comp.panic
  | some r => Comp.ofExcept (r.mapError .accountId)

end Externals

/-! ## Calls through the state machine -/

abbrev MsgResult := MsgResponse MsgData

/-- What the keepers call through `sm`, one level further down. -/
structure Sm where
  bankTransfer : BlockInfo → AccountId → AccountId → List Coin → StorageM PulsarError Unit
  wasmProcessMsgNoSubmsg : BlockInfo → AccountId → WasmMsg → StorageM PulsarError MsgResult
  processMsg : AccountId → BlockInfo → Msg → StorageM PulsarError MsgResult
  /-- Takes the block, the contract, its checksum, the messages, the response so
  far and whether messages are allowed. -/
  dispatchResponseMessages : BlockInfo → AccountId → Bytes → List SubMsg → MsgResult → Bool →
    StorageM PulsarError MsgResult

/-- The end of the stack. -/
def Sm.overflow : Sm where
  bankTransfer _ _ _ _ := Comp.panic
  wasmProcessMsgNoSubmsg _ _ _ := Comp.panic
  processMsg _ _ _ := Comp.panic
  dispatchResponseMessages _ _ _ _ _ _ := Comp.panic

/-- `ensure_eq!(a, b, e)`. -/
def ensureEq {α : Type} [DecidableEq α] (a b : α) (e : PulsarError) : StorageM PulsarError Unit :=
  if a = b then pure () else throw e

end LayerSdk
