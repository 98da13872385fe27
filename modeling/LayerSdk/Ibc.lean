import LayerSdk.Wasm

/-!
# The IBC keeper

Connections, channels and packets under their ICS-24 paths, which are raw
keys of the node's storage: no module prefix is put in front of them. The
identifiers in the paths are the texts the messages bring.
-/

namespace LayerSdk

open EffectProg

/-- `u64::from_be_bytes` of the first eight bytes; a shorter slice is a panic. -/
def u64ofBe (raw : Bytes) : Option Nat :=
  if raw.length < 8 then none
  else some ((raw.take 8).foldl (fun n b => n * 256 + b.toNat) 0)

namespace Ibc

/-! ## Paths -/

def storePrefix : String := "ibc/"

def clientStatePath (clientId : String) : Bytes :=
  str (storePrefix ++ "clients/" ++ clientId ++ "/clientState")

def connectionPath (connectionId : String) : Bytes :=
  str (storePrefix ++ "connections/" ++ connectionId)

def channelPath (portId channelId : String) : Bytes :=
  str (storePrefix ++ "channelEnds/ports/" ++ portId ++ "/channels/" ++ channelId)

def packetCommitmentPath (portId channelId : String) (sequence : Nat) : Bytes :=
  str (storePrefix ++ "commitments/ports/" ++ portId ++ "/channels/" ++ channelId ++
    "/sequences/" ++ Nat.repr sequence)

def nextSequenceSendPath (portId channelId : String) : Bytes :=
  str (storePrefix ++ "nextSequenceSend/ports/" ++ portId ++ "/channels/" ++ channelId)

def packetDataPath (portId channelId : String) (sequence : Nat) : Bytes :=
  str (storePrefix ++ "packetData/ports/" ++ portId ++ "/channels/" ++ channelId ++
    "/sequences/" ++ Nat.repr sequence)

/-! ## Numbers of the protobuf enumerations -/

def connectionStateInit : Nat := 1

def connectionStateOpen : Nat := 3

def channelStateInit : Nat := 1

def channelStateOpen : Nat := 3

def orderUnordered : Nat := 1

def orderOrdered : Nat := 2

/-! ## Texts -/

/-- What is left of a text after the first occurrence of a separator. -/
def afterFirst (sep : List Char) : List Char → Option (List Char)
  | [] => none
  | c :: rest =>
    if sep.isPrefixOf (c :: rest) then some ((c :: rest).drop sep.length)
    else afterFirst sep rest

/-- The chain id in a client state; an unreadable one gives the empty text. -/
def chainIdOf (state : String) : String :=
  match afterFirst "\"chain_id\":\"".toList state.toList with
  | some rest => String.ofList (rest.takeWhile (· ≠ '"'))
  | none => ""

def clientState (chainId : String) (latestHeight : Nat) : Bytes :=
  str ("\x7b\"chain_id\":\"" ++ chainId ++ "\",\"latest_height\":" ++ Nat.repr latestHeight ++
    "\x7d")

def digitValue (c : Char) : Option Nat :=
  if '0' ≤ c ∧ c ≤ '9' then some (c.toNat - '0'.toNat) else none

def parseDigits : Nat → List Char → Option Nat
  | n, [] => some n
  | n, c :: rest => do
    let d ← digitValue c
    if n * 10 + d ≤ uint128Max then parseDigits (n * 10 + d) rest else none

/-- `str::parse::<u128>`. -/
def parseU128 (s : String) : Option Nat :=
  match s.toList with
  | [] => none
  | ['+'] => none
  | '+' :: rest => parseDigits 0 rest
  | digits => parseDigits 0 digits

section Keeper

variable (E : Externals)

def escrowAddress (portId channelId : String) : Bytes :=
  (E.crypto.sha256 (str "ics20-1" ++ str portId ++ str channelId)).bytes.take 20

/-- A module account for a port and channel. -/
def escrowAccount (portId channelId : String) : AccountId :=
  ⟨escrowAddress E portId channelId, by
    simp [escrowAddress, Digest.length_bytes, validAddrLength]⟩

/-- `read_raw(..)?.ok_or_else(..)?`. -/
def readOr (key : Bytes) (e : IbcError) : StorageM PulsarError Bytes := do
  match ← Storage.get key with
  | some raw => pure raw
  | none => throw (.ibc e)

def decodeAs {α : Type} (codec : ProtoCodec α) (name : String) (raw : Bytes) :
    StorageM PulsarError α :=
  match codec.decode raw with
  | .ok x => pure x
  | .error e => throw (.ibc (.invalid ("decode " ++ name ++ ": " ++ e)))

/-! ## Clients -/

def createClient (clientId chainId : String) (latestHeight : Nat) : StorageM PulsarError Unit := do
  match ← Storage.get (clientStatePath clientId) with
  | some _ => throw (.ibc (.clientExists clientId))
  | none => Storage.set (clientStatePath clientId) (clientState chainId latestHeight)

def updateClient (clientId : String) (height : Nat) : StorageM PulsarError Unit := do
  let existing ← readOr (clientStatePath clientId) (.clientNotFound clientId)
  Storage.set (clientStatePath clientId)
    (clientState (chainIdOf (E.codecs.utf8Lossy existing)) height)

/-! ## Connections -/

def connOpenInit (clientId connectionId counterpartyClientId counterpartyConnectionId : String)
    (counterpartyPrefix : String) : StorageM PulsarError Unit := do
  match ← Storage.get (connectionPath connectionId) with
  | some _ => throw (.ibc (.connectionExists connectionId))
  | none =>
    Storage.set (connectionPath connectionId) (E.codecs.connectionEnd.encode
      ⟨clientId, [("1", ["ORDER_ORDERED", "ORDER_UNORDERED"])], connectionStateInit,
        some ⟨counterpartyClientId, counterpartyConnectionId, some (str counterpartyPrefix)⟩, 0⟩)

def connOpenAck (connectionId counterpartyConnectionId : String) : StorageM PulsarError Unit := do
  let raw ← readOr (connectionPath connectionId) (.connectionNotFound connectionId)
  let conn ← decodeAs E.codecs.connectionEnd "ConnectionEnd" raw
  if conn.state ≠ connectionStateInit then
    throw (.ibc (.invalidState ("connection " ++ connectionId) "INIT" (Nat.repr conn.state)))
  else
    Storage.set (connectionPath connectionId) (E.codecs.connectionEnd.encode
      { conn with
        counterparty := conn.counterparty.map ({ · with connectionId := counterpartyConnectionId })
        state := connectionStateOpen })

/-! ## Channels -/

def chanOpenInit (portId channelId connectionId : String)
    (counterpartyPortId counterpartyChannelId ordering version : String) :
    StorageM PulsarError Unit := do
  let connRaw ← readOr (connectionPath connectionId) (.connectionNotFound connectionId)
  let conn ← decodeAs E.codecs.connectionEnd "ConnectionEnd" connRaw
  if conn.state ≠ connectionStateOpen then throw (.ibc (.connectionNotOpen connectionId))
  else
    match ← Storage.get (channelPath portId channelId) with
    | some _ => throw (.ibc (.channelExists portId channelId))
    | none => do
      let order := if ordering.toList.map Char.toLower = "ordered".toList then orderOrdered
        else orderUnordered
      Storage.set (channelPath portId channelId) (E.codecs.channel.encode
        ⟨channelStateInit, order, some ⟨counterpartyPortId, counterpartyChannelId⟩,
          [connectionId], version⟩)
      Storage.set (nextSequenceSendPath portId channelId) (u64be 1)

def chanOpenAck (portId channelId counterpartyChannelId counterpartyVersion : String) :
    StorageM PulsarError Unit := do
  let raw ← readOr (channelPath portId channelId) (.channelNotFound portId channelId)
  let chan ← decodeAs E.codecs.channel "Channel" raw
  if chan.state ≠ channelStateInit then
    throw (.ibc (.invalidState ("channel " ++ portId ++ "/" ++ channelId) "INIT"
      (Nat.repr chan.state)))
  else
    Storage.set (channelPath portId channelId) (E.codecs.channel.encode
      { chan with
        counterparty := chan.counterparty.map ({ · with channelId := counterpartyChannelId })
        version := counterpartyVersion
        state := channelStateOpen })

/-! ## Packets -/

/-- The ICS-20 packet data. The texts stand in it as they are, not escaped. -/
def packetText (token : Coin) (receiver sender : String) : String :=
  "\x7b\"amount\":\"" ++ Nat.repr token.amount ++ "\",\"denom\":\"" ++ token.denom ++
    "\",\"receiver\":\"" ++ receiver ++ "\",\"sender\":\"" ++ sender ++ "\"\x7d"

/-- `CommitPacket` of ibc-go, at revision 0. -/
def commitment (data : Bytes) (timeoutHeight timeoutTimestamp : Nat) : Bytes :=
  (E.crypto.sha256 (u64be timeoutTimestamp ++ u64be 0 ++ u64be timeoutHeight ++
    (E.crypto.sha256 data).bytes)).bytes

def buildPacket (chan : Channel) (portId channelId : String) (sequence : Nat) (data : Bytes)
    (timeoutHeight timeoutTimestamp : Nat) : Packet where
  sequence := sequence
  sourcePort := portId
  sourceChannel := channelId
  destinationPort := (chan.counterparty.map Counterparty.portId).getD ""
  destinationChannel := (chan.counterparty.map Counterparty.channelId).getD ""
  data := data
  timeoutHeight := some (0, timeoutHeight)
  timeoutTimestamp := timeoutTimestamp

/-- The channel, which must be open. -/
def openChannel (portId channelId : String) : StorageM PulsarError Channel := do
  let chanRaw ← readOr (channelPath portId channelId) (.channelNotFound portId channelId)
  let chan ← decodeAs E.codecs.channel "Channel" chanRaw
  if chan.state ≠ channelStateOpen then throw (.ibc (.channelNotOpen portId channelId))
  else pure chan

/-- Writes the commitment, the next sequence and the packet. -/
def sendPacket (chan : Channel) (portId channelId : String) (data : Bytes)
    (timeoutHeight timeoutTimestamp : Nat) : StorageM PulsarError Nat := do
  let seqRaw ← readOr (nextSequenceSendPath portId channelId) (.channelNotFound portId channelId)
  match u64ofBe seqRaw with
  | none => Comp.panic
  | some sequence => do
    Storage.set (packetCommitmentPath portId channelId sequence)
      (commitment E data timeoutHeight timeoutTimestamp)
    if sequence = u64Max then Comp.panic
    else do
      Storage.set (nextSequenceSendPath portId channelId) (u64be (sequence + 1))
      Storage.set (packetDataPath portId channelId sequence) (E.codecs.packet.encode
        (buildPacket chan portId channelId sequence data timeoutHeight timeoutTimestamp))
      pure sequence

def clearPacket (portId channelId : String) (sequence : Nat) : StorageM PulsarError Unit := do
  Storage.remove (packetCommitmentPath portId channelId sequence)
  Storage.remove (packetDataPath portId channelId sequence)

/-- The acknowledgement is not looked at. -/
def acknowledgement (portId channelId : String) (sequence : Nat) : StorageM PulsarError Unit :=
  clearPacket portId channelId sequence

variable (sm : Sm) (block : BlockInfo)

def transfer (sender : AccountId) (portId channelId : String) (token : Coin) (receiver : String)
    (timeoutHeight timeoutTimestamp : Nat) : StorageM PulsarError (Nat × Bytes) := do
  let chan ← openChannel E portId channelId
  sm.bankTransfer block sender (escrowAccount E portId channelId) [token]
  let packetData := str (packetText token receiver (E.display sender))
  let sequence ← sendPacket E chan portId channelId packetData timeoutHeight timeoutTimestamp
  pure (sequence, packetData)

/-- Whom and what a stored packet refunds. -/
def refundOf (packet : Packet) : StorageM PulsarError (AccountId × Coin) := do
  let data ← match E.codecs.packetData packet.data with
    | .ok data => pure data
    | .error e => throw (.ibc (.invalid ("decode packet data: " ++ e.display)))
  let refundTo ← match AccountId.parseString E.bech32 data.sender with
    | none => Comp.panic
    | some (.ok refundTo) => pure refundTo
    | some (.error e) =>
      throw (.ibc (.invalid ("packet sender '" ++ data.sender ++ "': " ++ e.display)))
  match parseU128 data.amount with
  | some amount => pure (refundTo, ⟨data.denom, amount⟩)
  | none => throw (.ibc (.invalid ("packet amount '" ++ data.amount ++ "'")))

def timeout (portId channelId : String) (sequence : Nat) :
    StorageM PulsarError (AccountId × Coin) := do
  let raw ← readOr (packetDataPath portId channelId sequence) (.invalid
    ("no stored packet to time out at " ++ portId ++ "/" ++ channelId ++ "/seq" ++
      Nat.repr sequence))
  let packet ← decodeAs E.codecs.packet "Packet" raw
  let (refundTo, coin) ← refundOf E packet
  sm.bankTransfer block (escrowAccount E portId channelId) refundTo [coin]
  clearPacket portId channelId sequence
  pure (refundTo, coin)

/-! ## Messages -/

def unauthorized (signer : AccountId) : PulsarError := .ibc (.unauthorized (E.display signer))

def processMsg (signer : AccountId) : IbcMsg → StorageM PulsarError MsgResult
  | .createClient sender clientId chainId latestHeight => do
    ensureEq signer sender (unauthorized E signer)
    createClient clientId chainId latestHeight
    pure ⟨.ibc (.createClient clientId),
      [⟨"ibc_create_client", [("client_id", clientId), ("chain_id", chainId)]⟩]⟩
  | .updateClient sender clientId height => do
    ensureEq signer sender (unauthorized E signer)
    updateClient E clientId height
    pure ⟨.ibc .updateClient,
      [⟨"ibc_update_client", [("client_id", clientId), ("height", Nat.repr height)]⟩]⟩
  | .connectionOpenInit sender clientId connectionId counterpartyClientId
      counterpartyConnectionId counterpartyPrefix => do
      ensureEq signer sender (unauthorized E signer)
      connOpenInit E clientId connectionId counterpartyClientId counterpartyConnectionId
        counterpartyPrefix
      pure ⟨.ibc .connectionOpenInit,
        [⟨"ibc_connection_open_init", [("connection_id", connectionId)]⟩]⟩
  | .connectionOpenAck sender connectionId counterpartyConnectionId _ _ => do
    ensureEq signer sender (unauthorized E signer)
    connOpenAck E connectionId counterpartyConnectionId
    pure ⟨.ibc .connectionOpenAck,
      [⟨"ibc_connection_open_ack", [("connection_id", connectionId)]⟩]⟩
  | .channelOpenInit sender portId channelId connectionId counterpartyPortId
      counterpartyChannelId ordering version => do
      ensureEq signer sender (unauthorized E signer)
      chanOpenInit E portId channelId connectionId counterpartyPortId counterpartyChannelId
        ordering version
      pure ⟨.ibc .channelOpenInit,
        [⟨"ibc_channel_open_init", [("port_id", portId), ("channel_id", channelId)]⟩]⟩
  | .channelOpenAck sender portId channelId counterpartyChannelId counterpartyVersion _ _ => do
    ensureEq signer sender (unauthorized E signer)
    chanOpenAck E portId channelId counterpartyChannelId counterpartyVersion
    pure ⟨.ibc .channelOpenAck,
      [⟨"ibc_channel_open_ack", [("port_id", portId), ("channel_id", channelId)]⟩]⟩
  | .transfer sender portId channelId token receiver timeoutHeight timeoutTimestamp => do
    ensureEq signer sender (unauthorized E signer)
    let (sequence, packetData) ← transfer E sm block sender portId channelId token receiver
      timeoutHeight timeoutTimestamp
    pure ⟨.ibc (.transfer sequence),
      [⟨"ibc_transfer", [("port_id", portId), ("channel_id", channelId),
        ("sequence", Nat.repr sequence), ("packet_data", E.codecs.utf8Lossy packetData)]⟩]⟩
  | .acknowledgement sender portId channelId sequence _ _ _ => do
    ensureEq signer sender (unauthorized E signer)
    acknowledgement portId channelId sequence
    pure ⟨.ibc .acknowledgement,
      [⟨"ibc_acknowledgement", [("port_id", portId), ("channel_id", channelId),
        ("sequence", Nat.repr sequence)]⟩]⟩
  | .timeout sender portId channelId sequence _ _ => do
    ensureEq signer sender (unauthorized E signer)
    let (refundTo, coin) ← timeout E sm block portId channelId sequence
    pure ⟨.ibc .timeout,
      [⟨"ibc_timeout", [("port_id", portId), ("channel_id", channelId),
        ("sequence", Nat.repr sequence), ("refund_to", E.display refundTo),
        ("refund", Nat.repr coin.amount ++ coin.denom)]⟩]⟩

end Keeper

end Ibc

end LayerSdk
