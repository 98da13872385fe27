import LayerSdk.Keepers
import Mathlib.Logic.Equiv.List
import Mathlib.Tactic.DeriveEncodable

/-!
# Reference implementations

The keepers take bech32, JSON and protobuf from crates, which are parameters
of the development. This module has instances of these parameters that can be
run: bech32 in full, and serialisers that know the texts of finitely many
values. Runs on concrete inputs use them; nothing general depends on them.
-/

namespace LayerSdk

/-! ## Bech32 -/

namespace Bech32

def charset : List Char := "qpzry9x8gf2tvdw0s3jn54khce6mua7l".toList

def generator : List Nat := [0x3b6a57b2, 0x26508e6d, 0x1ea119fa, 0x3d4233dd, 0x2a1462b3]

def polymodStep (chk v : Nat) : Nat :=
  let top := chk >>> 25
  let next := ((chk &&& 0x1ffffff) <<< 5) ^^^ v
  generator.zipIdx.foldl (fun acc g => if (top >>> g.2) % 2 = 1 then acc ^^^ g.1 else acc) next

def polymod (values : List Nat) : Nat := values.foldl polymodStep 1

def hrpExpand (hrp : List Char) : List Nat :=
  hrp.map (fun c => c.toNat / 32) ++ 0 :: hrp.map fun c => c.toNat % 32

/-- Regroups bits, most significant first; the rest is what is left over. -/
def regroup (width : Nat) : Nat → Nat → List Bool → List Nat × Nat × Nat
  | acc, bits, [] => ([], acc, bits)
  | acc, bits, b :: rest =>
    let acc := acc * 2 + b.toNat
    if bits + 1 = width then
      let (out, left) := regroup width 0 0 rest
      (acc :: out, left)
    else regroup width acc (bits + 1) rest

def bitsOf (width : Nat) (x : UInt8) : List Bool :=
  ((List.range width).map fun i => x.toNat.testBit i).reverse

/-- `to_base32`: the last group is filled with zeros. -/
def toBase32 (b : Bytes) : List Nat :=
  let (out, acc, bits) := regroup 5 0 0 (b.flatMap (bitsOf 8))
  if bits = 0 then out else out ++ [acc <<< (5 - bits)]

/-- `from_base32`: fewer than five bits may be left over, all zero. -/
def ofBase32 (data : List UInt8) : Option Bytes :=
  let (out, acc, bits) := regroup 8 0 0 (data.flatMap (bitsOf 5))
  if bits < 5 ∧ acc = 0 then some (out.map UInt8.ofNat) else none

def checksum (hrp : List Char) (data : List Nat) : List Nat :=
  let p := polymod (hrpExpand hrp ++ data ++ List.replicate 6 0) ^^^ 1
  [25, 20, 15, 10, 5, 0].map fun shift => (p >>> shift) % 32

def encodeWith (hrp : List Char) (data : List Nat) : String :=
  String.ofList (hrp ++ '1' :: (data ++ checksum hrp data).map fun v => charset.getD v 'q')

/-- The text before the last `1` and the text after it. -/
def splitLast (text : List Char) : Option (List Char × List Char) :=
  let tail := text.reverse.takeWhile (· ≠ '1')
  if tail.length = text.length then none
  else some (text.take (text.length - tail.length - 1), tail.reverse)

def decodeWith (encoded : String) : Except String (String × List UInt8 × Bool) :=
  if encoded.toList.any Char.isLower && encoded.toList.any Char.isUpper then
    .error "mixed-case strings not allowed"
  else
    match splitLast (encoded.toList.map Char.toLower) with
    | none => .error "missing human-readable separator, \"1\""
    | some (hrp, body) =>
      match body.find? fun c => !charset.contains c with
      | some c => .error ("invalid character (code=" ++ Nat.repr c.toNat ++ ")")
      | none =>
        let data := body.map fun c => charset.idxOf c
        if hrp = [] ∨ data.length < 6 then .error "invalid length"
        else
          let p := polymod (hrpExpand hrp ++ data)
          let payload := (data.take (data.length - 6)).map UInt8.ofNat
          if p = 1 then .ok (String.ofList hrp, payload, true)
          else if p = 0x2bc830a3 then .ok (String.ofList hrp, payload, false)
          else .error "invalid checksum"

/-- The crate. -/
def crate : Bech32 where
  decode := decodeWith
  fromBase32 := ofBase32
  encode b := encodeWith bech32Prefix.toList (toBase32 b)

example : crate.encode (List.replicate 20 1) = "juno1qyqszqgpqyqszqgpqyqszqgpqyqszqgpypz92q" := by
  decide +kernel

end Bech32

/-! ## JSON texts of the records -/

section Json

def textJson (s : String) : Bytes := quoted (str s)

def accountIdJson (a : AccountId) : Bytes := textJson (a.display Bech32.crate)

def MayoVariant.text : MayoVariant → String
  | .mayo1 => "mayo1"
  | .mayo2 => "mayo2"
  | .mayo3 => "mayo3"
  | .mayo5 => "mayo5"

def PubKey.json : PubKey → Bytes
  | .ed25519 pk => objectJson [("ed25519", binaryJson pk)]
  | .secp256k1 pk => objectJson [("secp256k1", binaryJson pk)]
  | .hybridSecp256k1Mayo secp variant mayoPk =>
    objectJson [("hybrid_secp256k1_mayo", objectJson [("secp256k1", binaryJson secp),
      ("mayo_variant", textJson variant.text), ("mayo_pk", binaryJson mayoPk)])]

def Account.json : Account → Bytes
  | .external pubkey sequence =>
    objectJson [("external", objectJson [("pubkey", pubkey.json),
      ("sequence", numberJson sequence)])]
  | .internal => objectJson [("internal", objectJson [])]
  | .smart contract => objectJson [("smart", objectJson [("contract", accountIdJson contract)])]

def boolJson (b : Bool) : Bytes := str (if b then "true" else "false")

def CodeInfo.json (x : CodeInfo) : Bytes :=
  objectJson [("creator", accountIdJson x.creator), ("checksum", binaryJson x.checksum),
    ("pinned", boolJson x.pinned)]

def ContractData.json (x : ContractData) : Bytes :=
  objectJson [("code_id", numberJson x.codeId), ("creator", accountIdJson x.creator),
    ("admin", optionJson accountIdJson x.admin), ("label", textJson x.label),
    ("created", numberJson x.created)]

def Cw20ExecuteMsg.json : Cw20ExecuteMsg → Bytes
  | .transfer recipient amount =>
    objectJson [("transfer", objectJson [("recipient", textJson recipient),
      ("amount", textJson (Nat.repr amount))])]
  | .burn amount => objectJson [("burn", objectJson [("amount", textJson (Nat.repr amount))])]

end Json

/-! ## Protobuf -/

/-- A field that is written whatever its content: a message, or one of many. -/
def protoField (field : Nat) (data : Bytes) : Bytes :=
  Leb128.encode (field * 8 + 2) ++ Leb128.encode data.length ++ data

def protoText (field : Nat) (s : String) : Bytes := protoBytes field (str s)

def protoMessage {α : Type} (field : Nat) (encode : α → Bytes) : Option α → Bytes
  | some x => protoField field (encode x)
  | none => []

def ConnectionCounterparty.proto (x : ConnectionCounterparty) : Bytes :=
  protoText 1 x.clientId ++ protoText 2 x.connectionId ++
    protoMessage 3 (protoBytes 1) x.keyPrefix

def ConnectionEnd.proto (x : ConnectionEnd) : Bytes :=
  protoText 1 x.clientId ++
    (x.versions.flatMap fun v =>
      protoField 2 (protoText 1 v.1 ++ v.2.flatMap fun f => protoField 2 (str f))) ++
    protoUint 3 x.state ++ protoMessage 4 ConnectionCounterparty.proto x.counterparty ++
    protoUint 5 x.delayPeriod

def Channel.proto (x : Channel) : Bytes :=
  protoUint 1 x.state ++ protoUint 2 x.ordering ++
    protoMessage 3 (fun c : Counterparty => protoText 1 c.portId ++ protoText 2 c.channelId)
      x.counterparty ++
    (x.connectionHops.flatMap fun hop => protoField 4 (str hop)) ++ protoText 5 x.version

def Packet.proto (x : Packet) : Bytes :=
  protoUint 1 x.sequence ++ protoText 2 x.sourcePort ++ protoText 3 x.sourceChannel ++
    protoText 4 x.destinationPort ++ protoText 5 x.destinationChannel ++ protoBytes 6 x.data ++
    protoMessage 7 (fun h : Nat × Nat => protoUint 1 h.1 ++ protoUint 2 h.2) x.timeoutHeight ++
    protoUint 8 x.timeoutTimestamp

instance encodableByte : Encodable UInt8 :=
  Encodable.ofLeftInverse (fun b => b.toNat) UInt8.ofNat fun b => by simp

instance encodableChar : Encodable Char := Encodable.ofLeftInverse Char.toNat Char.ofNat Char.ofNat_toNat

instance encodableText : Encodable String :=
  Encodable.ofLeftInverse String.toList String.ofList fun s => by simp

deriving instance Encodable for Counterparty, ConnectionCounterparty, ConnectionEnd, Channel, Packet

namespace ProtoCodec

variable {α : Type} [DecidableEq α] [Encodable α]

/-- A serialiser that has the given texts for some values, and for the others texts
that start with the byte `0xff`, as no message does. -/
def tableEncode (rows : List (α × Bytes)) (x : α) : Bytes :=
  match WasmCodec.tableTo rows x with
  | .ok b => if b.head? = some 0xff then 0xff :: List.replicate (Encodable.encode x) 0 else b
  | .error _ => 0xff :: List.replicate (Encodable.encode x) 0

def tableDecode (rows : List (α × Bytes)) (b : Bytes) : Except String α :=
  if b.head? = some 0xff then
    match (Encodable.decode (b.length - 1) : Option α) with
    | some x => .ok x
    | none => .error "failed to decode Protobuf message"
  else
    match WasmCodec.tableFrom rows b with
    | .ok x => .ok x
    | .error _ => .error "failed to decode Protobuf message"

theorem tableDecode_tableEncode (rows : List (α × Bytes)) (x : α) :
    tableDecode rows (tableEncode rows x) = .ok x := by
  have hother : tableDecode rows (0xff :: List.replicate (Encodable.encode x) 0) = .ok x := by
    simp [tableDecode]
  rw [tableEncode]
  cases hto : WasmCodec.tableTo rows x with
  | error e => exact hother
  | ok b =>
    by_cases hb : b.head? = some 0xff
    · simpa only [if_pos hb] using hother
    · simp only [if_neg hb, tableDecode, (WasmCodec.tableTo_ok hto).1]

def table (rows : List (α × Bytes)) : ProtoCodec α where
  encode := tableEncode rows
  decode := tableDecode rows
  decode_encode := tableDecode_tableEncode rows

end ProtoCodec

/-! ## The serialisers of the keepers -/

/-- The values a run comes across. -/
structure KnownValues where
  amounts : List Nat := []
  counters : List Nat := []
  blobs : List Bytes := []
  accounts : List Account := []
  codes : List CodeInfo := []
  contracts : List ContractData := []
  connections : List ConnectionEnd := []
  channels : List Channel := []
  packets : List Packet := []
  packetData : List (Bytes × FungibleTokenPacketData) := []

def KeeperCodecs.ofValues (v : KnownValues) : KeeperCodecs where
  uint128 := (WasmCodec.table (v.amounts.map fun n => (n, textJson (Nat.repr n)))).toJsonCodec
  u64 := (WasmCodec.table (v.counters.map fun n => (n, numberJson n))).toJsonCodec
  bool := (WasmCodec.table ([true, false].map fun b => (b, boolJson b))).toJsonCodec
  empty := (WasmCodec.table [((), objectJson [])]).toJsonCodec
  bytes := (WasmCodec.table (v.blobs.map fun b => (b, byteArrayJson b))).toJsonCodec
  account := (WasmCodec.table (v.accounts.map fun a => (a, a.json))).toJsonCodec
  codeInfo := (WasmCodec.table (v.codes.map fun c => (c, c.json))).toJsonCodec
  contractData := (WasmCodec.table (v.contracts.map fun c => (c, c.json))).toJsonCodec
  cw20 msg := .ok msg.json
  rootInstantiateMsg gov := .ok (objectJson [("gov_address", textJson gov)])
  ibcMsgData _ := []
  utf8Lossy b := (String.fromUTF8? ⟨b.toArray⟩).getD ""
  connectionEnd := .table (v.connections.map fun x => (x, x.proto))
  channel := .table (v.channels.map fun x => (x, x.proto))
  packet := .table (v.packets.map fun x => (x, x.proto))
  packetData b :=
    match v.packetData.find? fun r => decide (r.1 = b) with
    | some r => .ok r.2
    | none => .error (.parseErr "FungibleTokenPacketData" "")

/-- A machine without code. -/
def CwVm.none : CwVm where
  storeCode _ := .error (.other "")
  analyze _ := .error (.other "")
  loadWasm _ := .error (.other "")
  pin _ := .error (.other "")
  unpin _ := .error (.other "")
  getInstance _ := .error (.other "")
  call _ _ _ _ := pure (.error (.other ""), 0)
  display _ := ""

/-- A hash, and no signature that verifies. -/
def Crypto.ofHash (H : Bytes → Digest) : Crypto where
  sha256 := H
  ripemd160 b := b.take 20
  secp256k1Verify _ _ _ := some false
  ed25519Verify _ _ _ := some false
  mayoVerify _ _ _ _ := some false

/-- The keepers' environment for a run that comes across the given values. -/
def Externals.ofValues (v : KnownValues) : Externals where
  bech32 := Bech32.crate
  crypto := Crypto.ofHash sha256
  codecs := .ofValues v
  vm := CwVm.none
  rootWasm := []
  doQueryRaw _ _ := throw (.system "")

end LayerSdk
