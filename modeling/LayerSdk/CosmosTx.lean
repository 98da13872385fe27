import LayerSdk.Ibc

/-!
# Transactions from their bytes

`parse_cosmos_tx`: the protobuf transaction, its messages in the node's own
format, the fee, and the hash that was signed. What is signed is the protobuf
document in direct mode, and in legacy mode a JSON document that is built from
the parsed messages.

The parser can fail in two ways, so a result is an `Option` of an `Except`:
`none` is a panic. The protobuf, JSON and gzip libraries are parameters
(`CosmosLib`); they return errors, and do not panic.
-/

namespace LayerSdk

namespace Cosmos

/-! ## What the libraries return -/

structure Any where
  typeUrl : String
  value : Bytes
deriving DecidableEq

structure SdkCoin where
  denom : String
  amount : String
deriving DecidableEq

structure MsgSend where
  fromAddress : String
  toAddress : String
  amount : List SdkCoin
deriving DecidableEq

structure MsgExecuteContract where
  sender : String
  contract : String
  msg : Bytes
  funds : List SdkCoin
deriving DecidableEq

/-- Also `MsgInstantiateContract2`, which has the salt. -/
structure MsgInstantiateContract where
  sender : String
  admin : String
  codeId : Nat
  label : String
  msg : Bytes
  funds : List SdkCoin
  salt : Bytes
deriving DecidableEq

structure MsgStoreCode where
  sender : String
  wasmByteCode : Bytes
deriving DecidableEq

structure MsgMigrateContract where
  sender : String
  contract : String
  codeId : Nat
  msg : Bytes
deriving DecidableEq

structure MsgUpdateAdmin where
  sender : String
  newAdmin : String
  contract : String
deriving DecidableEq

structure MsgClearAdmin where
  sender : String
  contract : String
deriving DecidableEq

/-- `StringOrBytes`: how an address may stand in JSON. -/
inductive StringOrBytes where
  | string (s : String)
  | vec (raw : Bytes)
deriving DecidableEq

structure TxRaw where
  bodyBytes : Bytes
  authInfoBytes : Bytes
deriving DecidableEq

structure Body where
  messages : List Any
  memo : String
  timeoutHeight : Nat
  extensionOptions : List Any
deriving DecidableEq

inductive SignMode where
  | unspecified
  | direct
  | textual
  | directAux
  | legacyAminoJson
  | eip191
deriving DecidableEq, Repr

def SignMode.asStrName : SignMode → String
  | unspecified => "SIGN_MODE_UNSPECIFIED"
  | direct => "SIGN_MODE_DIRECT"
  | textual => "SIGN_MODE_TEXTUAL"
  | directAux => "SIGN_MODE_DIRECT_AUX"
  | legacyAminoJson => "SIGN_MODE_LEGACY_AMINO_JSON"
  | eip191 => "SIGN_MODE_EIP_191"

inductive ModeInfo where
  | single (mode : SignMode)
  | multi
deriving DecidableEq, Repr

inductive SignerPublicKey where
  | single (typeUrl : String) (bytes : Bytes)
  | legacyAminoMultisig
  | any (pubkey : Any)
deriving DecidableEq

structure SignerInfo where
  publicKey : Option SignerPublicKey
  modeInfo : ModeInfo
  sequence : Nat
deriving DecidableEq

structure Fee where
  amount : List Coin
  gasLimit : Nat
  payer : Option String
  granter : Option String
deriving DecidableEq

structure AuthInfo where
  signerInfos : List SignerInfo
  fee : Fee
deriving DecidableEq

/-- `cosmrs::Tx`. -/
structure CosmosTx where
  body : Body
  authInfo : AuthInfo
  signatures : List Bytes
deriving DecidableEq

structure SignDoc where
  bodyBytes : Bytes
  authInfoBytes : Bytes
  chainId : String
  accountNumber : Nat
deriving DecidableEq

/-! ## The legacy document -/

structure AminoCoin where
  amount : String
  denom : String
deriving DecidableEq

/-- `V` is `serde_json::Value`. -/
inductive AminoMsg (V : Type) where
  | msgSend (amount : List AminoCoin) (fromAddress toAddress : String)
  | msgExecute (contract : String) (funds : List AminoCoin) (msg : V) (sender : String)
  | msgInstantiate (admin : Option String) (codeId : String) (funds : List AminoCoin)
      (label : String) (msg : V) (sender : String)
  | other
deriving DecidableEq

structure StdFee where
  amount : List AminoCoin
  gas : String
deriving DecidableEq

structure StdSignDoc (V : Type) where
  accountNumber : String
  chainId : String
  fee : StdFee
  memo : String
  msgs : List (AminoMsg V)
  sequence : String
  timeoutHeight : Option String
deriving DecidableEq

/-- The libraries; an error is its text. An `IbcMsg` is read up to its sender, and
the rest depends on what the sender's text turned out to be. -/
structure CosmosLib (V : Type) where
  txRaw : Bytes → Except String TxRaw
  tx : Bytes → Except String CosmosTx
  msgSend : Bytes → Except String MsgSend
  msgExecuteContract : Bytes → Except String MsgExecuteContract
  msgInstantiateContract : Bytes → Except String MsgInstantiateContract
  msgInstantiateContract2 : Bytes → Except String MsgInstantiateContract
  msgStoreCode : Bytes → Except String MsgStoreCode
  msgMigrateContract : Bytes → Except String MsgMigrateContract
  msgUpdateAdmin : Bytes → Except String MsgUpdateAdmin
  msgClearAdmin : Bytes → Except String MsgClearAdmin
  ibcMsg : Bytes → Except String (StringOrBytes × (Except String AccountId → Except String IbcMsg))
  gunzip : Bytes → Nat → Except String Bytes
  signDocBytes : SignDoc → Except String Bytes
  value : Bytes → Except String V
  docJson : StdSignDoc V → Except String String

/-! ## Panics and errors -/

abbrev ParseM (ε : Type) := ExceptT ε Option

namespace ParseM

variable {ε ε' α : Type}

def ofExcept (x : Except ε α) : ParseM ε α := ExceptT.mk (some x)

/-- `.map_err(f)` -/
def mapErr (f : ε → ε') (x : ParseM ε α) : ParseM ε' α := ExceptT.mk (x.run.map (·.mapError f))

end ParseM

/-! ## Messages -/

def maxWasmSize : Nat := 1024 * 1024 * 8

def gzipIdent : Bytes := [0x1f, 0x8b, 0x08]

def wasmIdent : Bytes := [0x00, 0x61, 0x73, 0x6d]

def msgSendUrl : String := "/cosmos.bank.v1beta1.MsgSend"
def msgExecuteContractUrl : String := "/cosmwasm.wasm.v1.MsgExecuteContract"
def msgInstantiateContractUrl : String := "/cosmwasm.wasm.v1.MsgInstantiateContract"
def msgInstantiateContract2Url : String := "/cosmwasm.wasm.v1.MsgInstantiateContract2"
def msgStoreCodeUrl : String := "/cosmwasm.wasm.v1.MsgStoreCode"
def msgMigrateContractUrl : String := "/cosmwasm.wasm.v1.MsgMigrateContract"
def msgUpdateAdminUrl : String := "/cosmwasm.wasm.v1.MsgUpdateAdmin"
def msgClearAdminUrl : String := "/cosmwasm.wasm.v1.MsgClearAdmin"
def ibcMsgUrl : String := "/junoclaw.ibc.v1.Msg"

/-- The text of a `ParseIntError`. -/
def parseIntError (s : String) : String :=
  if s = "" then "cannot parse integer from empty string"
  else if s.toList ≠ ['+'] ∧
      (if s.toList.head? = some '+' then s.toList.drop 1 else s.toList).all Char.isDigit then
    "number too large to fit in target type"
  else "invalid digit found in string"

def parseSdkCoin (coin : SdkCoin) : Except MsgError Coin :=
  match Ibc.parseU128 coin.amount with
  | some amount => .ok ⟨coin.denom, amount⟩
  | none => .error (.std (.genericErr ("Parsing u128: " ++ parseIntError coin.amount)))

def parseSdkCoins : List SdkCoin → Except MsgError (List Coin)
  | [] => .ok []
  | coin :: rest => do
    let c ← parseSdkCoin coin
    let cs ← parseSdkCoins rest
    pure (c :: cs)

section Messages

variable {V : Type} (lib : CosmosLib V) (B : Bech32)

/-- A decoding error is a parse error with its text. -/
def proto {α : Type} (x : Except String α) : ParseM MsgError α :=
  .ofExcept (x.mapError .parseError)

/-- `AccountId::parse_string(..)?`; the parser panics on bad padding. -/
def address (text : String) : ParseM MsgError AccountId :=
  ExceptT.mk ((AccountId.parseString B text).map (·.mapError .addr))

def unzip (zipped : Bytes) (limit : Nat) : Except MsgError Bytes :=
  if zipped.length > limit then
    .error (.parseError ("Size limit exceeded: " ++ Nat.repr limit ++ " bytes"))
  else
    match lib.gunzip zipped (limit + 1) with
    | .error e => .error (.parseError ("IO error: " ++ e))
    | .ok unzipped =>
      if unzipped.length > limit then
        .error (.parseError ("Size limit exceeded: " ++ Nat.repr limit ++ " bytes"))
      else .ok unzipped

def unzipIfNeeded (maybeZipped : Bytes) (limit : Nat) : Except MsgError Bytes := do
  let maybeWasm ← if gzipIdent.isPrefixOf maybeZipped then unzip lib maybeZipped limit
    else .ok maybeZipped
  if wasmIdent.isPrefixOf maybeWasm then .ok maybeWasm
  else .error (.parseError "Not Gzipped Wasm, not uncompressed wasm")

/-- An empty admin is none. -/
def parseAdminText (admin : String) : ParseM MsgError (Option AccountId) :=
  if admin = "" then pure none else some <$> address B admin

/-- `AccountId::deserialize`, inside `serde_json`: its error is a text. -/
def deserializeAccountId : StringOrBytes → Option (Except String AccountId)
  | .string s => (AccountId.parseString B s).map (·.mapError AccountIdError.display)
  | .vec raw => some ((AccountId.new raw).mapError AccountIdError.display)

def parseSend (value : Bytes) : ParseM MsgError Msg := do
  let parsed ← proto (lib.msgSend value)
  let sender ← address B parsed.fromAddress
  let recipient ← address B parsed.toAddress
  let amount ← ParseM.ofExcept (parseSdkCoins parsed.amount)
  pure (.bank (.send sender recipient amount))

def parseExecute (value : Bytes) : ParseM MsgError Msg := do
  let parsed ← proto (lib.msgExecuteContract value)
  let sender ← address B parsed.sender
  let contractAddr ← address B parsed.contract
  let funds ← ParseM.ofExcept (parseSdkCoins parsed.funds)
  pure (.wasm (.execute sender contractAddr parsed.msg funds))

def parseInstantiate (value : Bytes) : ParseM MsgError Msg := do
  let parsed ← proto (lib.msgInstantiateContract value)
  let admin ← parseAdminText B parsed.admin
  let sender ← address B parsed.sender
  let funds ← ParseM.ofExcept (parseSdkCoins parsed.funds)
  pure (.wasm (.instantiate sender admin parsed.codeId parsed.msg funds parsed.label))

def parseInstantiate2 (value : Bytes) : ParseM MsgError Msg := do
  let parsed ← proto (lib.msgInstantiateContract2 value)
  let admin ← parseAdminText B parsed.admin
  let sender ← address B parsed.sender
  let funds ← ParseM.ofExcept (parseSdkCoins parsed.funds)
  pure (.wasm (.instantiate2 sender admin parsed.codeId parsed.label parsed.msg funds parsed.salt))

def parseStoreCode (value : Bytes) : ParseM MsgError Msg := do
  let parsed ← proto (lib.msgStoreCode value)
  let code ← ParseM.ofExcept (unzipIfNeeded lib parsed.wasmByteCode maxWasmSize)
  let sender ← address B parsed.sender
  pure (.wasm (.storeCode sender code))

def parseMigrate (value : Bytes) : ParseM MsgError Msg := do
  let parsed ← proto (lib.msgMigrateContract value)
  let sender ← address B parsed.sender
  let contractAddr ← address B parsed.contract
  pure (.wasm (.migrate sender contractAddr parsed.codeId parsed.msg))

def parseUpdateAdmin (value : Bytes) : ParseM MsgError Msg := do
  let parsed ← proto (lib.msgUpdateAdmin value)
  let sender ← address B parsed.sender
  let contractAddr ← address B parsed.contract
  let admin ← address B parsed.newAdmin
  pure (.wasm (.updateAdmin sender contractAddr admin))

def parseClearAdmin (value : Bytes) : ParseM MsgError Msg := do
  let parsed ← proto (lib.msgClearAdmin value)
  let sender ← address B parsed.sender
  let contractAddr ← address B parsed.contract
  pure (.wasm (.clearAdmin sender contractAddr))

def ibcDecodeError (e : String) : MsgError := .parseError ("ibc msg decode: " ++ e)

def parseIbc (value : Bytes) : ParseM MsgError Msg := do
  let (sender, rest) ← ParseM.ofExcept ((lib.ibcMsg value).mapError ibcDecodeError)
  let sender ← ExceptT.mk ((deserializeAccountId B sender).map .ok)
  let ibc ← ParseM.ofExcept ((rest sender).mapError ibcDecodeError)
  pure (.ibc ibc)

def parseCosmosMsg (msg : Any) : ParseM MsgError Msg :=
  if msg.typeUrl = msgSendUrl then parseSend lib B msg.value
  else if msg.typeUrl = msgExecuteContractUrl then parseExecute lib B msg.value
  else if msg.typeUrl = msgInstantiateContractUrl then parseInstantiate lib B msg.value
  else if msg.typeUrl = msgInstantiateContract2Url then parseInstantiate2 lib B msg.value
  else if msg.typeUrl = msgStoreCodeUrl then parseStoreCode lib B msg.value
  else if msg.typeUrl = msgMigrateContractUrl then parseMigrate lib B msg.value
  else if msg.typeUrl = msgUpdateAdminUrl then parseUpdateAdmin lib B msg.value
  else if msg.typeUrl = msgClearAdminUrl then parseClearAdmin lib B msg.value
  else if msg.typeUrl = ibcMsgUrl then parseIbc lib B msg.value
  else throw (.unsupportedAnyType msg.typeUrl)

def parseCosmosMsgs : List Any → ParseM MsgError (List Msg)
  | [] => pure []
  | msg :: rest => do
    let m ← parseCosmosMsg lib B msg
    let ms ← parseCosmosMsgs rest
    pure (m :: ms)

end Messages

/-! ## The signed documents -/

section Sign

variable {V : Type} (lib : CosmosLib V) (B : Bech32)

def aminoCoin (c : Coin) : AminoCoin := ⟨Nat.repr c.amount, c.denom⟩

/-- `serde_json::from_slice(msg).unwrap()`. -/
def convertMessage (msg : Bytes) : Option V := (lib.value msg).toOption

/-- The kinds of messages that have a legacy form; all others look alike. -/
def AminoMsg.build : Msg → Option (AminoMsg V)
  | .bank (.send sender recipient amount) =>
    some (.msgSend (amount.map aminoCoin) (sender.display B) (recipient.display B))
  | .wasm (.execute sender contractAddr msg funds) => do
    let value ← convertMessage lib msg
    pure (.msgExecute (contractAddr.display B) (funds.map aminoCoin) value (sender.display B))
  | .wasm (.instantiate sender admin codeId msg funds label) => do
    let value ← convertMessage lib msg
    pure (.msgInstantiate (admin.map (AccountId.display B)) (Nat.repr codeId)
      (funds.map aminoCoin) label value (sender.display B))
  | _ => some .other

def buildAminoMsgs : List Msg → Option (List (AminoMsg V))
  | [] => some []
  | msg :: rest => do
    let m ← AminoMsg.build lib B msg
    let ms ← buildAminoMsgs rest
    pure (m :: ms)

def stdFee (fee : FeeInfo) : StdFee := ⟨fee.fee.toList.map aminoCoin, Nat.repr fee.gasLimit⟩

/-- The timeout height is not in it. -/
def StdSignDoc.build (doc : SignDoc) (msgs : List Msg) (fee : FeeInfo) (sequence : Nat)
    (memo : String) : Option (StdSignDoc V) := do
  let msgs ← buildAminoMsgs lib B msgs
  pure ⟨Nat.repr doc.accountNumber, doc.chainId, stdFee fee, memo, msgs, Nat.repr sequence, none⟩

/-- `s.replace(c, by)`. -/
def replaceChar (c : Char) (by_ : List Char) (s : List Char) : List Char :=
  s.flatMap fun x => if x = c then by_ else [x]

/-- Amino writes these three characters as escapes. -/
def escapeAmino (raw : List Char) : List Char :=
  replaceChar '>' "\\u003e".toList
    (replaceChar '<' "\\u003c".toList (replaceChar '&' "\\u0026".toList raw))

def StdSignDoc.toBytes (doc : StdSignDoc V) : Except StdError Bytes :=
  match lib.docJson doc with
  | .ok raw => .ok (str (String.ofList (escapeAmino raw.toList)))
  | .error e => .error (.serializeErr "StdSignDoc" e)

variable (H : Bytes → Digest)

def hashDirectMode (doc : SignDoc) : ParseM TxError Bytes := do
  let signBytes ← ParseM.ofExcept ((lib.signDocBytes doc).mapError .parseError)
  pure (H signBytes).bytes

def hashLegacyMode (doc : SignDoc) (msgs : List Msg) (fee : FeeInfo) (sequence : Nat)
    (memo : String) : ParseM TxError Bytes := do
  let doc ← ExceptT.mk ((StdSignDoc.build lib B doc msgs fee sequence memo).map .ok)
  let signBytes ← ParseM.ofExcept ((doc.toBytes lib).mapError fun e => .msg (.std e))
  pure (H signBytes).bytes

end Sign

/-! ## Transactions -/

section Tx

variable {V : Type} (lib : CosmosLib V) (B : Bech32) (H : Bytes → Digest)

def fixedAccountNumber : Nat := 17

def ed25519TypeUrl : String := "/cosmos.crypto.ed25519.PubKey"

def secp256k1TypeUrl : String := "/cosmos.crypto.secp256k1.PubKey"

def hybridPubkeyTypeUrl : String := "/junoclaw.crypto.HybridSecp256k1Mayo"

def parseCosmosPubkey : SignerPublicKey → Except TxError PubKey
  | .single typeUrl bytes =>
    if typeUrl = ed25519TypeUrl then .ok (.ed25519 bytes)
    else if typeUrl = secp256k1TypeUrl then .ok (.secp256k1 bytes)
    else .error (.unsupportedPubKey typeUrl)
  | .any pubkey =>
    if pubkey.typeUrl = hybridPubkeyTypeUrl then
      match PubKey.fromHybridAnyBytes pubkey.value with
      | some pk => .ok pk
      | none => .error (.unsupportedPubKey "malformed hybrid pubkey")
    else .error (.unsupportedPubKey "multisig")
  | .legacyAminoMultisig => .error (.unsupportedPubKey "multisig")

/-- `transpose()?`. -/
def parseOptionalPubkey : Option SignerPublicKey → Except TxError (Option PubKey)
  | none => .ok none
  | some pk => (parseCosmosPubkey pk).map some

/-- The one element of a list of signatures or signers. -/
def theOnly {α : Type} : List α → Except TxError α
  | [] => .error .noSigner
  | [x] => .ok x
  | _ :: _ :: _ => .error .multipleSigners

def getFee (tx : CosmosTx) : Except TxError FeeInfo := do
  let fee ← match tx.authInfo.fee.amount with
    | [] => .ok none
    | [c] => .ok (some c)
    | _ :: _ :: _ => .error .multipleFeeDenoms
  if tx.authInfo.fee.granter.isSome then .error .feeGrantNotSupported
  else if tx.authInfo.fee.payer.isSome then .error .feePayerNotSupported
  else .ok ⟨fee, tx.authInfo.fee.gasLimit⟩

/-- The hash for a sign mode. -/
def messageHash (doc : SignDoc) (msgs : List Msg) (fee : FeeInfo) (sequence : Nat)
    (memo : String) : ModeInfo → ParseM TxError Bytes
  | .single .direct => hashDirectMode lib H doc
  | .single .unspecified => hashDirectMode lib H doc
  | .single .legacyAminoJson => hashLegacyMode lib B H doc msgs fee sequence memo
  | .single mode => throw (.unsupportedSigningMode mode.asStrName)
  | .multi => throw (.unsupportedSigningMode "multi")

def getSigningInfo (tx : CosmosTx) (doc : SignDoc) (msgs : List Msg) (fee : FeeInfo)
    (memo : String) : ParseM TxError SigningInfo := do
  let signature ← ParseM.ofExcept (theOnly tx.signatures)
  let info ← ParseM.ofExcept (theOnly tx.authInfo.signerInfos)
  let pubkey ← ParseM.ofExcept (parseOptionalPubkey info.publicKey)
  let messageHash ← messageHash lib B H doc msgs fee info.sequence memo info.modeInfo
  pure ⟨messageHash, info.sequence, pubkey, signature⟩

/-- The raw document for the signature, and the transaction. -/
def parseRawTx (bytes : Bytes) (chainId : String) : ParseM TxError (CosmosTx × SignDoc) := do
  let raw ← ParseM.ofExcept ((lib.txRaw bytes).mapError .parseError)
  let tx ← ParseM.ofExcept ((lib.tx bytes).mapError .parseError)
  pure (tx, ⟨raw.bodyBytes, raw.authInfoBytes, chainId, fixedAccountNumber⟩)

/-- Zero is no timeout. -/
def timeoutOf (height : Nat) : Option Nat := if height = 0 then none else some height

def parseCosmosTx (bytes : Bytes) (chainId : String) : ParseM TxError SignedTx := do
  let (tx, doc) ← parseRawTx lib bytes chainId
  let msgs ← (parseCosmosMsgs lib B tx.body.messages).mapErr TxError.msg
  let signer ← ParseM.ofExcept ((requiredSigner msgs).mapError TxError.msg)
  let fee ← ParseM.ofExcept (getFee tx)
  let signingInfo ← getSigningInfo lib B H tx doc msgs fee tx.body.memo
  if tx.body.extensionOptions ≠ [] then throw .extensionsNotSupported
  else pure ⟨msgs, signer, signingInfo, fee, timeoutOf tx.body.timeoutHeight, bytes⟩

/-! ## Callers -/

/-- What `block_from_payload` and `recheck_mempool` do with a list of raw
transactions: each is parsed in turn, and those that do not parse are dropped.
`BroadcastTx`, `Simulate` and the gossip task parse one. -/
def parseTxs (chainId : String) : List Bytes → Option (List SignedTx)
  | [] => some []
  | raw :: rest => do
    let parsed ← (parseCosmosTx lib B H raw chainId).run
    let txs ← parseTxs chainId rest
    pure (parsed.toOption.toList ++ txs)

end Tx

end Cosmos

end LayerSdk
