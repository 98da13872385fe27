import LayerSdk.CosmosTx
import LayerSdk.Reference

/-!
# Where the transaction parser panics

Two calls of `unwrap` are reachable: one on the padding of a bech32 address
and one on the JSON of a contract message, which is only parsed for the
legacy document. Both are characterised by what the transaction holds.
-/

namespace LayerSdk

namespace Cosmos

namespace ParseM

variable {ε ε' α β : Type}

@[simp] theorem run_ofExcept (x : Except ε α) : (ofExcept x).run = some x := rfl

@[simp] theorem run_mapErr (f : ε → ε') (x : ParseM ε α) :
    (x.mapErr f).run = x.run.map (·.mapError f) := rfl

theorem run_bind_eq_none {x : ParseM ε α} {f : α → ParseM ε β} :
    (x >>= f).run = none ↔ x.run = none ∨ ∃ a, x.run = some (.ok a) ∧ (f a).run = none := by
  rw [ExceptT.run_bind]
  cases hx : x.run with
  | none => simp
  | some r => cases r <;> simp

theorem run_bind_eq_ok {x : ParseM ε α} {f : α → ParseM ε β} {b : β} :
    (x >>= f).run = some (.ok b) ↔ ∃ a, x.run = some (.ok a) ∧ (f a).run = some (.ok b) := by
  rw [ExceptT.run_bind]
  cases hx : x.run with
  | none => simp
  | some r => cases r <;> simp

end ParseM

theorem mapError_eq_ok {ε ε' α : Type} {x : Except ε α} {f : ε → ε'} {a : α} :
    x.mapError f = .ok a ↔ x = .ok a := by
  cases x <;> simp [Except.mapError]

section Panics

variable {V : Type} (lib : CosmosLib V) (B : Bech32)

/-! ## Addresses -/

/-- A bech32 text of this chain, with the right checksum, whose data do not make
whole bytes. -/
def BadPadding (text : String) : Prop :=
  ∃ data, B.decode text = .ok (bech32Prefix, data, true) ∧ B.fromBase32 data = none

variable {text memo chainId : String} {ε α : Type} {value bytes : Bytes} {doc : SignDoc}
  {msgs : List Msg} {fee : FeeInfo} {tx : CosmosTx}

theorem parseString_eq_none_iff : AccountId.parseString B text = none ↔ BadPadding B text := by
  unfold AccountId.parseString BadPadding
  cases hdecode : B.decode text with
  | error e => simp
  | ok r =>
    obtain ⟨hrp, data, plain⟩ := r
    cases plain with
    | false => simp
    | true =>
      by_cases hhrp : hrp = bech32Prefix <;> simp [hhrp]

/-- Of texts that are read in order, one is badly padded and those before it are
addresses. -/
def FirstBad : List String → Prop
  | [] => False
  | text :: rest =>
    BadPadding B text ∨ (∃ a, AccountId.parseString B text = some (.ok a)) ∧ FirstBad rest

@[simp] theorem address_eq_none_iff : (address B text).run = none ↔ BadPadding B text := by
  rw [← parseString_eq_none_iff]
  exact Option.map_eq_none_iff

@[simp] theorem address_eq_ok_iff {a : AccountId} :
    (address B text).run = some (.ok a) ↔ AccountId.parseString B text = some (.ok a) := by
  change (AccountId.parseString B text).map _ = _ ↔ _
  cases AccountId.parseString B text with
  | none => simp
  | some r => simp [mapError_eq_ok]

/-- Reading an address, then the rest. -/
theorem firstBad_address_bind {rest : List String} {f : AccountId → ParseM MsgError ε}
    (hf : ∀ a, (f a).run = none ↔ FirstBad B rest) :
    (address B text >>= f).run = none ↔ FirstBad B (text :: rest) := by
  rw [ParseM.run_bind_eq_none, address_eq_none_iff, FirstBad]
  simp only [address_eq_ok_iff, hf]
  constructor
  · rintro (hbad | ⟨a, ha, hrest⟩)
    · exact .inl hbad
    · exact .inr ⟨⟨a, ha⟩, hrest⟩
  · rintro (hbad | ⟨⟨a, ha⟩, hrest⟩)
    · exact .inl hbad
    · exact .inr ⟨a, ha, hrest⟩

/-- Parsing coins never panics, and nothing after it does. -/
theorem firstBad_ofExcept {x : Except MsgError α} {f : α → Msg} :
    (do let a ← ParseM.ofExcept x; pure (f a) : ParseM MsgError Msg).run = none ↔
      FirstBad B [] := by
  rw [ParseM.run_bind_eq_none]
  simp [FirstBad]

theorem firstBad_pure {m : Msg} : (pure m : ParseM MsgError Msg).run = none ↔ FirstBad B [] := by
  simp [FirstBad]

def adminTexts (admin : String) : List String := if admin = "" then [] else [admin]

theorem firstBad_admin_bind {admin : String} {rest : List String}
    {f : Option AccountId → ParseM MsgError ε} (hf : ∀ a, (f a).run = none ↔ FirstBad B rest) :
    (parseAdminText B admin >>= f).run = none ↔ FirstBad B (adminTexts admin ++ rest) := by
  unfold parseAdminText adminTexts
  by_cases hadmin : admin = ""
  · simpa [hadmin] using hf none
  · rw [if_neg hadmin, if_neg hadmin, map_eq_pure_bind, bind_assoc]
    exact firstBad_address_bind B fun a => by simpa using hf (some a)

/-! ## Messages -/

def senderTexts : StringOrBytes → List String
  | .string s => [s]
  | .vec _ => []

/-- The address texts of a message in the order they are read, if the parser gets
as far as reading them. -/
def addressTexts (msg : Any) : Option (List String) :=
  if msg.typeUrl = msgSendUrl then
    (lib.msgSend msg.value).toOption.map fun m => [m.fromAddress, m.toAddress]
  else if msg.typeUrl = msgExecuteContractUrl then
    (lib.msgExecuteContract msg.value).toOption.map fun m => [m.sender, m.contract]
  else if msg.typeUrl = msgInstantiateContractUrl then
    (lib.msgInstantiateContract msg.value).toOption.map fun m => adminTexts m.admin ++ [m.sender]
  else if msg.typeUrl = msgInstantiateContract2Url then
    (lib.msgInstantiateContract2 msg.value).toOption.map fun m => adminTexts m.admin ++ [m.sender]
  else if msg.typeUrl = msgStoreCodeUrl then
    (lib.msgStoreCode msg.value).toOption.bind fun m =>
      (unzipIfNeeded lib m.wasmByteCode maxWasmSize).toOption.map fun _ => [m.sender]
  else if msg.typeUrl = msgMigrateContractUrl then
    (lib.msgMigrateContract msg.value).toOption.map fun m => [m.sender, m.contract]
  else if msg.typeUrl = msgUpdateAdminUrl then
    (lib.msgUpdateAdmin msg.value).toOption.map fun m => [m.sender, m.contract, m.newAdmin]
  else if msg.typeUrl = msgClearAdminUrl then
    (lib.msgClearAdmin msg.value).toOption.map fun m => [m.sender, m.contract]
  else if msg.typeUrl = ibcMsgUrl then
    (lib.ibcMsg msg.value).toOption.map fun m => senderTexts m.1
  else none

/-- The parser panics on an address of the message. -/
def MsgPanics (msg : Any) : Prop := ∃ texts, addressTexts lib msg = some texts ∧ FirstBad B texts

/-- Decoding a message, then reading its addresses. -/
theorem firstBad_ofExcept_bind {ε' β : Type} {x : Except ε α} {e : ε → ε'} {f : α → ParseM ε' β}
    {texts : α → List String} (hf : ∀ a, (f a).run = none ↔ FirstBad B (texts a)) :
    (ParseM.ofExcept (x.mapError e) >>= f).run = none ↔
      ∃ l, x.toOption.map texts = some l ∧ FirstBad B l := by
  rw [ParseM.run_bind_eq_none]
  cases x with
  | error e => simp [Except.mapError, Except.toOption]
  | ok a => simp [Except.mapError, Except.toOption, hf]

theorem parseStoreCode_eq_none_iff : (parseStoreCode lib B value).run = none ↔
      ∃ l, ((lib.msgStoreCode value).toOption.bind fun m =>
        (unzipIfNeeded lib m.wasmByteCode maxWasmSize).toOption.map fun _ => [m.sender]) = some l ∧
        FirstBad B l := by
  unfold parseStoreCode proto
  rw [ParseM.run_bind_eq_none]
  cases lib.msgStoreCode value with
  | error e => simp [Except.mapError, Except.toOption]
  | ok m =>
    simp only [ParseM.run_ofExcept, Except.mapError, reduceCtorEq, false_or, Option.some.injEq,
      Except.ok.injEq, exists_eq_left', Except.toOption, Option.bind_some]
    rw [ParseM.run_bind_eq_none]
    cases unzipIfNeeded lib m.wasmByteCode maxWasmSize with
    | error e => simp
    | ok code =>
      have hsender := @firstBad_address_bind B m.sender Msg []
        (fun sender => pure (.wasm (.storeCode sender code))) fun _ => firstBad_pure B
      simpa using hsender

theorem deserializeAccountId_eq_none_iff {s : StringOrBytes} :
    deserializeAccountId B s = none ↔ FirstBad B (senderTexts s) := by
  cases s with
  | string s => simp [deserializeAccountId, senderTexts, FirstBad, parseString_eq_none_iff]
  | vec raw => simp [deserializeAccountId, senderTexts, FirstBad]

theorem parseIbc_eq_none_iff : (parseIbc lib B value).run = none ↔
      ∃ l, ((lib.ibcMsg value).toOption.map fun m => senderTexts m.1) = some l ∧ FirstBad B l := by
  refine firstBad_ofExcept_bind B fun ⟨sender, rest⟩ => ?_
  rw [ParseM.run_bind_eq_none, ← deserializeAccountId_eq_none_iff]
  change (deserializeAccountId B sender).map _ = none ∨ _ ↔ _
  rw [Option.map_eq_none_iff]
  constructor
  · rintro (h | ⟨a, -, hrest⟩)
    · exact h
    · rw [ParseM.run_bind_eq_none] at hrest
      simp at hrest
  · exact .inl

theorem parseCosmosMsg_eq_none_iff {msg : Any} :
    (parseCosmosMsg lib B msg).run = none ↔ MsgPanics lib B msg := by
  unfold parseCosmosMsg MsgPanics addressTexts
  split_ifs
  · exact firstBad_ofExcept_bind B fun _ =>
      firstBad_address_bind B fun _ => firstBad_address_bind B fun _ => firstBad_ofExcept B
  · exact firstBad_ofExcept_bind B fun _ =>
      firstBad_address_bind B fun _ => firstBad_address_bind B fun _ => firstBad_ofExcept B
  · exact firstBad_ofExcept_bind B fun _ =>
      firstBad_admin_bind B fun _ => firstBad_address_bind B fun _ => firstBad_ofExcept B
  · exact firstBad_ofExcept_bind B fun _ =>
      firstBad_admin_bind B fun _ => firstBad_address_bind B fun _ => firstBad_ofExcept B
  · exact parseStoreCode_eq_none_iff lib B
  · exact firstBad_ofExcept_bind B fun _ =>
      firstBad_address_bind B fun _ => firstBad_address_bind B fun _ => firstBad_pure B
  · exact firstBad_ofExcept_bind B fun _ =>
      firstBad_address_bind B fun _ => firstBad_address_bind B fun _ =>
        firstBad_address_bind B fun _ => firstBad_pure B
  · exact firstBad_ofExcept_bind B fun _ =>
      firstBad_address_bind B fun _ => firstBad_address_bind B fun _ => firstBad_pure B
  · exact parseIbc_eq_none_iff lib B
  · simp

/-- One of the messages makes the parser panic, and those before it parse. -/
def FirstPanics : List Any → Prop
  | [] => False
  | msg :: rest =>
    MsgPanics lib B msg ∨
      (∃ m, (parseCosmosMsg lib B msg).run = some (.ok m)) ∧ FirstPanics rest

theorem parseCosmosMsgs_eq_none_iff : ∀ {msgs : List Any},
    (parseCosmosMsgs lib B msgs).run = none ↔ FirstPanics lib B msgs
  | [] => by simp [parseCosmosMsgs, FirstPanics]
  | msg :: rest => by
    rw [parseCosmosMsgs, ParseM.run_bind_eq_none, parseCosmosMsg_eq_none_iff, FirstPanics]
    have hrest : ∀ m, (do
        let ms ← parseCosmosMsgs lib B rest
        pure (m :: ms) : ParseM MsgError (List Msg)).run = none ↔ FirstPanics lib B rest := by
      intro m
      rw [ParseM.run_bind_eq_none, parseCosmosMsgs_eq_none_iff]
      simp
    simp only [hrest, exists_and_right]

/-! ## The legacy document -/

/-- The JSON that a message carries to a contract, where the legacy document has it. -/
def contractMsg : Msg → Option Bytes
  | .wasm (.execute _ _ msg _) => some msg
  | .wasm (.instantiate _ _ _ msg _ _) => some msg
  | _ => none

/-- The message carries something that is not JSON. -/
def NotJson (m : Msg) : Prop := ∃ raw e, contractMsg m = some raw ∧ lib.value raw = .error e

theorem build_eq_none_iff {m : Msg} : AminoMsg.build lib B m = none ↔ NotJson lib m := by
  have hconvert : ∀ raw, (∀ v, ¬ convertMessage lib raw = some v) ↔
      ∃ e, lib.value raw = .error e := by
    intro raw
    unfold convertMessage
    cases lib.value raw <;> simp [Except.toOption]
  unfold AminoMsg.build NotJson contractMsg
  split <;> simp_all

theorem buildAminoMsgs_eq_none_iff : ∀ {msgs : List Msg},
    buildAminoMsgs lib B msgs = none ↔ ∃ m ∈ msgs, NotJson lib m
  | [] => by simp [buildAminoMsgs]
  | m :: rest => by
    rw [List.exists_mem_cons_iff, ← buildAminoMsgs_eq_none_iff, ← build_eq_none_iff lib B,
      buildAminoMsgs]
    cases AminoMsg.build lib B m <;> cases buildAminoMsgs lib B rest <;> simp

/-! ## Transactions -/

variable (H : Bytes → Digest)

/-- What `get_signing_info` finds when it comes to the hash of the legacy document. -/
def SignsLegacy (tx : CosmosTx) : Prop :=
  ∃ signature info pubkey, tx.signatures = [signature] ∧ tx.authInfo.signerInfos = [info] ∧
    parseOptionalPubkey info.publicKey = .ok pubkey ∧
    info.modeInfo = .single .legacyAminoJson

theorem theOnly_eq_ok_iff {l : List α} {x : α} : theOnly l = .ok x ↔ l = [x] := by
  match l with
  | [] => simp [theOnly]
  | [y] => simp [theOnly]
  | _ :: _ :: _ => simp [theOnly]

theorem hashLegacyMode_eq_none_iff {sequence : Nat} :
    (hashLegacyMode lib B H doc msgs fee sequence memo).run = none ↔
      ∃ m ∈ msgs, NotJson lib m := by
  rw [← buildAminoMsgs_eq_none_iff lib B, hashLegacyMode, ParseM.run_bind_eq_none]
  constructor
  · rintro (h | ⟨doc, -, hrest⟩)
    · have hbuild : StdSignDoc.build lib B doc msgs fee sequence memo = none :=
        Option.map_eq_none_iff.mp h
      rw [StdSignDoc.build] at hbuild
      cases hmsgs : buildAminoMsgs lib B msgs with
      | none => rfl
      | some ms => simp [hmsgs] at hbuild
    · rw [ParseM.run_bind_eq_none] at hrest
      simp at hrest
  · intro h
    refine .inl (Option.map_eq_none_iff.mpr ?_)
    rw [StdSignDoc.build, h]
    rfl

theorem messageHash_eq_none_iff {sequence : Nat} {mode : ModeInfo} :
    (messageHash lib B H doc msgs fee sequence memo mode).run = none ↔
      mode = .single .legacyAminoJson ∧ ∃ m ∈ msgs, NotJson lib m := by
  have hdirect : (hashDirectMode lib H doc).run ≠ none := by
    rw [hashDirectMode, Ne, ParseM.run_bind_eq_none]
    simp
  cases mode with
  | multi => simp [messageHash]
  | single mode =>
    cases mode with
    | legacyAminoJson => simpa [messageHash] using hashLegacyMode_eq_none_iff lib B H
    | direct | unspecified => simpa [messageHash] using hdirect
    | textual | directAux | eip191 => simp [messageHash]

theorem getSigningInfo_eq_none_iff : (getSigningInfo lib B H tx doc msgs fee memo).run = none ↔
      SignsLegacy tx ∧ ∃ m ∈ msgs, NotJson lib m := by
  simp only [getSigningInfo, ParseM.run_bind_eq_none, ParseM.run_ofExcept, reduceCtorEq, false_or,
    Option.some.injEq, messageHash_eq_none_iff, ExceptT.run_pure, and_false, exists_const,
    or_false, theOnly_eq_ok_iff, SignsLegacy]
  constructor
  · rintro ⟨signature, hsig, info, hinfo, pubkey, hpk, hmode, hjson⟩
    exact ⟨⟨signature, info, pubkey, hsig, hinfo, hpk, hmode⟩, hjson⟩
  · rintro ⟨⟨signature, info, pubkey, hsig, hinfo, hpk, hmode⟩, hjson⟩
    exact ⟨signature, hsig, info, hinfo, pubkey, hpk, hmode, hjson⟩

/-- The transaction makes the parser panic: on a badly padded address, or, all its
messages and its fee being fine, on a contract message that is not JSON in a
transaction that is signed in legacy mode. -/
def TxPanics (bytes : Bytes) : Prop :=
  ∃ raw tx, lib.txRaw bytes = .ok raw ∧ lib.tx bytes = .ok tx ∧
    (FirstPanics lib B tx.body.messages ∨
      ∃ msgs signer fee, (parseCosmosMsgs lib B tx.body.messages).run = some (.ok msgs) ∧
        requiredSigner msgs = .ok signer ∧ getFee tx = .ok fee ∧
        SignsLegacy tx ∧ ∃ m ∈ msgs, NotJson lib m)

theorem parseRawTx_eq_ok_iff : (parseRawTx lib bytes chainId).run = some (.ok (tx, doc)) ↔
      ∃ raw, lib.txRaw bytes = .ok raw ∧ lib.tx bytes = .ok tx ∧
        doc = ⟨raw.bodyBytes, raw.authInfoBytes, chainId, fixedAccountNumber⟩ := by
  simp only [parseRawTx, ParseM.run_bind_eq_ok, ParseM.run_ofExcept, Option.some.injEq,
    mapError_eq_ok, ExceptT.run_pure]
  constructor
  · rintro ⟨raw, hraw, tx', htx, heq⟩
    cases heq
    exact ⟨raw, hraw, htx, rfl⟩
  · rintro ⟨raw, hraw, htx, rfl⟩
    exact ⟨raw, hraw, tx, htx, rfl⟩

/-- The part after the raw transaction was read. -/
theorem parseCosmosTx_rest_eq_none_iff : (do
      let msgs ← (parseCosmosMsgs lib B tx.body.messages).mapErr TxError.msg
      let signer ← ParseM.ofExcept ((requiredSigner msgs).mapError TxError.msg)
      let fee ← ParseM.ofExcept (getFee tx)
      let signingInfo ← getSigningInfo lib B H tx doc msgs fee tx.body.memo
      if tx.body.extensionOptions ≠ [] then throw .extensionsNotSupported
      else pure ⟨msgs, signer, signingInfo, fee, timeoutOf tx.body.timeoutHeight, bytes⟩ :
        ParseM TxError SignedTx).run = none ↔
      FirstPanics lib B tx.body.messages ∨
        ∃ msgs signer fee, (parseCosmosMsgs lib B tx.body.messages).run = some (.ok msgs) ∧
          requiredSigner msgs = .ok signer ∧ getFee tx = .ok fee ∧
          SignsLegacy tx ∧ ∃ m ∈ msgs, NotJson lib m := by
  have hlast : ∀ s : SignedTx,
      (if tx.body.extensionOptions ≠ [] then throw .extensionsNotSupported
        else pure s : ParseM TxError SignedTx).run = none ↔ False := by
    intro s
    split <;> simp
  have hok : ∀ msgs, ((parseCosmosMsgs lib B tx.body.messages).mapErr TxError.msg).run =
      some (.ok msgs) ↔ (parseCosmosMsgs lib B tx.body.messages).run = some (.ok msgs) := by
    intro msgs
    rw [ParseM.run_mapErr]
    cases (parseCosmosMsgs lib B tx.body.messages).run <;> simp [mapError_eq_ok]
  simp only [ParseM.run_bind_eq_none, hok, hlast, getSigningInfo_eq_none_iff,
    ParseM.run_ofExcept, reduceCtorEq, false_or, Option.some.injEq, mapError_eq_ok, and_false,
    exists_false, or_false]
  rw [ParseM.run_mapErr, Option.map_eq_none_iff, parseCosmosMsgs_eq_none_iff]
  refine or_congr_right ?_
  constructor
  · rintro ⟨msgs, hmsgs, signer, hsigner, fee, hfee, hlegacy, hjson⟩
    exact ⟨msgs, signer, fee, hmsgs, hsigner, hfee, hlegacy, hjson⟩
  · rintro ⟨msgs, signer, fee, hmsgs, hsigner, hfee, hlegacy, hjson⟩
    exact ⟨msgs, hmsgs, signer, hsigner, fee, hfee, hlegacy, hjson⟩

theorem parseCosmosTx_eq_none_iff :
    (parseCosmosTx lib B H bytes chainId).run = none ↔ TxPanics lib B bytes := by
  have hraw : (parseRawTx lib bytes chainId).run ≠ none := by
    simp only [parseRawTx, Ne, ParseM.run_bind_eq_none, ParseM.run_ofExcept, ExceptT.run_pure]
    simp
  rw [parseCosmosTx, ParseM.run_bind_eq_none, or_iff_right hraw]
  constructor
  · rintro ⟨⟨tx, doc⟩, hparse, hrest⟩
    obtain ⟨raw, hraw, htx, rfl⟩ := (parseRawTx_eq_ok_iff lib).mp hparse
    exact ⟨raw, tx, hraw, htx, (parseCosmosTx_rest_eq_none_iff lib B H).mp hrest⟩
  · rintro ⟨raw, tx, hraw, htx, hrest⟩
    exact ⟨(tx, ⟨raw.bodyBytes, raw.authInfoBytes, chainId, fixedAccountNumber⟩),
      (parseRawTx_eq_ok_iff lib).mpr ⟨raw, hraw, htx, rfl⟩,
      (parseCosmosTx_rest_eq_none_iff lib B H).mpr hrest⟩

theorem parseTxs_eq_none_iff : ∀ {txs : List Bytes},
    parseTxs lib B H chainId txs = none ↔ ∃ bytes ∈ txs, TxPanics lib B bytes
  | [] => by simp [parseTxs]
  | bytes :: rest => by
    have hfirst : (parseCosmosTx lib B H bytes chainId).run = none ↔ _ :=
      parseCosmosTx_eq_none_iff lib B H
    have hrest : parseTxs lib B H chainId rest = none ↔ _ := parseTxs_eq_none_iff
    rw [List.exists_mem_cons_iff, ← hfirst, ← hrest, parseTxs]
    cases (parseCosmosTx lib B H bytes chainId).run <;>
      cases parseTxs lib B H chainId rest <;> simp

/-- **Panics of the parser.** A transaction is parsed to a result or an error, and
a list of them is worked through, if and only if none of them is one to panic
on, whatever the chain. -/
theorem parse_total_iff (chainId : String) :
    (∀ bytes, (parseCosmosTx lib B H bytes chainId).run ≠ none ↔ ¬ TxPanics lib B bytes) ∧
    ∀ txs, parseTxs lib B H chainId txs ≠ none ↔ ∀ bytes ∈ txs, ¬ TxPanics lib B bytes := by
  refine ⟨fun bytes => not_congr (parseCosmosTx_eq_none_iff lib B H), fun txs => ?_⟩
  rw [Ne, parseTxs_eq_none_iff]
  simp

end Panics

/-! ## Raw transactions

The protobuf texts of the types that the transactions below use, and libraries
that know them. -/

def Any.proto (a : Any) : Bytes := protoText 1 a.typeUrl ++ protoBytes 2 a.value

def SdkCoin.proto (c : SdkCoin) : Bytes := protoText 1 c.denom ++ protoText 2 c.amount

def MsgSend.proto (m : MsgSend) : Bytes :=
  protoText 1 m.fromAddress ++ protoText 2 m.toAddress ++
    m.amount.flatMap fun c => protoField 3 c.proto

def MsgExecuteContract.proto (m : MsgExecuteContract) : Bytes :=
  protoText 1 m.sender ++ protoText 2 m.contract ++ protoBytes 3 m.msg ++
    m.funds.flatMap fun c => protoField 5 c.proto

def MsgUpdateAdmin.proto (m : MsgUpdateAdmin) : Bytes :=
  protoText 1 m.sender ++ protoText 2 m.newAdmin ++ protoText 3 m.contract

def Body.proto (b : Body) : Bytes :=
  (b.messages.flatMap fun m => protoField 1 m.proto) ++ protoText 2 b.memo ++
    protoUint 3 b.timeoutHeight ++ b.extensionOptions.flatMap fun m => protoField 1023 m.proto

def SignMode.number : SignMode → Nat
  | unspecified => 0
  | direct => 1
  | textual => 2
  | directAux => 3
  | legacyAminoJson => 127
  | eip191 => 191

/-- Of a signer without a key in the transaction. -/
def SignerInfo.proto (info : SignerInfo) : Bytes :=
  (match info.modeInfo with
    | .single mode => protoField 2 (protoField 1 (protoUint 1 mode.number))
    | .multi => []) ++ protoUint 3 info.sequence

def Fee.proto (fee : Fee) : Bytes :=
  (fee.amount.flatMap fun c =>
    protoField 1 (protoText 1 c.denom ++ protoText 2 (Nat.repr c.amount))) ++
    protoUint 2 fee.gasLimit

def AuthInfo.proto (a : AuthInfo) : Bytes :=
  (a.signerInfos.flatMap fun info => protoField 1 info.proto) ++ protoField 2 a.fee.proto

def CosmosTx.proto (tx : CosmosTx) : Bytes :=
  protoBytes 1 tx.body.proto ++ protoBytes 2 tx.authInfo.proto ++
    tx.signatures.flatMap fun s => protoField 3 s

def SignDoc.proto (d : SignDoc) : Bytes :=
  protoBytes 1 d.bodyBytes ++ protoBytes 2 d.authInfoBytes ++ protoText 3 d.chainId ++
    protoUint 4 d.accountNumber

def decodeRow {α : Type} (rows : List (Bytes × α)) (b : Bytes) : Except String α :=
  match rows.find? fun r => decide (r.1 = b) with
  | some r => .ok r.2
  | none => .error "failed to decode Protobuf message"

/-- The values a run comes across. -/
structure KnownTxs where
  txs : List CosmosTx
  sends : List MsgSend := []
  executes : List MsgExecuteContract := []
  updateAdmins : List MsgUpdateAdmin := []
  json : List Bytes := []

/-- The libraries on the given values. JSON values are kept as their texts. -/
def CosmosLib.ofValues (v : KnownTxs) (docJson : StdSignDoc Bytes → Except String String) :
    CosmosLib Bytes where
  txRaw := decodeRow (v.txs.map fun tx => (tx.proto, ⟨tx.body.proto, tx.authInfo.proto⟩))
  tx := decodeRow (v.txs.map fun tx => (tx.proto, tx))
  msgSend := decodeRow (v.sends.map fun m => (m.proto, m))
  msgExecuteContract := decodeRow (v.executes.map fun m => (m.proto, m))
  msgInstantiateContract := decodeRow []
  msgInstantiateContract2 := decodeRow []
  msgStoreCode := decodeRow []
  msgMigrateContract := decodeRow []
  msgUpdateAdmin := decodeRow (v.updateAdmins.map fun m => (m.proto, m))
  msgClearAdmin := decodeRow []
  ibcMsg _ := .error "expected value at line 1 column 1"
  gunzip _ _ := .error "invalid gzip header"
  signDocBytes d := .ok d.proto
  value b := if v.json.contains b then .ok b else .error "expected value at line 1 column 1"
  docJson := docJson

def authInfoIn (mode : SignMode) : AuthInfo := ⟨[⟨none, .single mode, 0⟩], ⟨[], 200000, none, none⟩⟩

/-- The data of the address are five bits. -/
def paddedSend : MsgSend := ⟨"juno1pfnnel3", "juno1qgpqyqszqgpqyqszqgpqyqszqgpqyqsz49yqpk", []⟩

def paddedTx : CosmosTx :=
  ⟨⟨[⟨msgSendUrl, paddedSend.proto⟩], "", 0, []⟩, authInfoIn .direct, [List.replicate 64 0]⟩

/-- A contract message of one byte, which is not JSON. -/
def binaryExecute : MsgExecuteContract :=
  ⟨"juno1qyqszqgpqyqszqgpqyqszqgpqyqszqgpypz92q", "juno1qgpqyqszqgpqyqszqgpqyqszqgpqyqsz49yqpk",
    [0xff], []⟩

def binaryTx : CosmosTx :=
  ⟨⟨[⟨msgExecuteContractUrl, binaryExecute.proto⟩], "", 0, []⟩, authInfoIn .legacyAminoJson,
    [List.replicate 64 0]⟩

def panicLib : CosmosLib Bytes :=
  .ofValues ⟨[paddedTx, binaryTx], [paddedSend], [binaryExecute], [], []⟩ fun _ => .error ""

theorem rawTxs_panic :
    (parseCosmosTx panicLib Bech32.crate sha256 paddedTx.proto "junoclaw-1").run.isNone = true ∧
      (parseCosmosTx panicLib Bech32.crate sha256 binaryTx.proto "junoclaw-1").run.isNone = true ∧
      (parseTxs panicLib Bech32.crate sha256 "junoclaw-1" [binaryTx.proto]).isNone = true := by
  refine ⟨?_, ?_, ?_⟩
  all_goals decide +kernel

end Cosmos

end LayerSdk
