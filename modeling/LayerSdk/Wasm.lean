import LayerSdk.Auth

/-!
# The wasm keeper

Codes, contracts and their calls. Every arm of `process_msg` works on the
storage it is given, write by write: the funds are moved and the indexes
updated before the contract is called, and nothing here takes a write back
when a later step fails. `dispatchResponseMessages` runs the messages a
contract returned, each against a meter of its own, and hands a failure that
the contract asked to see to its `reply` entry point.
-/

namespace LayerSdk

open EffectProg

/-- `to_be_bytes` of a `u64`. -/
def u64be (n : Nat) : Bytes :=
  [UInt8.ofNat (n / 2 ^ 56), UInt8.ofNat (n / 2 ^ 48), UInt8.ofNat (n / 2 ^ 40),
    UInt8.ofNat (n / 2 ^ 32), UInt8.ofNat (n / 2 ^ 24), UInt8.ofNat (n / 2 ^ 16),
    UInt8.ofNat (n / 2 ^ 8), UInt8.ofNat n]

namespace Wasm

def loadWasmGas : Nat := 60000

def loadPinnedWasmGas : Nat := 2000

/-! ## Events -/

section Events

variable (E : Externals)

def contractAttr (contract : AccountId) : String × String :=
  ("_contract_address", E.display contract)

def validateAttributes : List (String × String) → Except WasmError Unit
  | [] => .ok ()
  | (key, _) :: rest =>
    if key.toList.head? = some '_' then .error (.invalidAttributeKey key)
    else validateAttributes rest

/-- The contract's own events, renamed and marked with its address. -/
def customEvents (contract : AccountId) : List Event → Except WasmError (List Event)
  | [] => .ok []
  | ev :: rest => do
    validateAttributes ev.attributes
    let out ← customEvents contract rest
    pure (⟨"wasm-" ++ ev.ty, contractAttr E contract :: ev.attributes⟩ :: out)

def buildContractEvents (contract : AccountId) (events : List Event)
    (attributes : List (String × String)) : Except WasmError (List Event) := do
  let out ← customEvents E contract events
  if attributes = [] then pure out
  else do
    validateAttributes attributes
    pure (out ++ [⟨"wasm", contractAttr E contract :: attributes⟩])

def storeCodeEvent (codeId : Nat) (capabilities : List String) : Event :=
  ⟨"store_code", ("code_id", Nat.repr codeId) :: capabilities.map fun cap => ("feature", cap)⟩

def instantiateEvent (contract : AccountId) (codeId : Nat) : Event :=
  ⟨"instantiate", [("code_id", Nat.repr codeId), contractAttr E contract]⟩

def executeEvent (contract : AccountId) : Event := ⟨"execute", [contractAttr E contract]⟩

def migrateEvent (contract : AccountId) (codeId : Nat) : Event :=
  ⟨"migrate", [("code_id", Nat.repr codeId), contractAttr E contract]⟩

def updateAdminEvent (contract admin : AccountId) : Event :=
  ⟨"update_admin", [contractAttr E contract, ("admin", E.display admin)]⟩

def clearAdminEvent (contract : AccountId) : Event := ⟨"clear_admin", [contractAttr E contract]⟩

def pinCodeEvent (codeId : Nat) : Event := ⟨"pin_code", [("code_id", Nat.repr codeId)]⟩

def unpinCodeEvent (codeId : Nat) : Event := ⟨"unpin_code", [("code_id", Nat.repr codeId)]⟩

def sudoEvent (contract : AccountId) : Event := ⟨"sudo", [contractAttr E contract]⟩

def replyEvent (contract : AccountId) (isSuccess : Bool) : Event :=
  ⟨"reply", [contractAttr E contract,
    ("mode", if isSuccess then "handle_success" else "handle_failure")]⟩

end Events

section Keeper

variable (E : Externals)

/-! ## Storage -/

def codes : PlusMap CodeInfo := ⟨str "codes", E.codecs.codeInfo⟩

def contracts : PlusMap ContractData := ⟨str "contracts", E.codecs.contractData⟩

def contractsByCode : PlusMap Bool := ⟨str "contracts_by_code", E.codecs.bool⟩

def pinned : PlusMap Unit := ⟨str "pinned", E.codecs.empty⟩

def codeIdItem : Item Nat := ⟨str "code_id", E.codecs.u64⟩

def contractCounter : Item Nat := ⟨str "contract_count", E.codecs.u64⟩

def codeBytes : PlusMap Bytes := ⟨str "code_bytes", E.codecs.bytes⟩

def cache : VmCache := ⟨E.vm, codeBytes E, E.doQueryRaw⟩

def loadContract (address : AccountId) : StorageM PulsarError ContractData :=
  prefixed namespaceWasm ((contracts E).at [] address.bytes Item.load)

def saveContract (address : AccountId) (contract : ContractData) : StorageM PulsarError Unit :=
  prefixed namespaceWasm ((contracts E).at [] address.bytes fun i => i.save contract)

def saveContractByCode (address : AccountId) (contract : ContractData) :
    StorageM PulsarError Unit :=
  prefixed namespaceWasm
    ((contractsByCode E).at [u64be contract.codeId] address.bytes fun i => i.save true)

def removeContractByCode (address : AccountId) (contract : ContractData) :
    StorageM PulsarError Unit :=
  prefixed namespaceWasm
    ((contractsByCode E).at [u64be contract.codeId] address.bytes Item.remove)

def loadCode (id : Nat) : StorageM PulsarError CodeInfo :=
  prefixed namespaceWasm ((codes E).at [] (u64be id) Item.load)

def saveCode (id : Nat) (info : CodeInfo) : StorageM PulsarError Unit :=
  prefixed namespaceWasm ((codes E).at [] (u64be id) fun i => i.save info)

/-- Add one to a stored counter, which starts at zero. -/
def bump (counter : Item Nat) : StorageM PulsarError Nat := do
  let old ← counter.mayLoad
  if old.getD 0 = u64Max then Comp.panic
  else do
    counter.save (old.getD 0 + 1)
    pure (old.getD 0 + 1)

def nextId : StorageM PulsarError Nat := prefixed namespaceWasm (bump (codeIdItem E))

/-! ## Addresses -/

def liftAccountId (x : Except AccountIdError AccountId) : StorageM PulsarError AccountId :=
  Comp.ofExcept (x.mapError .accountId)

def instantiatePreimage (sender : AccountId) (codeId counter : Nat) : Bytes :=
  sender.bytes ++ u64be codeId ++ u64be counter

def buildInstantiateAddress (sender : AccountId) (codeId counter : Nat) :
    StorageM PulsarError AccountId :=
  liftAccountId (AccountId.new (E.crypto.sha256 (instantiatePreimage sender codeId counter)).bytes)

def generateAddress (sender : AccountId) (codeId : Nat) : StorageM PulsarError AccountId := do
  let counter ← prefixed namespaceWasm (bump (contractCounter E))
  buildInstantiateAddress E sender codeId counter

/-- The module hash of the Cosmos SDK. -/
def moduleHash (ty : String) (key : Bytes) : Bytes :=
  (E.crypto.sha256 ((E.crypto.sha256 (str ty)).bytes ++ key)).bytes

def instantiate2Key (checksum : Bytes) (creator : AccountId) (salt msg : Bytes) : Bytes :=
  str "wasm" ++ [0] ++ u64be 32 ++ checksum ++ u64be creator.bytes.length ++ creator.bytes ++
    u64be salt.length ++ salt ++ u64be msg.length ++ msg

def buildInstantiate2Address (checksum : Bytes) (creator : AccountId) (salt msg : Bytes) :
    StorageM PulsarError AccountId :=
  if salt = [] ∨ salt.length > 64 then
    throw (.wasm (.instantiate2Error .invalidSaltLength))
  else liftAccountId (AccountId.new (moduleHash E "module" (instantiate2Key checksum creator salt msg)))

/-! ## Calls -/

def buildEnv (block : BlockInfo) (contract : AccountId) : CwEnv := ⟨block, E.display contract⟩

def buildInfo (sender : AccountId) (funds : List Coin) : MessageInfo := ⟨E.display sender, funds⟩

def mapVmError : VmError → PulsarError
  | .gasDepletion => .gas .outOfGas
  | e => .wasm (.vm (E.vm.display e))

def mapCacheResult : ContractResult → Except PulsarError CwResponse
  | .error e => .error (mapVmError E e)
  | .ok (.error e) => .error (.wasm (.contract e))
  | .ok (.ok r) => .ok r

/-- A checksum to run, and what loading it costs. `Checksum::try_from(..).unwrap()`
panics on another length. -/
def getChecksumNotExecuting (code : CodeInfo) : StorageM PulsarError Bytes :=
  if code.checksum.length = 32 then pure code.checksum else Comp.panic

def getChecksumToExecute (code : CodeInfo) : StorageM PulsarError Bytes := do
  charge (if code.pinned then loadPinnedWasmGas else loadWasmGas)
  getChecksumNotExecuting code

/-- Charge the gas of a call and take its response. -/
def finishCall (call : StorageM PulsarError (ContractResult × Nat)) :
    StorageM PulsarError CwResponse := do
  let (result, gas) ← call
  charge gas
  Comp.ofExcept (mapCacheResult E result)

/-- Only the admin or the root contract may change a contract. -/
def checkAdmin (contract : ContractData) (sender : AccountId) : StorageM PulsarError Unit :=
  if contract.admin = some sender ∨ sender = rootAccount then pure ()
  else throw (.wasm .unauthorized)

variable (sm : Sm) (block : BlockInfo)

/-! ## Messages of a contract -/

variable (contract : AccountId)

/-- Only the root contract has messages of its own. -/
def customRootMsgToLayer : CustomRootMsg → StorageM PulsarError Msg
  | .sudoContract contractAddr msg => do
    let contractAddr ← E.parseAccount contractAddr
    pure (.wasm (.sudoContract rootAccount contractAddr msg))
  | .clearAdmin contractAddr => do
    let contractAddr ← E.parseAccount contractAddr
    pure (.wasm (.clearAdmin rootAccount contractAddr))
  | .updateAdmin contractAddr admin => do
    let contractAddr ← E.parseAccount contractAddr
    let admin ← E.parseAccount admin
    pure (.wasm (.updateAdmin rootAccount contractAddr admin))
  | .pin codeId => pure (.wasm (.pin rootAccount codeId))
  | .unpin codeId => pure (.wasm (.unpin rootAccount codeId))
  | .migrate contractAddr newCodeId msg => do
    let contractAddr ← E.parseAccount contractAddr
    pure (.wasm (.migrate rootAccount contractAddr newCodeId msg))

/-- `admin.map(parse_string).transpose()?`. -/
def parseAdmin : Option String → StorageM PulsarError (Option AccountId)
  | none => pure none
  | some admin => some <$> E.parseAccount admin

def cosmwasmMsgToLayer (sender : AccountId) : CosmosMsg → StorageM PulsarError Msg
  | .bank (.send toAddress amount) => do
    let recipient ← E.parseAccount toAddress
    pure (.bank (.send sender recipient amount))
  | .bank (.burn amount) => pure (.bank (.burn sender amount))
  | .bank (.other kind) =>
    throw (.wasm (.unsupportedCosmosMsg ("BankMsg variant not supported: " ++ kind)))
  | .wasm (.execute contractAddr msg funds) => do
    let contractAddr ← E.parseAccount contractAddr
    pure (.wasm (.execute sender contractAddr msg funds))
  | .wasm (.instantiate admin codeId msg funds label) => do
    let admin ← parseAdmin E admin
    pure (.wasm (.instantiate sender admin codeId msg funds label))
  | .wasm (.instantiate2 admin codeId label msg funds salt) => do
    let admin ← parseAdmin E admin
    pure (.wasm (.instantiate2 sender admin codeId label msg funds salt))
  | .wasm (.migrate contractAddr msg newCodeId) => do
    let contractAddr ← E.parseAccount contractAddr
    pure (.wasm (.migrate sender contractAddr newCodeId msg))
  | .wasm (.updateAdmin contractAddr admin) => do
    let contractAddr ← E.parseAccount contractAddr
    let admin ← E.parseAccount admin
    pure (.wasm (.updateAdmin sender contractAddr admin))
  | .wasm (.clearAdmin contractAddr) => do
    let contractAddr ← E.parseAccount contractAddr
    pure (.wasm (.clearAdmin sender contractAddr))
  | .wasm (.other kind) =>
    throw (.wasm (.unsupportedCosmosMsg ("WasmMsg variant not supported: " ++ kind)))
  | .custom msg => do
    ensureEq sender rootAccount (.wasm .notRoot)
    customRootMsgToLayer E msg
  | .stargate typeUrl => throw (.wasm (.unsupportedCosmosMsg ("Stargate(" ++ typeUrl ++ ")")))
  | .any typeUrl => throw (.wasm (.unsupportedCosmosMsg ("Any(" ++ typeUrl ++ ")")))
  | .other kind => throw (.wasm (.unsupportedCosmosMsg kind))

/-- A limit below what is left gets a meter of its own size. -/
def subMeter (gasLimit : Option Nat) (m : GasMeter) : GasMeter :=
  match gasLimit with
  | some limit => if limit < m.remaining then .new limit else .new m.remaining
  | none => .new m.remaining

def handleReply : ReplyOn → Bool → Bool
  | .always, _ => true
  | .success, true => true
  | .error, false => true
  | _, _ => false

def replyResult : Except PulsarError MsgResult → Except String SubMsgResponse
  | .ok res =>
    let (typeUrl, value) := encodeCosmwasmResponse E.bech32 E.codecs.ibcMsgData res.data
    .ok ⟨res.events, maybeBinary value, [(typeUrl, value)]⟩
  | .error e => .error (e.display E.bech32)

/-- The events of a message that went through. -/
def resultEvents : Except PulsarError MsgResult → List Event
  | .ok res => res.events
  | .error _ => []

/-- Convert one message and run it on the node's storage against its own meter.
The gas is charged whether or not it failed. -/
def runSubMsg (sub : SubMsg) : StorageM PulsarError (Except PulsarError MsgResult) := do
  let m ← meter
  let layerMsg ← cosmwasmMsgToLayer E contract sub.msg
  let (msgResult, used) ← Comp.withMeter (subMeter sub.gasLimit m)
    (sm.processMsg contract block layerMsg)
  charge used.used
  pure msgResult

/-- What follows the message: its reply, or else its error. -/
def settle (checksum : Bytes) (sub : SubMsg) (msgResult : Except PulsarError MsgResult)
    (response : MsgResult) (allowSubmsg : Bool) : StorageM PulsarError MsgResult :=
  if handleReply sub.replyOn msgResult.isOk then do
    let result ← finishCall E ((cache E).reply checksum (buildEnv E block contract) contract
      ⟨sub.id, sub.payload, 0, replyResult E msgResult⟩)
    let events ← Comp.ofExcept ((buildContractEvents E contract result.events
      result.attributes).mapError .wasm)
    let data := match result.data with
      | some data => setDataField data response.data
      | none => response.data
    let response : MsgResult := ⟨data, response.events ++ resultEvents msgResult ++
      [replyEvent E contract msgResult.isOk] ++ events⟩
    if result.messages = [] then pure response
    else sm.dispatchResponseMessages block contract checksum result.messages response allowSubmsg
  else do
    let res ← Comp.ofExcept msgResult
    pure { response with events := response.events ++ res.events }

def dispatchLoop (checksum : Bytes) (allowSubmsg : Bool) :
    List SubMsg → MsgResult → StorageM PulsarError MsgResult
  | [], response => pure response
  | sub :: rest, response => do
    let msgResult ← runSubMsg E sm block contract sub
    let response ← settle E sm block contract checksum sub msgResult response allowSubmsg
    dispatchLoop checksum allowSubmsg rest response

def dispatchResponseMessages (checksum : Bytes) (msgs : List SubMsg) (response : MsgResult)
    (allowSubmsg : Bool) : StorageM PulsarError MsgResult :=
  if allowSubmsg = false ∧ msgs ≠ [] then throw (.wasm .subMsgNotSupported)
  else dispatchLoop E sm block contract checksum allowSubmsg msgs response

/-! ## Operations -/

def sendFunds (sender contract : AccountId) (funds : List Coin) : StorageM PulsarError Unit :=
  if funds = [] then pure () else sm.bankTransfer block sender contract funds

/-- Events and messages of a contract's response. -/
def finishResponse (checksum : Bytes) (event : Event)
    (data : Bytes → WasmMsgData) (result : CwResponse) (allowSubmsg : Bool) :
    StorageM PulsarError MsgResult := do
  let events ← Comp.ofExcept ((buildContractEvents E contract result.events
    result.attributes).mapError .wasm)
  sm.dispatchResponseMessages block contract checksum result.messages
    ⟨.wasm (data (result.data.getD [])), event :: events⟩ allowSubmsg

def doInstantiate (signer contractAddr : AccountId) (codeId : Nat) (code : CodeInfo)
    (admin : Option AccountId) (msg : Bytes) (funds : List Coin) (label : String)
    (allowSubmsg : Bool) : StorageM PulsarError MsgResult := do
  Auth.claimInternalAccount E contractAddr
  let contract : ContractData := ⟨codeId, signer, admin, label, block.height⟩
  saveContract E contractAddr contract
  saveContractByCode E contractAddr contract
  sendFunds sm block signer contractAddr funds
  let checksum ← getChecksumToExecute code
  let result ← finishCall E ((cache E).instantiate checksum (buildEnv E block contractAddr)
    contractAddr (buildInfo E signer funds) msg)
  finishResponse E sm block contractAddr checksum (instantiateEvent E contractAddr codeId)
    (.instantiate contractAddr) result allowSubmsg

/-! ## Messages -/

def storeCode (sender : AccountId) (code : Bytes) : StorageM PulsarError MsgResult := do
  let checksum ← Comp.ofExcept ((E.vm.storeCode code).mapError (mapVmError E))
  let capabilities ← Comp.ofExcept ((E.vm.analyze checksum).mapError (mapVmError E))
  let id ← nextId E
  prefixed namespaceWasm ((codeBytes E).at [] checksum fun i => i.save code)
  saveCode E id ⟨sender, checksum, false⟩
  pure ⟨.wasm (.store id checksum), [storeCodeEvent id capabilities]⟩

def execute (sender contractAddr : AccountId) (msg : Bytes) (funds : List Coin)
    (allowSubmsg : Bool) : StorageM PulsarError MsgResult := do
  let contract ← loadContract E contractAddr
  let code ← loadCode E contract.codeId
  sendFunds sm block sender contractAddr funds
  let checksum ← getChecksumToExecute code
  let result ← finishCall E ((cache E).execute checksum (buildEnv E block contractAddr)
    contractAddr (buildInfo E sender funds) msg)
  finishResponse E sm block contractAddr checksum (executeEvent E contractAddr) .execute result
    allowSubmsg

def migrate (sender contractAddr : AccountId) (newCodeId : Nat) (msg : Bytes)
    (allowSubmsg : Bool) : StorageM PulsarError MsgResult := do
  let contract ← loadContract E contractAddr
  checkAdmin contract sender
  -- the index entry goes before the new code is known to exist
  removeContractByCode E contractAddr contract
  let code ← loadCode E newCodeId
  saveContract E contractAddr { contract with codeId := newCodeId }
  saveContractByCode E contractAddr { contract with codeId := newCodeId }
  let checksum ← getChecksumToExecute code
  let result ← finishCall E ((cache E).migrate checksum (buildEnv E block contractAddr)
    contractAddr msg)
  finishResponse E sm block contractAddr checksum (migrateEvent E contractAddr newCodeId) .migrate
    result allowSubmsg

/-- `ClearAdmin` and `UpdateAdmin`. -/
def setAdmin (sender contractAddr : AccountId) (admin : Option AccountId) (event : Event)
    (data : WasmMsgData) : StorageM PulsarError MsgResult := do
  let contract ← loadContract E contractAddr
  checkAdmin contract sender
  saveContract E contractAddr { contract with admin }
  pure ⟨.wasm data, [event]⟩

def sudoContract (contractAddr : AccountId) (msg : Bytes) (allowSubmsg : Bool) :
    StorageM PulsarError MsgResult := do
  let contract ← loadContract E contractAddr
  let code ← loadCode E contract.codeId
  let checksum ← getChecksumToExecute code
  let result ← finishCall E ((cache E).sudoEntry checksum (buildEnv E block contractAddr)
    contractAddr msg)
  finishResponse E sm block contractAddr checksum (sudoEvent E contractAddr) .sudoContract result
    allowSubmsg

def pin (codeId : Nat) : StorageM PulsarError MsgResult := do
  let code ← loadCode E codeId
  if code.pinned then pure ⟨.wasm .pinCode, [pinCodeEvent codeId]⟩
  else do
    saveCode E codeId { code with pinned := true }
    let checksum ← getChecksumNotExecuting code
    let cached ← (cache E).ensureCached checksum
    Comp.ofExcept (cached.mapError (mapVmError E))
    Comp.ofExcept ((E.vm.pin checksum).mapError (mapVmError E))
    prefixed namespaceWasm ((pinned E).at [] (u64be codeId) fun i => i.save ())
    pure ⟨.wasm .pinCode, [pinCodeEvent codeId]⟩

def unpin (codeId : Nat) : StorageM PulsarError MsgResult := do
  let code ← loadCode E codeId
  if code.pinned then do
    saveCode E codeId { code with pinned := false }
    let checksum ← getChecksumNotExecuting code
    Comp.ofExcept ((E.vm.unpin checksum).mapError (mapVmError E))
    prefixed namespaceWasm ((pinned E).at [] (u64be codeId) Item.remove)
    pure ⟨.wasm .unpinCode, [unpinCodeEvent codeId]⟩
  else pure ⟨.wasm .unpinCode, [unpinCodeEvent codeId]⟩

/-- `_process_msg`. The root messages check their sender field only. -/
def processMsgWith (signer : AccountId) (allowSubmsg : Bool) :
    WasmMsg → StorageM PulsarError MsgResult
  | .storeCode sender code => do
    ensureEq signer sender (.wasm .senderMismatch)
    storeCode E sender code
  | .instantiate sender admin codeId msg funds label => do
    ensureEq signer sender (.wasm .senderMismatch)
    let code ← loadCode E codeId
    let contractAddr ← generateAddress E sender codeId
    doInstantiate E sm block signer contractAddr codeId code admin msg funds label allowSubmsg
  | .instantiate2 sender admin codeId label msg funds salt => do
    ensureEq signer sender (.wasm .senderMismatch)
    let code ← loadCode E codeId
    if code.checksum.length ≠ 32 then throw (.wasm .checksum)
    else do
      let contractAddr ← buildInstantiate2Address E code.checksum sender salt []
      doInstantiate E sm block signer contractAddr codeId code admin msg funds label allowSubmsg
  | .execute sender contractAddr msg funds => do
    ensureEq signer sender (.wasm .senderMismatch)
    execute E sm block sender contractAddr msg funds allowSubmsg
  | .migrate sender contractAddr newCodeId msg => do
    ensureEq signer sender (.wasm .senderMismatch)
    migrate E sm block sender contractAddr newCodeId msg allowSubmsg
  | .clearAdmin sender contractAddr => do
    ensureEq signer sender (.wasm .senderMismatch)
    setAdmin E sender contractAddr none (clearAdminEvent E contractAddr) .clearAdmin
  | .updateAdmin sender contractAddr admin => do
    ensureEq signer sender (.wasm .senderMismatch)
    setAdmin E sender contractAddr (some admin) (updateAdminEvent E contractAddr admin)
      .updateAdmin
  | .sudoContract sender contractAddr msg => do
    ensureEq sender rootAccount (.wasm .notRoot)
    sudoContract E sm block contractAddr msg allowSubmsg
  | .pin sender codeId => do
    ensureEq sender rootAccount (.wasm .notRoot)
    pin E codeId
  | .unpin sender codeId => do
    ensureEq sender rootAccount (.wasm .notRoot)
    unpin E codeId

def processMsg (signer : AccountId) (msg : WasmMsg) : StorageM PulsarError MsgResult :=
  processMsgWith E sm block signer true msg

def processMsgNoSubmsg (signer : AccountId) (msg : WasmMsg) : StorageM PulsarError MsgResult :=
  processMsgWith E sm block signer false msg

/-! ## Genesis -/

/-- Stores and pins the root contract's code. -/
def storeRootCode (govAccount : AccountId) : StorageM PulsarError (Nat × CodeInfo) := do
  let checksum ← Comp.ofExcept ((E.vm.storeCode E.rootWasm).mapError (mapVmError E))
  let _ ← Comp.ofExcept ((E.vm.analyze checksum).mapError (mapVmError E))
  let info : CodeInfo := ⟨govAccount, checksum, true⟩
  let id ← nextId E
  saveCode E id info
  prefixed namespaceWasm ((codeBytes E).at [] checksum fun i => i.save E.rootWasm)
  let checksum ← getChecksumNotExecuting info
  Comp.ofExcept ((E.vm.pin checksum).mapError (mapVmError E))
  prefixed namespaceWasm ((pinned E).at [] (u64be id) fun i => i.save ())
  pure (id, info)

def init (govAccount : String) : StorageM PulsarError Unit := do
  let govAccount ← E.parseAccount govAccount
  let (codeId, code) ← storeRootCode E govAccount
  let msg ← liftStd (E.codecs.rootInstantiateMsg (E.display govAccount))
  let _ ← doInstantiate E sm block govAccount rootAccount codeId code (some govAccount) msg []
    "Root Contract" true
  pure ()

end Keeper

end Wasm

end LayerSdk
