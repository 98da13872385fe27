import LayerSdk.IbcEffect

/-!
# The walk over the keepers

However a transaction goes, through whatever contracts, replies and nested
messages, it is put together from few programs that change something
(`Built`): a native transfer or burn, the claim of an account or of a
sequence, and writes in the wasm namespace or under an IBC path. The walk is
made once, here; a law of transactions is then an induction over `Built`
with one case for each of these programs.
-/

namespace LayerSdk

open EffectProg Comp

/-- The keys of the tables of contracts, and the IBC paths. -/
class inductive Free : Bytes → Prop
  | wasm (key) : Free (lengthPrefixed namespaceWasm ++ key)
  | ibc (x : Ibc.Place) : Free x.key

instance within_free : Within Free namespaceWasm := ⟨.wasm⟩

/-- The program writes at free keys only. -/
abbrev AtFree {ε α : Type} (p : StorageM ε α) : Prop := Only (WritesAt Free) p

/-- Put together from native transfers and burns, claims, and writes at free keys. -/
class inductive Built (E : Externals) : ∀ {ε α : Type}, StorageM ε α → Prop
  | free {ε α : Type} {p : StorageM ε α} (h : AtFree p) : Built E p
  | bind {ε α β : Type} {p : StorageM ε α} {f : α → StorageM ε β} (hp : Built E p)
      (hf : ∀ a, Built E (f a)) : Built E (p >>= f)
  | attempt {ε α : Type} {p : StorageM ε α} (hp : Built E p) : Built E (Comp.attempt p)
  | withMeter {ε α : Type} {p : StorageM ε α} (sub : GasMeter) (hp : Built E p) :
      Built E (Comp.withMeter sub p)
  | appMeter {ε α : Type} {p : StorageM ε α} (hp : Built E p) : Built E (Comp.under appMeter p)
  | send (fromAddress toAddress : AccountId) (coin : Coin) :
      Built E (prefixed namespaceBank (Bank.sendNative E fromAddress toAddress coin))
  | burn (fromAddress : AccountId) (coin : Coin) :
      Built E (prefixed namespaceBank (Bank.burnNative E fromAddress coin))
  | claimInternal (address : AccountId) : Built E (Auth.claimInternalAccount E address)
  | claimSequence (tx : SignedTx) : Built E (Auth.claimSequence E tx true)

section Programs

variable {E : Externals} {ε α β : Type} {p q : StorageM ε α}

instance (priority := low) built_free [h : AtFree p] : Built E p := .free h

instance built_bind (f : α → StorageM ε β) [hp : Built E p] [hf : ∀ a, Built E (f a)] :
    Built E (p >>= f) := .bind hp hf

instance built_ite (b : Prop) [Decidable b] [hp : Built E p] [hq : Built E q] :
    Built E (if b then p else q) := by
  split
  · exact hp
  · exact hq

instance built_attempt [hp : Built E p] : Built E (Comp.attempt p) := .attempt hp

instance built_withMeter (sub : GasMeter) [hp : Built E p] : Built E (Comp.withMeter sub p) :=
  .withMeter sub hp

instance built_appMeter [hp : Built E p] : Built E (Comp.under appMeter p) := .appMeter hp

attribute [instance] Built.send Built.burn Built.claimInternal Built.claimSequence

end Programs

/-! ## Keepers -/

/-- The calls the keepers make to each other. -/
class BuiltSm (E : Externals) (sm : Sm) : Prop where
  bankTransfer : ∀ block sender recipient amount,
    Built E (sm.bankTransfer block sender recipient amount)
  wasmProcessMsgNoSubmsg : ∀ block signer msg,
    Built E (sm.wasmProcessMsgNoSubmsg block signer msg)
  processMsg : ∀ sender block msg, Built E (sm.processMsg sender block msg)
  dispatchResponseMessages : ∀ block contract checksum msgs response allowSubmsg,
    Built E (sm.dispatchResponseMessages block contract checksum msgs response allowSubmsg)

attribute [instance] BuiltSm.bankTransfer BuiltSm.wasmProcessMsgNoSubmsg BuiltSm.processMsg
  BuiltSm.dispatchResponseMessages

section Keepers

set_option synthInstance.maxSize 20000

variable (E : Externals) (sm : Sm) (block : BlockInfo)

namespace Bank

variable [BuiltSm E sm]

instance built_forValidCoins {body : Coin → StorageM PulsarError Unit}
    [∀ coin, Built E (body coin)] : ∀ seen amount, Built E (forValidCoins body seen amount)
  | seen, [] => by
    rw [forValidCoins]
    infer_instance
  | seen, coin :: rest => by
    have : ∀ seen, Built E (forValidCoins body seen rest) := fun seen =>
      built_forValidCoins seen rest
    rw [forValidCoins]
    infer_instance

instance built_transfer (fromAddress toAddress amount) :
    Built E (transfer E sm block fromAddress toAddress amount) := by
  have (coin : Coin) : Built E (transferCoin E sm block fromAddress toAddress coin) := by
    simp only [transferCoin, sendCw20, callCw20]
    refine Built.bind inferInstance fun denom => ?_
    cases denom <;> infer_instance
  rw [transfer]
  infer_instance

instance built_burn (fromAddress amount) : Built E (burn E sm block fromAddress amount) := by
  have (coin : Coin) : Built E (burnCoin E sm block fromAddress coin) := by
    simp only [burnCoin, burnCw20, callCw20]
    refine Built.bind inferInstance fun denom => ?_
    cases denom <;> infer_instance
  rw [burn]
  infer_instance

omit [BuiltSm E sm] in
/-- The list of the balances of an account is only read. -/
instance free_getAllBalances (account) :
    AtFree (prefixed namespaceBank (getAllBalances E account)) := by
  have (it : GasIter) : Only (WritesAt fun _ => False) (collect it : StorageM PulsarError _) :=
    ⟨fun _ => trivial⟩
  have hcoins : ∀ skip tail items, Only (WritesAt fun _ => False)
      (getAllBalances.collectCoins E skip items tail) := by
    intro skip tail items
    induction items with
    | nil =>
      rw [getAllBalances.collectCoins]
      infer_instance
    | cons item rest ih =>
      rw [getAllBalances.collectCoins]
      refine Only.bind inferInstance fun _ => ?_
      dsimp only
      split <;> infer_instance
  refine only_prefixed_of_reads _ ?_
  rw [getAllBalances]
  split
  · infer_instance
  · refine Only.bind ⟨fun m => yields_map_op (.range m _ _ _) trivial⟩ fun it => ?_
    exact hcoins _ _ _

instance built_distributeFees (fromAddress toAddress) :
    Built E (distributeFees E sm block fromAddress toAddress) := by
  have hcoins : ∀ coins, Built E (distributeCoins E sm block fromAddress toAddress coins) := by
    intro coins
    induction coins with
    | nil => exact .free (only_pure [])
    | cons coin rest ih =>
      rw [distributeCoins]
      infer_instance
  rw [distributeFees]
  infer_instance

instance built_processMsg (signer msg) : Built E (processMsg E sm block signer msg) := by
  cases msg <;> rw [processMsg] <;> infer_instance

end Bank

namespace Auth

instance built_validateTx [BuiltSm E sm] (tx) : Built E (validateTx E sm block tx true) := by
  have : Built E (checkTimeout block.height tx.timeoutHeight) := by
    rw [checkTimeout.eq_def]
    split <;> infer_instance
  have : Built E (payFee sm block tx.signer tx.fee.fee) := by
    rw [payFee.eq_def]
    split <;> infer_instance
  rw [validateTx]
  infer_instance

end Auth

namespace Wasm

instance free_cosmwasmMsgToLayer (sender msg) : AtFree (cosmwasmMsgToLayer E sender msg) := by
  have (admin : Option String) : AtFree (parseAdmin E admin) := by
    cases admin <;> rw [parseAdmin] <;> infer_instance
  have (msg : CustomRootMsg) : AtFree (customRootMsgToLayer E msg) := by
    cases msg <;> rw [customRootMsgToLayer] <;> infer_instance
  rw [cosmwasmMsgToLayer.eq_def]
  split <;> infer_instance

variable [BuiltSm E sm]

instance built_dispatchResponseMessages (contract checksum msgs response allowSubmsg) :
    Built E (dispatchResponseMessages E sm block contract checksum msgs response allowSubmsg) := by
  have (response : MsgResult) :
      Built E (dispatchLoop E sm block contract checksum allowSubmsg msgs response) := by
    induction msgs generalizing response with
    | nil => exact .free (only_pure response)
    | cons sub rest ih =>
      simp only [dispatchLoop, runSubMsg, settle, VmCache.reply]
      infer_instance
  rw [dispatchResponseMessages]
  infer_instance

instance built_processMsgWith (signer allowSubmsg msg) :
    Built E (processMsgWith E sm block signer allowSubmsg msg) := by
  cases msg <;> simp only [processMsgWith, generateAddress, buildInstantiateAddress,
    buildInstantiate2Address, liftAccountId, doInstantiate, execute, migrate, sudoContract,
    setAdmin, storeCode, pin, unpin, sendFunds, finishResponse, checkAdmin, VmCache.instantiate,
    VmCache.execute, VmCache.migrate, VmCache.sudoEntry] <;> infer_instance

end Wasm

namespace Ibc

instance free_clientState (clientId) : Free (clientStatePath clientId) :=
  clientStatePath_eq clientId ▸ .ibc _

instance free_connection (connectionId) : Free (connectionPath connectionId) :=
  connectionPath_eq connectionId ▸ .ibc _

instance free_channel (portId channelId) : Free (channelPath portId channelId) :=
  channelPath_eq portId channelId ▸ .ibc _

instance free_nextSequenceSend (portId channelId) : Free (nextSequenceSendPath portId channelId) :=
  nextSequenceSendPath_eq portId channelId ▸ .ibc _

instance free_packetCommitment (portId channelId sequence) :
    Free (packetCommitmentPath portId channelId sequence) :=
  packetCommitmentPath_eq portId channelId sequence ▸ .ibc _

instance free_packetData (portId channelId sequence) :
    Free (packetDataPath portId channelId sequence) :=
  packetDataPath_eq portId channelId sequence ▸ .ibc _

instance free_setPath (key value) [h : Free key] :
    AtFree (Storage.set key value : StorageM PulsarError Unit) := only_set h value

instance free_removePath (key) [h : Free key] :
    AtFree (Storage.remove key : StorageM PulsarError Unit) := only_remove h

instance free_readOr (key e) : AtFree (readOr key e) := by
  rw [readOr]
  refine Only.bind inferInstance fun raw => ?_
  cases raw <;> infer_instance

instance free_decodeAs {α : Type} (codec : ProtoCodec α) (name raw) :
    AtFree (decodeAs codec name raw) := by
  rw [decodeAs]
  split <;> infer_instance

instance free_sendPacket (chan portId channelId data timeoutHeight timeoutTimestamp) :
    AtFree (sendPacket E chan portId channelId data timeoutHeight timeoutTimestamp) := by
  rw [sendPacket]
  refine Only.bind inferInstance fun raw => ?_
  split <;> infer_instance

instance free_chanOpenInit (p c connectionId p' c' ordering version) :
    AtFree (chanOpenInit E p c connectionId p' c' ordering version) := by
  rw [chanOpenInit]
  refine Only.bind inferInstance fun _ => Only.bind inferInstance fun conn => ?_
  split
  · infer_instance
  · refine Only.bind inferInstance fun existing => ?_
    cases existing <;> infer_instance

instance built_processMsg [BuiltSm E sm] (signer msg) :
    Built E (processMsg E sm block signer msg) := by
  cases msg <;> simp only [processMsg, createClient, updateClient, connOpenInit, connOpenAck,
    chanOpenAck, openChannel, transfer, acknowledgement, timeout, clearPacket]
  case createClient | connectionOpenInit =>
    refine .bind inferInstance fun _ => .bind (.bind inferInstance fun existing => ?_) inferInstance
    cases existing <;> infer_instance
  all_goals infer_instance

end Ibc

/-! ## The state machine -/

instance built_processMsgOn [BuiltSm E sm] (sender msg) :
    Built E (processMsgOn E sm sender block msg) := by
  have (msg : WasmMsg) : Built E (Wasm.processMsg E sm block sender msg) :=
    Wasm.built_processMsgWith ..
  cases msg <;> rw [processMsgOn] <;> infer_instance

instance built_sm : ∀ n, BuiltSm E (LayerSdk.sm E n)
  | 0 => ⟨fun _ _ _ _ => .free only_panic, fun _ _ _ => .free only_panic,
      fun _ _ _ => .free only_panic, fun _ _ _ _ _ _ => .free only_panic⟩
  | n + 1 =>
    have := built_sm n
    ⟨fun block => Bank.built_transfer E (LayerSdk.sm E n) block,
      fun block signer msg => Wasm.built_processMsgWith E _ block signer false msg,
      fun sender block msg => built_processMsgOn E _ block sender msg,
      fun block => Wasm.built_dispatchResponseMessages E (LayerSdk.sm E n) block⟩

variable (depth : Nat) (parseGenesis : Bytes → Except PulsarError GenesisState)

theorem built_validateTx (tx : SignedTx) :
    Built E ((stateMachine E depth parseGenesis).validateTx block tx) :=
  inferInstanceAs (Built E (Comp.under appMeter (Auth.validateTx E (LayerSdk.sm E depth) block tx true)))

theorem built_processMsgs (signer : Bytes) (msgs : List Msg) :
    Built E (processMsgs (stateMachine E depth parseGenesis) signer block msgs) := by
  induction msgs with
  | nil => exact .free (only_pure [])
  | cons msg rest ih =>
    have : Built E ((stateMachine E depth parseGenesis).processMsg signer block msg) := by
      change Built E (processMsg E depth signer block msg)
      rw [processMsg]
      split <;> infer_instance
    rw [processMsgs]
    infer_instance

theorem built_endBlock : Built E ((stateMachine E depth parseGenesis).endBlock block) := by
  change Built E (endBlock E depth block)
  rw [endBlock]
  refine Built.bind inferInstance fun bytes => ?_
  split <;> infer_instance

end Keepers

/-- Where a transaction writes. -/
theorem Built.only {E : Externals} {K : Bytes → Prop} [Within K namespaceAuth]
    [Within K namespaceBank] (hK : ∀ key, Free key → K key) {ε α : Type} {p : StorageM ε α}
    (h : Built E p) : Only (WritesAt K) p := by
  induction h with
  | free h =>
    refine ⟨fun m => (h.yields m).mono_op fun op hop => ?_⟩
    cases op with
    | get | range => trivial
    | set m key value | remove m key => exact hK key hop
  | bind _ _ hp hf => exact hp.bind hf
  | attempt _ hp | withMeter sub _ hp | appMeter _ hp | send | burn | claimInternal
  | claimSequence => infer_instance

end LayerSdk
