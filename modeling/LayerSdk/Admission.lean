import LayerSdk.AppRoot
import LayerSdk.Reference
import LayerSdk.WriteKeys

/-!
# Admission to the mempool

`check_tx` validates a transaction on the committed store with the info of the
last block; `execute_tx` validates it again as part of the next block. Without
a fee in contract coins both run the same program (`validateTx_block`), on
storages it cannot tell apart (`body_rel`), so they take the same gas and the
second succeeds like the first. Two things are only looked at in the block:
the height, which is one more, and whether the gas limit pays for the
validation and the bytes of the transaction.
-/

namespace LayerSdk

open EffectProg Comp

/-! ## The source's functions -/

/-- `10^18`, the atomics of the decimal one. -/
def decimalFractional : Nat := 10 ^ 18

/-- The price of a unit of gas, in atomics of a decimal. -/
structure MinGasPrice where
  price : Nat
  denom : String

/-- `ceil(price * gas)`. The product saturates; rounding it up may leave `u128`,
which is a panic. -/
def MinGasPrice.requiredFee (p : MinGasPrice) (gasWanted : Nat) : Option Nat :=
  let product := min (p.price * gasWanted) uint128Max
  if product + (decimalFractional - 1) ≤ uint128Max then
    some ((product + (decimalFractional - 1)) / decimalFractional)
  else none

def MinGasPrice.check (p : MinGasPrice) (fee : Option Coin) (gasWanted : Nat) :
    Option (Except TxError Unit) :=
  (p.requiredFee gasWanted).map fun required =>
    let provided := (fee.map Coin.amount).getD 0
    let denomOk := (fee.map fun c => decide (c.denom = p.denom)).getD false
    if required = 0 ∨ (denomOk ∧ provided ≥ required) then .ok ()
    else .error (.insufficientFee required provided p.denom gasWanted)

def GasInfo.zero : GasInfo := ⟨0, 0⟩

def TxResponse.empty : TxResponse MsgData := ⟨[], []⟩

section Check

variable (E : Externals) (depth : Nat)

/-- `check_tx`: `none` is a panic. -/
def checkTx (minGasPrice : Option MinGasPrice) (a : App) (tx : SignedTx) :
    Option (TxResult MsgData) :=
  match a.data with
  | none => none
  | some data =>
    -- a cache over the reader, thrown away afterwards
    match exec (stack scratchTx (reader a.storage.backend))
        (atomic (validateTx E depth data.block tx)) (.new maxValidateGas) (∅, a.storage.data) with
    | none => none
    | some (_, .error e, _) => some ⟨.zero, .error e⟩
    | some (_, .ok txData, m) =>
      match minGasPrice with
      | none => some ⟨⟨m.used, txData.gasWanted⟩, .ok .empty⟩
      | some p =>
        (p.check tx.fee.fee txData.gasWanted).map fun
          | .error e => ⟨.zero, .error (.tx e)⟩
          | .ok () => ⟨⟨m.used, txData.gasWanted⟩, .ok .empty⟩

/-- An accepted transaction has passed validation on the committed store. -/
theorem validates_of_checkTx {minGasPrice : Option MinGasPrice} {a : App} {data : InnerData}
    {tx : SignedTx} {gas : GasInfo} {resp : TxResponse MsgData} (hdata : a.data = some data)
    (h : checkTx E depth minGasPrice a tx = some ⟨gas, .ok resp⟩) :
    ∃ s txData m, exec (stack scratchTx (reader a.storage.backend))
        (atomic (validateTx E depth data.block tx)) (.new maxValidateGas) (∅, a.storage.data) =
          some (s, .ok txData, m) ∧ gas = ⟨m.used, txData.gasWanted⟩ := by
  rw [checkTx, hdata] at h
  dsimp only at h
  split at h
  · cases h
  · cases h
  · rename_i s txData m hexec
    refine ⟨s, txData, m, hexec, ?_⟩
    split at h
    · exact (congrArg TxResult.gas (Option.some.inj h)).symm
    · obtain ⟨x, -, hx⟩ := Option.map_eq_some_iff.mp h
      cases x with
      | error e => cases hx
      | ok u => exact (congrArg TxResult.gas hx).symm

end Check

/-! ## What validation asks of the storage -/

/-- `_proposer`, the one entry the block has written before its first transaction. -/
def proposerAt : Bytes := str "_proposer"

/-- No range. -/
def Flat : StorageOp → Prop
  | .range .. => False
  | _ => True

/-- No range, no read of the proposer and no write at the empty key. -/
def Plain : StorageOp → Prop
  | .get _ key => key ≠ proposerAt
  | .range .. => False
  | .set _ key _ => key ≠ []
  | .remove _ key => key ≠ []

section Plain

variable {α β : Type} {p : StorageM PulsarError α}

instance flat_get (key : Bytes) : Only Flat (Storage.get key : StorageM PulsarError _) :=
  ⟨fun m => yields_map_op (.get m key) trivial⟩

instance flat_set (key value : Bytes) : Only Flat (Storage.set key value : StorageM PulsarError _) :=
  ⟨fun m => yields_map_op (.set m key value) trivial⟩

instance flat_updateOption (i : Item α) (action : Option α → StorageM PulsarError α)
    [∀ x, Only Flat (action x)] : Only Flat (i.updateOption action) := by
  rw [Item.updateOption]
  infer_instance

instance flat_at (m : PlusMap α) (parts : List Bytes) (last : Bytes)
    (f : Item α → StorageM PulsarError β) [∀ i, Only Flat (f i)] :
    Only Flat (m.at parts last f) := by
  rw [PlusMap.at]
  split <;> infer_instance

theorem plain_prefixed {ns : Bytes} (hns : ns.length < 256) (hp : Only Flat p) :
    Only Plain (prefixed ns p) := by
  have hpre : toLengthPrefixed ns = some (0 :: UInt8.ofNat ns.length :: ns) := by
    rw [toLengthPrefixed, if_neg (by omega), Nat.div_eq_of_lt hns, Nat.mod_eq_of_lt hns]
    rfl
  rw [prefixed, hpre]
  refine Only.under hp fun op hop => ?_
  cases op with
  | get m key =>
    refine (yields_op (.get m _) ?_).bind fun _ _ => trivial
    exact fun h => absurd (congrArg List.head? h) (by change some 0 ≠ (str "_proposer").head?; decide)
  | range m start stop order => exact hop.elim
  | set m key value => exact (yields_op (.set m _ value) (List.cons_ne_nil _ _)).bind fun _ _ => trivial
  | remove m key => exact (yields_op (.remove m _) (List.cons_ne_nil _ _)).bind fun _ _ => trivial

instance plain_appMeter [hp : Only Plain p] : Only Plain (Comp.under appMeter p) :=
  hp.appMeter id id

end Plain

section Validation

variable (E : Externals)

instance plain_accountAt {α : Type} (address : AccountId)
    (f : Item Account → StorageM PulsarError α) [∀ i, Only Flat (f i)] :
    Only Plain (Auth.accountAt E address f) :=
  plain_prefixed (by decide) inferInstance

theorem plain_sendNative (fromAddress toAddress : AccountId) (coin : Coin) :
    Only Plain (prefixed namespaceBank (Bank.sendNative E fromAddress toAddress coin)) := by
  have (balance : Option Nat) : Only Flat (Bank.checkedSub coin.amount balance) := by
    rw [Bank.checkedSub]
    infer_instance
  have (balance : Option Nat) : Only Flat (Bank.add coin.amount balance) := by
    rw [Bank.add]
    infer_instance
  have (account : AccountId) (f : Item Nat → StorageM PulsarError Nat) [∀ i, Only Flat (f i)] :
      Only Flat (Bank.balanceAt E account coin.denom f) := flat_at ..
  have (e : PulsarError) (p : StorageM PulsarError Nat) [Only Flat p] :
      Only Flat (Bank.mapErr e p) := by
    rw [Bank.mapErr]
    refine Only.bind inferInstance fun r => ?_
    cases r <;> infer_instance
  refine plain_prefixed (by decide) ?_
  rw [Bank.sendNative]
  infer_instance

/-- The fee is in contract coins. -/
def Cw20Fee (tx : SignedTx) : Prop :=
  ∃ fee, tx.fee.fee = some fee ∧ fee.amount ≠ 0 ∧ Bank.stripCw20 fee.denom ≠ none

/-- What is done for a fee that is not. -/
def payNative (depth : Nat) (tx : SignedTx) : StorageM PulsarError Unit :=
  match tx.fee.fee with
  | none => pure ()
  | some fee =>
    if fee.amount = 0 then pure ()
    else if depth = 0 then Comp.panic
    else prefixed namespaceBank (Bank.sendNative E tx.signer feeCollectorAccount fee)

variable {depth : Nat} {tx : SignedTx}

theorem payFee_eq (hfee : ¬ Cw20Fee tx) (block : BlockInfo) :
    Auth.payFee (sm E depth) block tx.signer tx.fee.fee = payNative E depth tx := by
  rw [payNative]
  cases hf : tx.fee.fee with
  | none => rfl
  | some fee =>
    rw [Auth.payFee]
    by_cases hzero : fee.amount = 0
    · rw [if_pos hzero]
      exact (if_pos hzero).symm
    · have hnative : Bank.stripCw20 fee.denom = none := by
        by_contra hcw20
        exact hfee ⟨fee, hf, hzero, hcw20⟩
      rw [if_neg hzero]
      cases depth with
      | zero => exact (if_neg hzero).symm
      | succ n =>
        have hcoin : Bank.transferCoin E (sm E n) block tx.signer feeCollectorAccount fee =
            prefixed namespaceBank (Bank.sendNative E tx.signer feeCollectorAccount fee) := by
          rw [Bank.transferCoin, Bank.fromDenom, hnative]
          rfl
        change Bank.transfer E (sm E n) block tx.signer feeCollectorAccount [fee] = _
        rw [Bank.transfer, Bank.forValidCoins, if_neg hzero, if_neg List.not_mem_nil, hcoin,
          Bank.forValidCoins, if_neg (List.cons_ne_nil _ _), bind_pure_unit]
        exact (if_neg hzero).symm

theorem plain_payNative (depth : Nat) (tx : SignedTx) : Only Plain (payNative E depth tx) := by
  have := plain_sendNative E tx.signer feeCollectorAccount
  rw [payNative]
  split <;> infer_instance

/-- Validation with the block info left out, for a transaction that has not
expired. -/
def validateNative (depth : Nat) (tx : SignedTx) : StorageM PulsarError (TxData Msg) :=
  Comp.under appMeter do
    let pubkey ← Auth.claimSequence E tx true
    Auth.checkSignature E pubkey tx.signingInfo true
    payNative E depth tx
    pure ⟨tx.signer.bytes, tx.msgs, tx.fee.gasLimit⟩

/-- The transaction has expired at a height. -/
def Expired (height : Nat) (tx : SignedTx) : Prop := ∃ t, tx.timeoutHeight = some t ∧ t < height

theorem checkTimeout_eq {height : Nat} (h : ¬ Expired height tx) :
    Auth.checkTimeout height tx.timeoutHeight = pure () := by
  cases ht : tx.timeoutHeight with
  | none => rfl
  | some t =>
    rw [Auth.checkTimeout, if_neg]
    exact fun hlt => h ⟨t, ht, hlt⟩

theorem validateTx_eq {block : BlockInfo} (hfee : ¬ Cw20Fee tx) (h : ¬ Expired block.height tx) :
    validateTx E depth block tx = validateNative E depth tx := by
  rw [validateTx, Auth.validateTx, checkTimeout_eq h, pure_bind, payFee_eq E hfee, validateNative]

/-- An expired transaction is rejected before anything is read. -/
theorem validateTx_expired {block : BlockInfo} (h : Expired block.height tx) {σ : Type}
    {obj : StorageObj σ} {m m' : GasMeter} {s s' : σ} {txData : TxData Msg} :
    exec obj (validateTx E depth block tx) m s ≠ some (s', .ok txData, m') := by
  obtain ⟨t, ht, hlt⟩ := h
  rw [validateTx, Auth.validateTx, ht, Auth.checkTimeout, if_pos hlt, exec_under, exec_bind]
  intro hexec
  cases hexec

theorem plain_validateNative (depth : Nat) (tx : SignedTx) :
    Only Plain (validateNative E depth tx) := by
  have := plain_payNative E depth tx
  rw [validateNative]
  infer_instance

end Validation

/-! ## The two storages -/

/-- The block's storage before its first transaction: nothing is pending but the
proposer. -/
structure Fresh (data : Store) (s : BlockState) : Prop where
  committed : s.2.committed = data
  pending : ∀ k, k ≠ proposerAt → s.2.changes[k]? = none

section Storages

variable {b : Backend} {data : Store} {s : BlockState}

theorem Fresh.get (hs : Fresh data s) {key : Bytes} (hkey : key ≠ proposerAt) (m : GasMeter) :
    trackedWriter b (.get m key) s = some (s, persistedGet data m key) := by
  obtain ⟨dirty, w⟩ := s
  rw [trackedWriter, trackingWriter_get]
  have hview : w.view[key]? = data[key]? := by
    rw [Writer.getElem?_view, hs.pending key hkey]
    exact congrArg (·[key]?) hs.committed
  cases b with
  | memory =>
    have hcommitted : w.committed = data := hs.committed
    change (memoryWriter (.get m key) w).map _ = _
    simp only [memoryWriter, hs.pending key hkey, hcommitted, Option.map_some]
  | rock =>
    change (some (w, persistedGet w.view m key)).map _ = _
    simp only [persistedGet, hview, Option.map_some]

/-- What a cache level makes of the answer below it. -/
def cachedGet (prices : PriceList) (ov : Overlay) (m : GasMeter) (key : Bytes)
    (below : GasMeter × GasResult (Option Bytes)) : GasMeter × GasResult (Option Bytes) :=
  match (match ov[key]? with
    | some d => (m, .ok d.value)
    | none => below : GasMeter × GasResult (Option Bytes)) with
  | (m₁, .error e) => (m₁, .error e)
  | (m₁, .ok v) => ((prices.chargeRead m₁ key v).1, (prices.chargeRead m₁ key v).2.map fun _ => v)

variable {σ α : Type} {h : StorageObj σ} {x : σ} {m m' : GasMeter} {p : StorageM PulsarError α}
  {a : α}

theorem cacheTx_get {key : Bytes} {r : GasMeter × GasResult (Option Bytes)}
    (hget : h (.get m key) x = some (x, r)) (prices : PriceList) (ov : Overlay) :
    stack (cacheTx prices) h (.get m key) (ov, x) = some ((ov, x), cachedGet prices ov m key r) := by
  obtain ⟨m₁, _ | v⟩ := r
  all_goals
    rw [stack, cacheTx, run_bind, ReaderWrapper.get, cachedGet]
    cases ov[key]? with
    | some d => rfl
    | none =>
      rw [run_perform, hget]
      rfl

/-- A write stays in the cache, whatever is below. -/
theorem cacheTx_write {op : StorageOp} (hop : Plain op) (hread : ∀ m key, op ≠ .get m key)
    (prices : PriceList) {ov : Overlay} (hov : KeyedOverlay ov) :
    ∃ ov' r, KeyedOverlay ov' ∧ ∀ {σ : Type} (h : StorageObj σ) (x : σ),
      stack (cacheTx prices) h op (ov, x) = some ((ov', x), r) := by
  cases op with
  | get m key => exact absurd rfl (hread m key)
  | range m start stop order => exact hop.elim
  | set m key value =>
    cases hc : prices.chargeRange m with
    | mk m₁ c =>
      cases c with
      | error e => exact ⟨ov, (m₁, .error e), hov, fun h x => by rw [stack, cacheTx, hc]; rfl⟩
      | ok u =>
        exact ⟨ov.insert key (.set value), (m₁, .ok ()), hov.insert hop _, fun h x => by
          rw [stack, cacheTx, hc]; rfl⟩
  | remove m key =>
    cases hc : prices.chargeRemove m key with
    | mk m₁ c =>
      cases c with
      | error e => exact ⟨ov, (m₁, .error e), hov, fun h x => by rw [stack, cacheTx, hc]; rfl⟩
      | ok u =>
        exact ⟨ov.insert key .delete, (m₁, .ok ()), hov.insert hop _, fun h x => by
          rw [stack, cacheTx, hc]; rfl⟩

/-- A cache without changes over the reader answers as the reader does: the level is
free, and a meter that has paid for the read is not exhausted. -/
theorem scratch_get (m : GasMeter) (key : Bytes) :
    stack scratchTx (reader b) (.get m key) (∅, data) =
      some ((∅, data), persistedGet data m key) := by
  have hreader : reader b (.get m key) data = some (data, persistedGet data m key) := rfl
  rw [scratchTx, cacheTx_get hreader, cachedGet, Std.ExtTreeMap.getElem?_empty]
  have hzero : ∀ v, defaultCachePrices.readCost key v = 0 := fun v => by
    simp [PriceList.readCost, defaultCachePrices]
  cases hc : defaultPersistedPrices.chargeRead m key data[key]? with
  | mk m₁ c =>
    rw [persistedGet, hc]
    cases c with
    | error e => rfl
    | ok u =>
      obtain ⟨rfl, hlt⟩ := GasMeter.charge_ok hc
      simp only [Except.map, PriceList.chargeRead, hzero, GasMeter.charge_zero,
        if_neg (Nat.not_le.mpr hlt)]

/-- Validation in its own overlay cannot tell the two storages apart. -/
theorem body_rel (hs : Fresh data s) (hp : Only Plain p) (m : GasMeter) :
    Option.Rel (fun x y => (∃ ov, KeyedOverlay ov ∧ x.1 = (ov, (∅, data)) ∧ y.1 = (ov, s)) ∧
        x.2 = y.2)
      (exec (stack subTx (stack scratchTx (reader b))) p m (∅, (∅, data)))
      (exec (stack subTx (trackedWriter b)) p m (∅, s)) := by
  refine Yields.run_rel (fun x y => ∃ ov, KeyedOverlay ov ∧ x = (ov, (∅, data)) ∧ y = (ov, s))
    (fun op x y hop hxy => ?_) (hp.yields m) ⟨∅, .empty, rfl, rfl⟩
  obtain ⟨ov, hov, rfl, rfl⟩ := hxy
  by_cases hread : ∀ m key, op ≠ .get m key
  · obtain ⟨ov', r, hov', hall⟩ := cacheTx_write hop hread defaultCachePrices hov
    rw [subTx, hall, hall]
    exact .some ⟨⟨ov', hov', rfl, rfl⟩, rfl⟩
  · obtain ⟨m, key, rfl⟩ : ∃ m key, op = .get m key := by simpa using hread
    rw [subTx, cacheTx_get (scratch_get m key), cacheTx_get (hs.get hop m)]
    exact .some ⟨⟨ov, hov, rfl, rfl⟩, rfl⟩

/-! ## The commit of the validation -/

theorem exec_atomic_cases {x' : σ} (hexec : exec h (atomic p) m x = some (x', .ok a, m')) :
    ∃ ov x₁ m₁, exec (stack subTx h) p m (∅, x) = some ((ov, x₁), .ok a, m₁) ∧
      exec h (commitOverlay ov : StorageM PulsarError Unit) m₁ x₁ = some (x', .ok (), m') := by
  obtain ⟨x₁, ⟨ov, res⟩, m₁, hbody, hrest⟩ := exec_bind_ok hexec
  rw [exec_within] at hbody
  obtain ⟨⟨⟨ov', x₂⟩, res', m₂⟩, hinner, heq⟩ := Option.map_eq_some_iff.mp hbody
  obtain ⟨rfl, ⟨rfl, rfl⟩, rfl⟩ := heq
  cases res' with
  | error e =>
    obtain ⟨-, he, -⟩ := exec_throw_cases hrest
    cases he
  | ok a' =>
    obtain ⟨x₃, u, m₃, hcommit, hdone⟩ := exec_bind_ok hrest
    obtain ⟨rfl, hr, rfl⟩ := exec_pure_cases hdone
    cases hr
    exact ⟨ov', x₂, m₂, hinner, hcommit⟩

theorem exec_atomic_of {m₁ : GasMeter} {ov : Overlay} {x₁ x' : σ}
    (hbody : exec (stack subTx h) p m (∅, x) = some ((ov, x₁), .ok a, m₁))
    (hcommit : exec h (commitOverlay ov : StorageM PulsarError Unit) m₁ x₁ = some (x', .ok (), m')) :
    exec h (atomic p) m x = some (x', .ok a, m') := by
  rw [atomic, exec_bind, exec_within, hbody]
  simp only [Option.map_some, Option.bind_some, andThen]
  rw [exec_bind, hcommit]
  rfl

/-- A commit into a cache takes no gas and needs a meter that is not exhausted. -/
theorem exec_applyOps_scratch :
    ∀ {ops : List (Bytes × Delta)} {m m' : GasMeter} {x x' : Overlay × σ},
      exec (stack scratchTx h) (applyOps ops : StorageM PulsarError Unit) m x =
        some (x', .ok (), m') → m' = m ∧ (ops = [] ∨ m.used < m.limit)
  | [], m, m', x, x', hexec => ⟨(exec_pure_cases hexec).2.2, .inl rfl⟩
  | (key, d) :: rest, m, m', x, x', hexec => by
    have hop : ∀ {x₁ u m₁}, exec (stack scratchTx h) (applyOp key d : StorageM PulsarError Unit)
        m x = some (x₁, .ok u, m₁) → m₁ = m ∧ m.used < m.limit := by
      intro x₁ u m₁ hop
      by_cases hm : m.limit ≤ m.used
      · have hcost : defaultCachePrices.removeCost key = 0 := by
          simp [PriceList.removeCost, defaultCachePrices]
        cases d with
        | set value =>
          rw [applyOp, exec_set, stack, scratchTx, cacheTx, PriceList.chargeRange] at hop
          simp only [defaultCachePrices, GasMeter.charge_zero, if_pos hm] at hop
          cases hop
        | delete =>
          rw [applyOp, exec_remove, stack, scratchTx, cacheTx, PriceList.chargeRemove,
            hcost] at hop
          simp only [GasMeter.charge_zero, if_pos hm] at hop
          cases hop
      · obtain ⟨ov, y⟩ := x
        rw [scratchTx, exec_applyOp_cacheTx hm] at hop
        cases hop
        exact ⟨rfl, Nat.lt_of_not_le hm⟩
    obtain ⟨x₁, u, m₁, hfirst, hrest⟩ := exec_bind_ok hexec
    obtain ⟨rfl, hlt⟩ := hop hfirst
    exact ⟨(exec_applyOps_scratch hrest).1, .inr hlt⟩

/-- A commit into the block's storage succeeds on a meter that is not exhausted. -/
theorem exists_applyOps_tracked (b : Backend) (hm : m.used < m.limit) :
    ∀ {ops : List (Bytes × Delta)} (s : BlockState), (∀ x ∈ ops, x.1 ≠ []) →
      ∃ s', exec (trackedWriter b) (applyOps ops : StorageM PulsarError Unit) m s =
        some (s', .ok (), m)
  | [], s, _ => ⟨s, rfl⟩
  | (key, d) :: rest, s, hkeys => by
    have hkey : key ≠ [] := hkeys (key, d) (List.mem_cons_self)
    have htakes : (BaseStore.writer b).takes key = true := by
      cases b with
      | memory => rfl
      | rock => exact decide_eq_true hkey
    have hex : ¬ Exhausted m := Nat.not_le.mpr hm
    obtain ⟨s₁, hop⟩ : ∃ s₁, exec (trackedWriter b)
        (applyOp key d : StorageM PulsarError Unit) m s = some (s₁, .ok (), m) := by
      obtain ⟨dirty, w⟩ := s
      cases d with
      | set value =>
        obtain ⟨w', hset, -⟩ := (writesAs_base (.writer b)).set value w hex htakes
        change writerObj b (.set m key value) w = _ at hset
        rw [applyOp, exec_set, trackedWriter, trackingWriter_set, hset]
        exact ⟨_, rfl⟩
      | delete =>
        obtain ⟨w', hremove, -⟩ := (writesAs_base (.writer b)).remove w hex htakes
        change writerObj b (.remove m key) w = _ at hremove
        rw [applyOp, exec_remove, trackedWriter, trackingWriter_remove, hremove]
        exact ⟨_, rfl⟩
    obtain ⟨s', hrest⟩ := exists_applyOps_tracked b hm s₁ fun x hx =>
      hkeys x (List.mem_cons_of_mem _ hx)
    refine ⟨s', ?_⟩
    rw [applyOps, exec_bind, hop]
    exact hrest

/-- What validates on the committed store validates in the block, with the same
result and the same gas. -/
theorem exists_atomic_tracked (hs : Fresh data s) (hp : Only Plain p) {x : Overlay × Store}
    (hexec : exec (stack scratchTx (reader b)) (atomic p) m (∅, data) = some (x, .ok a, m')) :
    ∃ s', exec (trackedWriter b) (atomic p) m s = some (s', .ok a, m') := by
  obtain ⟨ov, x₁, m₁, hbody, hcommit⟩ := exec_atomic_cases hexec
  have hrel := body_rel (b := b) hs hp m
  rw [hbody] at hrel
  cases hy : exec (stack subTx (trackedWriter b)) p m (∅, s) with
  | none =>
    rw [hy] at hrel
    cases hrel
  | some y =>
    rw [hy] at hrel
    obtain ⟨⟨ov', hov, hx, hs'⟩, hr⟩ := Option.rel_some_some.mp hrel
    obtain ⟨y₁, r⟩ := y
    obtain ⟨rfl, -⟩ := Prod.mk.inj hx
    obtain rfl : y₁ = (ov, s) := hs'
    obtain rfl : (.ok a, m₁) = r := hr
    obtain ⟨rfl, hops⟩ := exec_applyOps_scratch hcommit
    rcases hops with hnil | hlt
    · refine ⟨s, exec_atomic_of hy ?_⟩
      rw [commitOverlay, hnil]
      rfl
    · obtain ⟨s', happly⟩ := exists_applyOps_tracked b hlt s fun x hx => hov.ne_nil_of_mem hx
      exact ⟨s', exec_atomic_of hy happly⟩

theorem Fresh.set (hs : Fresh data s) {value : Bytes} {s' : BlockState}
    {r : GasMeter × GasResult Unit}
    (h : trackedWriter b (.set m proposerAt value) s = some (s', r)) : Fresh data s' := by
  obtain ⟨dirty, w⟩ := s
  rw [trackedWriter, trackingWriter_set] at h
  obtain ⟨⟨w', r'⟩, hset, heq⟩ := Option.map_eq_some_iff.mp h
  cases heq
  suffices hw : w' = w ∨ ∃ hasher, w' = ⟨w.committed, w.changes.insert proposerAt (.set value), hasher⟩ by
    rcases hw with rfl | ⟨hasher, rfl⟩
    · exact ⟨hs.committed, hs.pending⟩
    · refine ⟨hs.committed, fun k hk => ?_⟩
      rw [OrdMap.getElem?_insert_of_ne (Ne.symm hk)]
      exact hs.pending k hk
  cases b with
  | memory =>
    cases hset
    exact .inr ⟨_, rfl⟩
  | rock =>
    rw [writerObj, rockWriter] at hset
    split at hset
    · cases hset
      exact .inl rfl
    · obtain ⟨hasher, -, heq⟩ := Option.map_eq_some_iff.mp hset
      obtain ⟨rfl, -⟩ := Prod.mk.inj heq
      exact .inr ⟨hasher, rfl⟩

/-- The begin blocker writes the proposer and nothing else. -/
theorem fresh_beginBlock (E : Externals) {fullBlock : Block SignedTx} {w : Writer}
    {r : Except PulsarError (List Event)} (hw : w.committed = data) (hempty : w.changes = ∅)
    (hexec : exec (trackedWriter b) (beginBlock E fullBlock) m (∅, w) = some (s, r, m')) :
    Fresh data s := by
  have hyields : Only (fun op => ∃ m value, op = .set m proposerAt value)
      (beginBlock E fullBlock) := by
    have (value : Bytes) : Only (fun op => ∃ m value, op = .set m proposerAt value)
        (Storage.set proposerAt value : StorageM PulsarError Unit) :=
      ⟨fun m => yields_map_op (.set m proposerAt value) ⟨m, value, rfl⟩⟩
    rw [beginBlock, Item.save]
    exact Only.bind (Only.bind inferInstance fun _ => this _) fun _ => inferInstance
  refine Yields.run (fun op s s' r hop hstep hI => ?_) (hyields.yields m) hexec
    ⟨hw, fun k _ => by rw [hempty, Std.ExtTreeMap.getElem?_empty]⟩
  obtain ⟨m, value, rfl⟩ := hop
  exact hI.set hstep

end Storages

/-! ## Delivery -/

/-- `execute_tx` gets to the messages: the validation succeeds, the transaction's
meter pays for it and for the bytes, and the block has the gas the transaction
wants. -/
def ReachesMsgs {Tx Msg Data Genesis : Type} (b : Backend)
    (logic : StateMachine Tx Msg Data Genesis) (block : BlockInfo) (tx : Tx)
    (m : GasMeter) (s : BlockState) : Prop :=
  ∃ s₁ txData valMeter txMeter,
    exec (trackedWriter b) (atomic (logic.validateTx block tx)) (.new maxValidateGas) s =
      some (s₁, .ok txData, valMeter) ∧
    (GasMeter.new txData.gasWanted).charge (valMeter.used + logic.txLen tx * gasCostTxByte) =
      (txMeter, .ok ()) ∧
    txData.gasWanted ≤ m.remaining

section Delivery

variable (E : Externals) (depth : Nat)

variable {block : BlockInfo} {tx : SignedTx} {m : GasMeter}

theorem gasWanted_validateTx {σ : Type} {obj : StorageObj σ} {m' : GasMeter} {x x' : σ}
    {txData : TxData Msg}
    (hexec : exec obj (atomic (validateTx E depth block tx)) m x = some (x', .ok txData, m')) :
    txData.gasWanted = tx.fee.gasLimit := by
  obtain ⟨ov, x₁, m₁, hbody, -⟩ := exec_atomic_cases hexec
  rw [validateTx, exec_under] at hbody
  obtain ⟨⟨⟨u, y⟩, r⟩, hinner, heq⟩ := Option.map_eq_some_iff.mp hbody
  obtain ⟨-, rfl⟩ := Prod.mk.inj heq
  obtain ⟨_, _, _, -, hinner⟩ := exec_bind_ok hinner
  obtain ⟨_, _, _, -, hinner⟩ := exec_bind_ok hinner
  obtain ⟨_, _, _, -, hinner⟩ := exec_bind_ok hinner
  obtain ⟨_, _, _, -, hinner⟩ := exec_bind_ok hinner
  exact congrArg TxData.gasWanted (Except.ok.inj (exec_pure_cases hinner).2.1)

/-- The condition on the validation in the block: it succeeds, and the gas limit
is above its gas and that of the bytes. -/
def ValidatesIn (b : Backend) (block : BlockInfo) (tx : SignedTx) (s : BlockState) : Prop :=
  ∃ s' txData valMeter,
    exec (trackedWriter b) (atomic (validateTx E depth block tx)) (.new maxValidateGas) s =
      some (s', .ok txData, valMeter) ∧
    valMeter.used + tx.txLen * gasCostTxByte < tx.fee.gasLimit

theorem GasMeter.charge_new_iff {limit cost : Nat} :
    (∃ m, (GasMeter.new limit).charge cost = (m, .ok ())) ↔ cost < limit := by
  constructor
  · rintro ⟨m, hm⟩
    simpa [GasMeter.new] using (GasMeter.charge_ok hm).2
  · intro hlt
    refine ⟨⟨limit, 0 + cost⟩, ?_⟩
    rw [GasMeter.charge]
    exact if_neg (Nat.not_le.mpr (by simpa [GasMeter.new] using hlt))

theorem reachesMsgs_iff {parseGenesis : Bytes → Except PulsarError GenesisState} {b : Backend}
    {s : BlockState} (hlimit : tx.fee.gasLimit ≤ m.remaining) :
    ReachesMsgs b (stateMachine E depth parseGenesis) block tx m s ↔
      ValidatesIn E depth b block tx s := by
  constructor
  · rintro ⟨s₁, txData, valMeter, txMeter, hval, hcharge, -⟩
    refine ⟨s₁, txData, valMeter, hval, ?_⟩
    rw [← gasWanted_validateTx E depth hval]
    exact GasMeter.charge_new_iff.mp ⟨txMeter, hcharge⟩
  · rintro ⟨s₁, txData, valMeter, hval, hlt⟩
    have hwanted := gasWanted_validateTx E depth hval
    rw [← hwanted] at hlt hlimit
    obtain ⟨txMeter, hcharge⟩ := GasMeter.charge_new_iff.mpr hlt
    exact ⟨s₁, txData, valMeter, txMeter, hval, hcharge, hlimit⟩

theorem expired_succ {height : Nat} :
    Expired (height + 1) tx ↔ Expired height tx ∨ tx.timeoutHeight = some height := by
  constructor
  · rintro ⟨t, ht, hlt⟩
    rcases Nat.lt_succ_iff_lt_or_eq.mp hlt with hlt | rfl
    · exact .inl ⟨t, ht, hlt⟩
    · exact .inr ht
  · rintro (⟨t, ht, hlt⟩ | ht)
    · exact ⟨t, ht, Nat.lt_succ_of_lt hlt⟩
    · exact ⟨height, ht, Nat.lt_succ_self height⟩

theorem not_expired_of_atomic {σ : Type} {obj : StorageObj σ} {m' : GasMeter} {x x' : σ}
    {txData : TxData Msg}
    (hexec : exec obj (atomic (validateTx E depth block tx)) m x = some (x', .ok txData, m')) :
    ¬ Expired block.height tx := by
  obtain ⟨ov, x₁, m₁, hbody, -⟩ := exec_atomic_cases hexec
  exact fun hexpired => validateTx_expired E hexpired hbody

/-- **Admission and delivery.** A transaction `check_tx` accepts gets to its
messages as the first of the next block exactly if it does not expire between
the two and its gas limit is above the gas of the validation and of its bytes.
With a fee in contract coins the contract sees the next block, and the
validation has to succeed there. -/
theorem checkTx_admits_iff (parseGenesis : Bytes → Except PulsarError GenesisState)
    {minGasPrice : Option MinGasPrice} {a : App} {data : InnerData} {tx : SignedTx} {gas : GasInfo}
    {resp : TxResponse MsgData} {fullBlock : Block SignedTx} {events : List Event}
    {s : BlockState} {m : GasMeter} (hdata : a.data = some data)
    (hcheck : checkTx E depth minGasPrice a tx = some ⟨gas, .ok resp⟩)
    (hheight : fullBlock.height = data.block.height + 1)
    (hbegin : exec (trackedWriter a.storage.backend)
      ((stateMachine E depth parseGenesis).beginBlock fullBlock) (.new maxBeginBlockGas)
      (∅, a.storage.writer) = some (s, .ok events, m))
    (hlimit : tx.fee.gasLimit ≤ (blockGasMeter data.params).remaining) :
    ReachesMsgs a.storage.backend (stateMachine E depth parseGenesis)
        ⟨fullBlock.height, fullBlock.time, data.chainId⟩ tx (blockGasMeter data.params) s ↔
      tx.timeoutHeight ≠ some data.block.height ∧
        (¬ Cw20Fee tx → gas.gasUsed + tx.txLen * gasCostTxByte < tx.fee.gasLimit) ∧
        (Cw20Fee tx → ValidatesIn E depth a.storage.backend
          ⟨fullBlock.height, fullBlock.time, data.chainId⟩ tx s) := by
  rw [reachesMsgs_iff E depth hlimit]
  obtain ⟨x, txData, valMeter, hval, rfl⟩ := validates_of_checkTx E depth hdata hcheck
  have hnow : ¬ Expired data.block.height tx := not_expired_of_atomic E depth hval
  have hnext : Expired fullBlock.height tx ↔ tx.timeoutHeight = some data.block.height := by
    rw [hheight, expired_succ]
    exact or_iff_right hnow
  have htimeout : ValidatesIn E depth a.storage.backend
      ⟨fullBlock.height, fullBlock.time, data.chainId⟩ tx s →
      tx.timeoutHeight ≠ some data.block.height := by
    rintro ⟨s', txData', valMeter', hval', -⟩ ht
    exact not_expired_of_atomic E depth hval' (hnext.mpr ht)
  by_cases hfee : Cw20Fee tx
  · exact ⟨fun h => ⟨htimeout h, fun hn => absurd hfee hn, fun _ => h⟩, fun h => h.2.2 hfee⟩
  · -- the same program in the block, on a storage it cannot tell from the reader
    have hfresh : Fresh a.storage.data s := fresh_beginBlock E rfl rfl hbegin
    have hblock : tx.timeoutHeight ≠ some data.block.height → ∃ s', exec
        (trackedWriter a.storage.backend) (atomic (validateTx E depth
          ⟨fullBlock.height, fullBlock.time, data.chainId⟩ tx)) (.new maxValidateGas) s =
            some (s', .ok txData, valMeter) := by
      intro ht
      rw [validateTx_eq E hfee hnow] at hval
      rw [validateTx_eq E hfee (mt hnext.mp ht)]
      exact exists_atomic_tracked hfresh (plain_validateNative E depth tx) hval
    constructor
    · intro h
      refine ⟨htimeout h, fun _ => ?_, fun hcw20 => absurd hcw20 hfee⟩
      obtain ⟨s', hdeliver⟩ := hblock (htimeout h)
      obtain ⟨s'', txData', valMeter', hval', hlt⟩ := h
      rw [hdeliver] at hval'
      obtain ⟨-, -, rfl⟩ := by simpa using hval'
      exact hlt
    · rintro ⟨ht, hgas, -⟩
      obtain ⟨s', hdeliver⟩ := hblock ht
      exact ⟨s', txData, valMeter, hdeliver, hgas hfee⟩

/-- What `check_tx` promises for one transaction and one next block. -/
def AdmissionAgrees (parseGenesis : Bytes → Except PulsarError GenesisState)
    (minGasPrice : Option MinGasPrice) (a : App) (tx : SignedTx) (fullBlock : Block SignedTx) :
    Prop :=
  ∀ data gas resp events s m, a.data = some data →
    checkTx E depth minGasPrice a tx = some ⟨gas, .ok resp⟩ →
    fullBlock.height = data.block.height + 1 →
    exec (trackedWriter a.storage.backend)
      ((stateMachine E depth parseGenesis).beginBlock fullBlock) (.new maxBeginBlockGas)
      (∅, a.storage.writer) = some (s, .ok events, m) →
    tx.fee.gasLimit ≤ (blockGasMeter data.params).remaining →
    ReachesMsgs a.storage.backend (stateMachine E depth parseGenesis)
      ⟨fullBlock.height, fullBlock.time, data.chainId⟩ tx (blockGasMeter data.params) s

end Delivery

/-! ## A key, a signature and three transactions

The secret key is one, the message is the hash of `slay`. -/

def sampleKey : PubKey := .secp256k1
  [2, 121, 190, 102, 126, 249, 220, 187, 172, 85, 160, 98, 149, 206, 135, 11, 7, 2, 155, 252, 219,
    45, 206, 40, 217, 89, 242, 129, 91, 22, 248, 23, 152]

def sampleKeyAddress : Bytes :=
  [117, 30, 118, 232, 25, 145, 150, 212, 84, 148, 28, 69, 209, 179, 163, 35, 241, 67, 59, 214]

def sampleSignature : Bytes :=
  [198, 4, 127, 148, 65, 237, 125, 109, 48, 69, 64, 110, 149, 192, 124, 216, 92, 119, 142, 75, 140,
    239, 60, 167, 171, 172, 9, 185, 92, 112, 158, 229, 31, 30, 23, 221, 223, 32, 254, 0, 238, 108,
    176, 150, 108, 10, 28, 140, 130, 229, 215, 91, 186, 123, 78, 228, 155, 244, 107, 43, 247, 0, 59,
    145]

/-- Knows one key, its address and one signature of it. -/
def sampleKeyExternals : Externals :=
  { Externals.ofValues { accounts := [.external sampleKey 1], blobs := [[]] } with
    crypto :=
      { Crypto.ofHash sha256 with
        ripemd160 := fun _ => sampleKeyAddress
        secp256k1Verify := fun hash signature key =>
          some (hash = (sha256 (str "slay")).bytes ∧ signature = sampleSignature ∧
            .secp256k1 key = sampleKey) } }

def sampleKeyTx (gasLimit : Nat) (timeoutHeight : Option Nat) : SignedTx where
  msgs := []
  signer := ⟨sampleKeyAddress, by decide⟩
  signingInfo := ⟨(sha256 (str "slay")).bytes, 0, some sampleKey, sampleSignature⟩
  fee := ⟨none, gasLimit⟩
  timeoutHeight := timeoutHeight
  rawTx := [0]

def sampleCommitted : App :=
  ⟨⟨.memory, sampleGenesisStore, []⟩, none, some ⟨⟨5, 100, "slay"⟩, "slay", ⟨1000, none⟩⟩⟩

def sampleNextBlock : Block SignedTx := ⟨[], 6, 200, []⟩

def sampleParse : Bytes → Except PulsarError GenesisState := fun _ => .error (.std (.genericErr ""))

theorem sampleNextBlock_begin : ∃ s events m,
    exec (trackedWriter .memory) ((stateMachine sampleKeyExternals 1 sampleParse).beginBlock
      sampleNextBlock) (.new maxBeginBlockGas) (∅, sampleCommitted.storage.writer) =
        some (s, .ok events, m) := by
  have hrun : (exec (trackedWriter .memory) ((stateMachine sampleKeyExternals 1
      sampleParse).beginBlock sampleNextBlock) (.new maxBeginBlockGas)
      (∅, sampleCommitted.storage.writer)).map (fun x => x.2.1.isOk) = some true := by
    decide +kernel
  obtain ⟨⟨s, r, m⟩, hexec, hok⟩ := Option.map_eq_some_iff.mp hrun
  cases r with
  | error e => cases hok
  | ok events => exact ⟨s, events, m, hexec⟩

theorem exists_of_accepted (E : Externals) (depth : Nat) (a : App) (tx : SignedTx) (bound : Nat)
    (h : (checkTx E depth none a tx).map (fun r => (r.result.isOk, decide (r.gas.gasUsed < bound))) =
      some (true, true)) :
    ∃ gas resp, checkTx E depth none a tx = some ⟨gas, .ok resp⟩ ∧ gas.gasUsed < bound := by
  obtain ⟨⟨gas, r⟩, hcheck, heq⟩ := Option.map_eq_some_iff.mp h
  obtain ⟨hok, hgas⟩ := Prod.mk.inj heq
  cases r with
  | error e => cases hok
  | ok resp => exact ⟨gas, resp, hcheck, of_decide_eq_true hgas⟩

/-- A transaction that is delivered. -/
theorem checkTx_admits_sample : ∃ s,
    ReachesMsgs .memory (stateMachine sampleKeyExternals 1 sampleParse) ⟨6, 200, "slay"⟩
      (sampleKeyTx 100000 (some 6)) (blockGasMeter ⟨1000, none⟩) s := by
  obtain ⟨s, events, m, hbegin⟩ := sampleNextBlock_begin
  obtain ⟨gas, resp, hcheck, hgas⟩ := exists_of_accepted sampleKeyExternals 1
      sampleCommitted (sampleKeyTx 100000 (some 6)) 90000 (by decide +kernel)
  have hdata : sampleCommitted.data = some ⟨⟨5, 100, "slay"⟩, "slay", ⟨1000, none⟩⟩ := rfl
  refine ⟨s, (checkTx_admits_iff sampleKeyExternals 1 sampleParse hdata hcheck rfl hbegin
    (by decide)).mpr ⟨by decide, fun _ => ?_, ?_⟩⟩
  · change gas.gasUsed + 1 * 10 < 100000
    omega
  · rintro ⟨fee, hfee, -⟩
    cases hfee

/-- Accepted at height 5 with that timeout, and expired at height 6; accepted with a
gas limit that does not pay for its one byte. -/
theorem checkTx_admits_fails :
    ¬ AdmissionAgrees sampleKeyExternals 1 sampleParse none sampleCommitted
        (sampleKeyTx 100000 (some 5)) sampleNextBlock ∧
      ¬ AdmissionAgrees sampleKeyExternals 1 sampleParse none sampleCommitted
        (sampleKeyTx 10 none) sampleNextBlock := by
  obtain ⟨s, events, m, hbegin⟩ := sampleNextBlock_begin
  constructor
  · intro h
    obtain ⟨gas, resp, hcheck, -⟩ := exists_of_accepted sampleKeyExternals 1
      sampleCommitted (sampleKeyTx 100000 (some 5)) 90000 (by decide +kernel)
    obtain ⟨s₁, txData, valMeter, txMeter, hval, -⟩ :=
      h _ gas resp events s m rfl hcheck rfl hbegin (by decide)
    exact not_expired_of_atomic sampleKeyExternals 1 hval ⟨5, rfl, by decide⟩
  · intro h
    obtain ⟨gas, resp, hcheck, -⟩ := exists_of_accepted sampleKeyExternals 1
      sampleCommitted (sampleKeyTx 10 none) 90000 (by decide +kernel)
    have hreach := h _ gas resp events s m rfl hcheck rfl hbegin (by decide)
    obtain ⟨s₁, txData, valMeter, hval, hlt⟩ := (reachesMsgs_iff _ 1 (by decide)).mp hreach
    change valMeter.used + 1 * 10 < 10 at hlt
    omega

end LayerSdk
