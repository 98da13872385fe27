import LayerSdk.DryRun
import LayerSdk.RockIterator

/-!
# The gas of a writer on two backends

What a call on a `MemoryStorageWriter` or on a `RockWriter` answers, leaves and
costs (`run_call`), and when a transaction is charged the same on both
(`same_gas_iff`). In general it is not: the memory writer answers from its
pending changes for nothing, charges a range for the committed records that it
merges away, and gives reversed bounds away for free.

`Costs` says of a computation that it charges so much or runs out on the way;
the costs of the parts of a call add up to that of the call.
-/

namespace LayerSdk

/-! ## What a computation costs -/

/-- `f` charges `gas` and returns `a`, or runs out on the way. -/
def Costs {α : Type} (f : GasMeter → GasMeter × GasResult α) (gas : Nat) (a : α) : Prop :=
  ∀ m, ¬ Exhausted m →
    (m.used + gas < m.limit → f m = ({ m with used := m.used + gas }, .ok a)) ∧
    (m.limit ≤ m.used + gas → ∃ m', f m = (m', .error .outOfGas))

/-- One computation after another. -/
def thenDo {α β : Type} (f : GasMeter → GasMeter × GasResult α)
    (k : α → GasMeter → GasMeter × GasResult β) (m : GasMeter) : GasMeter × GasResult β :=
  match f m with
  | (m', .error e) => (m', .error e)
  | (m', .ok a) => k a m'

namespace Costs

variable {α β : Type} {f : GasMeter → GasMeter × GasResult α} {a : α} {gas : Nat}

theorem pure (a : α) : Costs (fun m => (m, .ok a)) 0 a :=
  fun _ hm => ⟨fun _ => rfl, fun hle => absurd hle hm⟩

theorem charge (cost : Nat) : Costs (fun m => m.charge cost) cost () :=
  fun _ _ => ⟨GasMeter.charge_of_lt, fun hle => ⟨_, GasMeter.charge_of_le hle⟩⟩

theorem thenDo {k : α → GasMeter → GasMeter × GasResult β} {gas' : Nat} {b : β}
    (hf : Costs f gas a) (hk : Costs (k a) gas' b) : Costs (thenDo f k) (gas + gas') b := by
  intro m hm
  by_cases hfit : m.limit ≤ m.used + gas
  · obtain ⟨m', hrun⟩ := (hf m hm).2 hfit
    refine ⟨fun hlt => absurd hlt (by omega), fun _ => ⟨m', ?_⟩⟩
    rw [LayerSdk.thenDo, hrun]
  · have hrun := (hf m hm).1 (by omega)
    have hm' : ¬ Exhausted { m with used := m.used + gas } := hfit
    rw [LayerSdk.thenDo, hrun]
    obtain ⟨hok, hout⟩ := hk _ hm'
    refine ⟨fun hlt => (hok (by simp only; omega)).trans ?_, fun hle => hout (by simp only; omega)⟩
    simp only [Nat.add_assoc]

theorem map (hf : Costs f gas a) (g : α → β) :
    Costs (fun m => ((f m).1, (f m).2.map g)) gas (g a) := by
  intro m hm
  refine ⟨fun hlt => ?_, fun hle => ?_⟩
  · simp only [(hf m hm).1 hlt, Except.map]
  · obtain ⟨m', hrun⟩ := (hf m hm).2 hle
    exact ⟨m', by simp only [hrun, Except.map]⟩

theorem congr {f' : GasMeter → GasMeter × GasResult α} (hf : Costs f gas a)
    (h : ∀ m, f' m = f m) : Costs f' gas a := (funext h : f' = f) ▸ hf

theorem chargeAll : ∀ cs : List Nat, Costs (fun m => m.chargeAll cs) cs.sum ()
  | [] => pure ()
  | c :: cs => by
    refine ((charge c).thenDo (k := fun _ m => m.chargeAll cs) (chargeAll cs)).congr fun m => ?_
    rw [GasMeter.chargeAll, LayerSdk.thenDo]
    rcases m.charge c with ⟨m', _ | _⟩ <;> rfl

theorem collectItems (tail : List Nat) : ∀ items : List (List Nat × Record),
    Costs (GasIter.collectItems tail items) ((items.map fun x => x.1.sum).sum + tail.sum)
      (items.map Prod.snd)
  | [] => by
    rw [List.map_nil, List.sum_nil, Nat.zero_add]
    exact (chargeAll tail).map fun _ => []
  | (cs, r) :: rest => by
    have hrest := (collectItems tail rest).map (r :: ·)
    rw [List.map_cons, List.sum_cons, Nat.add_assoc]
    refine ((chargeAll cs).thenDo (k := fun _ => _) hrest).congr fun m => ?_
    rw [GasIter.collectItems, LayerSdk.thenDo]
    rcases m.chargeAll cs with ⟨m', _ | _⟩ <;> rfl

theorem collect (it : GasIter) : Costs it.collect it.cost it.records := collectItems _ _

end Costs

/-! ## What a read of a store costs -/

/-- What the records of a persisted store cost. -/
def recordsCost (rs : List Record) : Nat :=
  (rs.map fun r => defaultPersistedPrices.readCost r.1 (some r.2)).sum

@[simp] theorem recordsCost_nil : recordsCost [] = 0 := rfl

theorem GasIter.cost_ofRecords (rs : List Record) :
    (GasIter.ofRecords defaultPersistedPrices rs).cost = recordsCost rs := by
  simp [cost, ofRecords, recordsCost, Function.comp_def]

theorem cost_emit (k : Bytes) (charges : List Nat) (it : GasIter) (d : Delta) :
    (d.emit k charges it).cost + (d.carried charges).sum = charges.sum + it.cost := by
  cases d with
  | set v => simp [Delta.emit, Delta.carried, GasIter.cost, Nat.add_assoc]
  | delete => exact Nat.add_comm ..

/-- Merging changes in does not change what the iteration charges. -/
theorem Merges.cost {order : Order} {ls : List (Bytes × Delta)} {rs : List (List Nat × Record)}
    {tail acc : List Nat} {it : GasIter} (h : Merges order ls rs tail acc it) :
    it.cost = acc.sum + (rs.map fun x => x.1.sum).sum + tail.sum := by
  induction h with
  | done => simp [GasIter.cost]
  | base _ _ ih =>
    simp only [GasIter.cost, List.map_cons, List.sum_cons, List.sum_append, List.sum_nil] at ih ⊢
    omega
  | @alone ls tail acc k d it _ ih =>
    have hemit := cost_emit k (acc ++ tail) it d
    simp only [List.map_nil, List.sum_nil, List.sum_append] at ih hemit ⊢
    omega
  | @before ls rs tail acc cs k d r it _ _ ih =>
    have hemit := cost_emit k (acc ++ cs) it d
    simp only [List.map_cons, List.sum_cons, List.sum_nil, List.sum_append] at ih hemit ⊢
    omega
  | @same ls rs tail acc cs k v d it _ ih =>
    have hemit := cost_emit k (acc ++ cs) it d
    simp only [List.map_cons, List.sum_cons, List.sum_append] at hemit ⊢
    omega

theorem costs_persistedGet (data : Store) (key : Bytes) :
    Costs (fun m => persistedGet data m key) (defaultPersistedPrices.readCost key data[key]?)
      data[key]? :=
  ((Costs.charge (defaultPersistedPrices.readCost key data[key]?)).map fun _ => data[key]?).congr
    fun _ => rfl

/-- The memory store gives reversed bounds away. -/
def openCost (b : Backend) (start stop : Option Bytes) : Nat :=
  if b = .memory ∧ emptyBounds start stop = true then 0 else defaultPersistedPrices.rangeFlat

theorem costs_persistedRange (b : Backend) (data : Store) (start stop : Option Bytes)
    (order : Order) : ∃ it, Costs (fun m => persistedRange b data m start stop order)
      (openCost b start stop) it ∧ it.records = mapRange data start stop order ∧
        it.cost = recordsCost (mapRange data start stop order) := by
  by_cases hempty : b = .memory ∧ emptyBounds start stop = true
  · refine ⟨.empty, ?_, ?_⟩
    · rw [openCost, if_pos hempty]
      refine (Costs.pure _).congr fun m => ?_
      rw [persistedRange, if_pos hempty]
    · rw [mapRange_eq_nil_of_emptyBounds hempty.2]
      exact ⟨rfl, rfl⟩
  · refine ⟨.ofRecords defaultPersistedPrices (mapRange data start stop order), ?_,
      GasIter.records_ofRecords _ _, GasIter.cost_ofRecords _⟩
    rw [openCost, if_neg hempty]
    refine ((Costs.charge defaultPersistedPrices.rangeFlat).map fun _ => _).congr fun m => ?_
    rw [persistedRange, if_neg hempty, PriceList.chargeRange]
    rcases m.charge defaultPersistedPrices.rangeFlat with ⟨m', _ | _⟩ <;> rfl

/-! ## Calls on a storage -/

/-- A call on a storage; a range is consumed to its end. -/
inductive StorageCall where
  | get (key : Bytes)
  | range (start stop : Option Bytes) (order : Order)
  | set (key value : Bytes)
  | remove (key : Bytes)
deriving DecidableEq

inductive CallAnswer where
  | value (v : Option Bytes)
  | entries (rs : List Record)
  | done
deriving DecidableEq

def StorageCall.run {σ : Type} (h : StorageObj σ) (c : StorageCall) (s : σ) (m : GasMeter) :
    Option (σ × GasMeter × GasResult CallAnswer) :=
  match c with
  | .get key => (h (.get m key) s).map fun x => (x.1, x.2.1, x.2.2.map .value)
  | .range start stop order =>
    (h (.range m start stop order) s).map fun x =>
      match x.2.2 with
      | .error e => (x.1, x.2.1, .error e)
      | .ok it => (x.1, (it.collect x.2.1).1, (it.collect x.2.1).2.map .entries)
  | .set key value => (h (.set m key value) s).map fun x => (x.1, x.2.1, x.2.2.map fun _ => .done)
  | .remove key => (h (.remove m key) s).map fun x => (x.1, x.2.1, x.2.2.map fun _ => .done)

/-- `RockWriter`, its ranges going through a `RockIterator`. -/
def rockDbWriter : StorageObj Writer
  | .range m start stop order, w => some (w, rockRange w.view m start stop order)
  | .get m key, w => rockWriter (.get m key) w
  | .set m key value, w => rockWriter (.set m key value) w
  | .remove m key, w => rockWriter (.remove m key) w

/-- `RockReader`. -/
def rockDbReader : StorageObj Store
  | .range m start stop order, data => some (data, rockRange data m start stop order)
  | .get m key, data => reader .rock (.get m key) data
  | .set m key value, data => reader .rock (.set m key value) data
  | .remove m key, data => reader .rock (.remove m key) data

theorem rockDbWriter_eq : rockDbWriter = rockWriter := by
  funext op w
  cases op with
  | range m start stop order => rw [rockDbWriter, rockRange_eq, rockWriter]
  | get m key | set m key value | remove m key => rfl

theorem rockDbReader_eq : rockDbReader = reader .rock := by
  funext op data
  cases op with
  | range m start stop order => rw [rockDbReader, rockRange_eq, reader]
  | get m key | set m key value | remove m key => rfl

def dbWriter : Backend → StorageObj Writer
  | .memory => memoryWriter
  | .rock => rockDbWriter

def dbReader : Backend → StorageObj Store
  | .memory => reader .memory
  | .rock => rockDbReader

theorem dbWriter_eq (b : Backend) : dbWriter b = writerObj b := by
  cases b with
  | memory => rfl
  | rock => exact rockDbWriter_eq

theorem dbReader_eq (b : Backend) : dbReader b = reader b := by
  cases b with
  | memory => rfl
  | rock => exact rockDbReader_eq

/-! ## What a call does and costs -/

namespace StorageCall

/-- What the call answers, with enough gas, on a storage that reads as a map. -/
def answer (data : Store) : StorageCall → CallAnswer
  | get key => .value data[key]?
  | range start stop order => .entries (mapRange data start stop order)
  | set .. => .done
  | remove .. => .done

/-- The key a call writes to, with what it leaves there. -/
def write : StorageCall → Option (Bytes × Delta)
  | get _ => none
  | range .. => none
  | set key value => some (key, .set value)
  | remove key => some (key, .delete)

/-- The pending changes after a call. -/
def changes (ov : Overlay) (c : StorageCall) : Overlay :=
  match c.write with
  | none => ov
  | some (key, d) => ov.insert key d

/-- What a call on a writer costs. -/
def gas (b : Backend) (w : Writer) : StorageCall → Nat
  | get key =>
    match b, w.changes[key]? with
    | .memory, some _ => 0
    | .memory, none => defaultPersistedPrices.readCost key w.committed[key]?
    | .rock, _ => defaultPersistedPrices.readCost key w.view[key]?
  | range start stop order =>
    openCost b start stop +
      match b with
      | .memory => recordsCost (mapRange w.committed start stop order)
      | .rock => recordsCost (mapRange w.view start stop order)
  | set .. => 0
  | remove .. => 0

/-- RocksDB takes no write at the empty key. -/
def Taken (b : Backend) (c : StorageCall) : Prop :=
  b = .rock → ∀ key d, c.write = some (key, d) → key ≠ []

end StorageCall

section Spec

variable {b : Backend} {c : StorageCall} {w : Writer}

/-- The call has been made: the changes are those it leaves, over the same committed map. -/
def StorageCall.Made (c : StorageCall) (w w' : Writer) : Prop :=
  w'.committed = w.committed ∧ w'.changes = c.changes w.changes

/-- What is left of a call when its answer is a computation. -/
theorem run_of_costs {f : GasMeter → GasMeter × GasResult CallAnswer} {w' : Writer} {gas : Nat}
    {a : CallAnswer} (hcosts : Costs f gas a)
    (hrun : ∀ m, ¬ Exhausted m → c.run (dbWriter b) w m = some (w', f m)) {m : GasMeter}
    (hm : ¬ Exhausted m) :
    (m.used + gas < m.limit →
      c.run (dbWriter b) w m = some (w', { m with used := m.used + gas }, .ok a)) ∧
    (m.limit ≤ m.used + gas → ∃ m', c.run (dbWriter b) w m = some (w', m', .error .outOfGas)) := by
  rw [hrun m hm]
  refine ⟨fun hlt => by rw [(hcosts m hm).1 hlt], fun hle => ?_⟩
  obtain ⟨m', hout⟩ := (hcosts m hm).2 hle
  exact ⟨m', by rw [hout]⟩

theorem costs_get (b : Backend) (w : Writer) (key : Bytes) :
    ∃ f, Costs f ((StorageCall.get key).gas b w) (CallAnswer.value w.view[key]?) ∧
      ∀ m, ¬ Exhausted m → (StorageCall.get key).run (dbWriter b) w m = some (w, f m) := by
  cases b with
  | memory =>
    cases hkey : w.changes[key]? with
    | some d =>
      simp only [StorageCall.gas, Writer.getElem?_view, hkey]
      refine ⟨_, Costs.pure _, fun m _ => ?_⟩
      simp only [StorageCall.run, dbWriter, memoryWriter, hkey]
      rfl
    | none =>
      simp only [StorageCall.gas, Writer.getElem?_view, hkey]
      refine ⟨_, (costs_persistedGet w.committed key).map CallAnswer.value, fun m _ => ?_⟩
      simp only [StorageCall.run, dbWriter, memoryWriter, hkey]
      rfl
  | rock => exact ⟨_, (costs_persistedGet w.view key).map CallAnswer.value, fun m _ => rfl⟩

/-- A range and its consumption, from the iterator the storage hands out. -/
theorem costs_consume {σ : Type} {h : StorageObj σ} {s : σ} {start stop : Option Bytes}
    {order : Order} {f : GasMeter → GasMeter × GasResult GasIter} {gas : Nat} {it : GasIter}
    (hf : Costs f gas it) (hh : ∀ m, h (.range m start stop order) s = some (s, f m)) :
    ∃ g, Costs g (gas + it.cost) (.entries it.records) ∧
      ∀ m, (StorageCall.range start stop order).run h s m = some (s, g m) := by
  refine ⟨_, hf.thenDo (k := fun it m => ((it.collect m).1, (it.collect m).2.map .entries))
    ((Costs.collect it).map CallAnswer.entries), fun m => ?_⟩
  simp only [StorageCall.run, hh, Option.map_some, thenDo]
  rcases f m with ⟨m', _ | it⟩ <;> rfl

theorem costs_range (b : Backend) (w : Writer) (start stop : Option Bytes) (order : Order) :
    ∃ f, Costs f ((StorageCall.range start stop order).gas b w)
        (.entries (mapRange w.view start stop order)) ∧
      ∀ m, (StorageCall.range start stop order).run (dbWriter b) w m = some (w, f m) := by
  rw [dbWriter_eq]
  cases b with
  | memory =>
    obtain ⟨it, hit, hrecords, hcost⟩ := costs_persistedRange .memory w.committed start stop order
    have hmerged := hit.map fun it => mergeOverlay order
      ((mapRange w.changes start stop order).length + it.items.length + 1)
      (mapRange w.changes start stop order) it.items it.tail []
    obtain ⟨g, hg, hrun⟩ := costs_consume (h := memoryWriter) hmerged fun m => rfl
    refine ⟨g, ?_, hrun⟩
    rw [records_mergeOverlay w.committed w.changes start stop order it hrecords [],
      (merges_mergeOverlay order _ _ _ _ _ (Nat.lt_succ_self _)).cost] at hg
    have hbase : it.cost = [].sum + (it.items.map fun x => x.1.sum).sum + it.tail.sum := by
      rw [List.sum_nil, Nat.zero_add]
      rfl
    rw [← hbase, hcost] at hg
    exact hg
  | rock =>
    obtain ⟨it, hit, hrecords, hcost⟩ := costs_persistedRange .rock w.view start stop order
    obtain ⟨g, hg, hrun⟩ := costs_consume (h := rockWriter) hit fun m => rfl
    rw [hrecords, hcost] at hg
    exact ⟨g, hg, hrun⟩

/-- **What a call on a writer does**, on a meter with gas left. -/
theorem run_call (hc : c.Taken b) : ∃ w', c.Made w w' ∧ ∀ m, ¬ Exhausted m →
    (m.used + c.gas b w < m.limit → c.run (dbWriter b) w m =
      some (w', { m with used := m.used + c.gas b w }, .ok (c.answer w.view))) ∧
    (m.limit ≤ m.used + c.gas b w →
      ∃ m', c.run (dbWriter b) w m = some (w', m', .error .outOfGas)) := by
  cases c with
  | get key =>
    obtain ⟨f, hf, hrun⟩ := costs_get b w key
    exact ⟨w, ⟨rfl, rfl⟩, fun m hm => run_of_costs hf hrun hm⟩
  | range start stop order =>
    obtain ⟨f, hf, hrun⟩ := costs_range b w start stop order
    exact ⟨w, ⟨rfl, rfl⟩, fun m hm => run_of_costs hf (fun m _ => hrun m) hm⟩
  | set key value =>
    cases b with
    | memory =>
      exact ⟨{ w with changes := w.changes.insert key (.set value) }, ⟨rfl, rfl⟩,
        fun m hm => run_of_costs (Costs.pure _) (fun m _ => rfl) hm⟩
    | rock =>
      obtain ⟨hasher, hset⟩ := w.hasher.exists_set (hc rfl key (.set value) rfl) value
      refine ⟨{ w with changes := w.changes.insert key (.set value), hasher }, ⟨rfl, rfl⟩,
        fun m hm => run_of_costs (Costs.pure _) (fun m hm => ?_) hm⟩
      simp only [StorageCall.run, dbWriter, rockDbWriter, rockWriter, PriceList.chargeWrite,
        PriceList.writeCost_persisted, charge_zero_of_not_exhausted hm, hset]
      rfl
  | remove key =>
    cases b with
    | memory =>
      exact ⟨{ w with changes := w.changes.insert key .delete }, ⟨rfl, rfl⟩,
        fun m hm => run_of_costs (Costs.pure _) (fun m _ => rfl) hm⟩
    | rock =>
      obtain ⟨hasher, hremove⟩ := w.hasher.exists_remove (hc rfl key .delete rfl)
      refine ⟨{ w with changes := w.changes.insert key .delete, hasher }, ⟨rfl, rfl⟩,
        fun m hm => run_of_costs (Costs.pure _) (fun m hm => ?_) hm⟩
      simp only [StorageCall.run, dbWriter, rockDbWriter, rockWriter, PriceList.chargeRemove,
        PriceList.removeCost_persisted, charge_zero_of_not_exhausted hm, hremove]
      rfl

/-- The RocksDB writer panics at a write to the empty key. -/
theorem run_call_panics {d : Delta} (hc : c.write = some ([], d)) {m : GasMeter}
    (hm : ¬ Exhausted m) : c.run (dbWriter .rock) w m = none := by
  cases c with
  | get key | range start stop order => cases hc
  | set key value =>
    obtain rfl : key = [] := (Prod.mk.inj (Option.some.inj hc)).1
    simp only [StorageCall.run, dbWriter, rockDbWriter, rockWriter, PriceList.chargeWrite,
      PriceList.writeCost_persisted, charge_zero_of_not_exhausted hm, FastHasher.set_nil,
      Option.map_none]
  | remove key =>
    obtain rfl : key = [] := (Prod.mk.inj (Option.some.inj hc)).1
    simp only [StorageCall.run, dbWriter, rockDbWriter, rockWriter, PriceList.chargeRemove,
      PriceList.removeCost_persisted, charge_zero_of_not_exhausted hm, FastHasher.remove_nil,
      Option.map_none]

end Spec

/-! ## The gas of a transaction -/

/-- Calls one after the other, up to the first that fails. -/
def StorageCall.runAll (h : StorageObj Writer) : List StorageCall → Writer → GasMeter →
    Option (Writer × GasMeter × GasResult (List CallAnswer))
  | [], w, m => some (w, m, .ok [])
  | c :: cs, w, m =>
    match c.run h w m with
    | none => none
    | some (w', m', .error e) => some (w', m', .error e)
    | some (w', m', .ok a) => (runAll h cs w' m').map fun x => (x.1, x.2.1, x.2.2.map (a :: ·))

/-- What the meter shows after the calls, or that it ran out; no outcome is a panic. -/
def gasOutcome (b : Backend) (calls : List StorageCall) (w : Writer) (m : GasMeter) :
    Option (GasResult Nat) :=
  (StorageCall.runAll (dbWriter b) calls w m).map fun x => x.2.2.map fun _ => x.2.1.used

/-- At every point of the transaction, and whatever the limit, the two stores
have charged the same. -/
def SameGas (p q : Persistent) (calls : List StorageCall) : Prop :=
  ∀ pre, pre <+: calls → ∀ m,
    gasOutcome p.backend pre p.writer m = gasOutcome q.backend pre q.writer m

/-- A call that costs the same on a memory writer over `data` and on a RocksDB
writer over `data'`, both with the pending changes `ov`. -/
def FairPrice (data data' : Store) (ov : Overlay) : StorageCall → Prop
  | .get key => ov[key]? = none ∧ defaultPersistedPrices.readCost key data[key]? =
      defaultPersistedPrices.readCost key data'[key]?
  | .range start stop order => emptyBounds start stop = false ∧
      recordsCost (mapRange data start stop order) =
        recordsCost (mapRange (applyDeltas data' ov.toList) start stop order)
  | .set key _ => key ≠ []
  | .remove key => key ≠ []

def Undisturbed (data data' : Store) : Overlay → List StorageCall → Prop
  | _, [] => True
  | ov, c :: cs => FairPrice data data' ov c ∧ Undisturbed data data' (c.changes ov) cs

/-- The first call reads, so that it fails on a meter that is exhausted already. -/
def StartsReading (calls : List StorageCall) : Prop :=
  ∀ c, calls.head? = some c → c.write = none

section SameGas

variable {data data' : Store} {ov : Overlay} {w w' : Writer} {m : GasMeter} {c : StorageCall}
  {cs : List StorageCall} {b : Backend}

theorem gasOutcome_cons_ok {w₁ : Writer} {m₁ : GasMeter} {a : CallAnswer}
    (h : c.run (dbWriter b) w m = some (w₁, m₁, .ok a)) :
    gasOutcome b (c :: cs) w m = gasOutcome b cs w₁ m₁ := by
  simp only [gasOutcome, StorageCall.runAll, h, Option.map_map]
  rcases StorageCall.runAll (dbWriter b) cs w₁ m₁ with _ | ⟨w₂, m₂, _ | _⟩ <;> rfl

theorem gasOutcome_cons_error {w₁ : Writer} {m₁ : GasMeter} {e : GasError}
    (h : c.run (dbWriter b) w m = some (w₁, m₁, .error e)) :
    gasOutcome b (c :: cs) w m = some (.error e) := by
  simp only [gasOutcome, StorageCall.runAll, h]
  rfl

theorem gasOutcome_cons_none (h : c.run (dbWriter b) w m = none) :
    gasOutcome b (c :: cs) w m = none := by
  simp only [gasOutcome, StorageCall.runAll, h]
  rfl

theorem readCost_pos (key : Bytes) (v : Option Bytes) :
    0 < defaultPersistedPrices.readCost key v := by
  simp only [PriceList.readCost, defaultPersistedPrices]
  omega

/-- A memory writer over `data` and a RocksDB writer over `data'` with the same changes. -/
structure Paired (data data' : Store) (ov : Overlay) (w w' : Writer) : Prop where
  memory : w.committed = data
  rock : w'.committed = data'
  left : w.changes = ov
  right : w'.changes = ov

theorem Paired.step {w₁ w₁' : Writer} (h : Paired data data' ov w w') (hw : c.Made w w₁)
    (hw' : c.Made w' w₁') : Paired data data' (c.changes ov) w₁ w₁' where
  memory := hw.1.trans h.memory
  rock := hw'.1.trans h.rock
  left := by rw [hw.2, h.left]
  right := by rw [hw'.2, h.right]

/-- The condition on a call says that it has one price. -/
theorem fairPrice_iff (h : Paired data data' ov w w') :
    FairPrice data data' ov c ↔ c.Taken .rock ∧ c.gas .memory w = c.gas .rock w' := by
  have hview : w'.view = applyDeltas data' ov.toList := by
    rw [Writer.view, h.rock, h.right]
    rfl
  cases c with
  | get key =>
    have htaken : (StorageCall.get key).Taken .rock := fun _ _ _ hwrite => by cases hwrite
    cases hkey : ov[key]? with
    | some d =>
      have hpos := readCost_pos key w'.view[key]?
      simp only [FairPrice, hkey, StorageCall.gas, h.left]
      constructor
      · rintro ⟨hnone, -⟩
        cases hnone
      · rintro ⟨-, hgas⟩
        omega
    | none =>
      have hshown : w'.view[key]? = data'[key]? := by
        rw [Writer.getElem?_view, h.right, hkey, h.rock]
      simp only [FairPrice, hkey, StorageCall.gas, h.left, hshown, h.memory, true_and, htaken]
  | range start stop order =>
    have htaken : (StorageCall.range start stop order).Taken .rock :=
      fun _ _ _ hwrite => by cases hwrite
    simp only [FairPrice, StorageCall.gas, htaken, true_and, hview, h.memory, openCost,
      defaultPersistedPrices]
    cases hempty : emptyBounds start stop with
    | true =>
      rw [mapRange_eq_nil_of_emptyBounds hempty, if_pos rfl, if_neg (by simp),
        recordsCost_nil]
      constructor
      · rintro ⟨hfalse, -⟩
        cases hfalse
      · intro hgas
        omega
    | false => simp
  | set key value | remove key =>
    simp only [FairPrice, StorageCall.gas, and_true]
    constructor
    · rintro hkey - k d hwrite
      rwa [← (Prod.mk.inj (Option.some.inj hwrite)).1]
    · intro htaken
      exact htaken rfl key _ rfl

theorem taken_memory (c : StorageCall) : c.Taken .memory := fun h => by cases h

theorem Undisturbed.of_isPrefix : ∀ {pre cs : List StorageCall} {ov : Overlay}, pre <+: cs →
    Undisturbed data data' ov cs → Undisturbed data data' ov pre
  | [], _, _, _, _ => trivial
  | c :: pre, cs, ov, hpre, h => by
    obtain ⟨rest, rfl⟩ := hpre
    exact ⟨h.1, of_isPrefix ⟨rest, rfl⟩ h.2⟩

/-- Calls that have one price charge the same, on a meter with gas left. -/
theorem Undisturbed.gasOutcome_eq : ∀ {cs : List StorageCall} {ov : Overlay} {w w' : Writer}
    {m : GasMeter}, Undisturbed data data' ov cs → Paired data data' ov w w' → ¬ Exhausted m →
      gasOutcome .memory cs w m = gasOutcome .rock cs w' m
  | [], _, _, _, _, _, _, _ => rfl
  | c :: cs, ov, w, w', m, h, hpair, hm => by
    obtain ⟨htaken, hgas⟩ := (fairPrice_iff hpair).mp h.1
    obtain ⟨w₁, hmade, hrun⟩ := run_call (w := w) (taken_memory c)
    obtain ⟨w₁', hmade', hrun'⟩ := run_call (w := w') htaken
    by_cases hlt : m.used + c.gas .memory w < m.limit
    · rw [gasOutcome_cons_ok ((hrun m hm).1 hlt),
        gasOutcome_cons_ok ((hrun' m hm).1 (hgas ▸ hlt)), hgas]
      refine h.2.gasOutcome_eq (hpair.step hmade hmade') ?_
      simp only [Exhausted]
      omega
    · obtain ⟨m₁, hout⟩ := (hrun m hm).2 (by omega)
      obtain ⟨m₁', hout'⟩ := (hrun' m hm).2 (by omega)
      rw [gasOutcome_cons_error hout, gasOutcome_cons_error hout']

/-- A read that is charged fails on an exhausted meter. -/
theorem gasOutcome_exhausted (h : FairPrice data data' ov c) (hpair : Paired data data' ov w w')
    (hread : c.write = none) (hm : Exhausted m) :
    gasOutcome .memory (c :: cs) w m = gasOutcome .rock (c :: cs) w' m := by
  have hcharge (cost : Nat) : m.charge cost =
      ({ m with used := m.used + cost }, .error .outOfGas) :=
    GasMeter.charge_of_le (Nat.le_trans hm (Nat.le_add_right _ _))
  cases c with
  | get key =>
    have hkey : w.changes[key]? = none := hpair.left ▸ h.1
    have hget (data : Store) : ∃ m', persistedGet data m key = (m', .error .outOfGas) := by
      rw [persistedGet, PriceList.chargeRead, hcharge]
      exact ⟨_, rfl⟩
    obtain ⟨m₁, hmemory⟩ := hget w.committed
    obtain ⟨m₂, hrock⟩ := hget w'.view
    have hrun : (StorageCall.get key).run (dbWriter .memory) w m =
        some (w, m₁, .error .outOfGas) := by
      simp only [StorageCall.run, dbWriter, memoryWriter, hkey, hmemory]
      rfl
    have hrun' : (StorageCall.get key).run (dbWriter .rock) w' m =
        some (w', m₂, .error .outOfGas) := by
      simp only [StorageCall.run, dbWriter, rockDbWriter, rockWriter, hrock]
      rfl
    rw [gasOutcome_cons_error hrun, gasOutcome_cons_error hrun']
  | range start stop order =>
    have hcharged : defaultPersistedPrices.chargeRange m = (_, .error .outOfGas) := hcharge _
    have hrun : (StorageCall.range start stop order).run (dbWriter .memory) w m =
        some (w, { m with used := m.used + defaultPersistedPrices.rangeFlat },
          .error .outOfGas) := by
      simp only [StorageCall.run, dbWriter, memoryWriter, persistedRange, h.1, hcharged]
      rfl
    have hrun' : (StorageCall.range start stop order).run (dbWriter .rock) w' m =
        some (w', { m with used := m.used + defaultPersistedPrices.rangeFlat },
          .error .outOfGas) := by
      simp only [StorageCall.run, dbWriter, rockDbWriter, rockRange, hcharged]
      rfl
    rw [gasOutcome_cons_error hrun, gasOutcome_cons_error hrun']
  | set key value | remove key => cases hread

/-- A call with two prices shows, if there is gas enough to come to it. -/
theorem gasOutcome_ne (hpair : Paired data data' ov w w') (h : ¬ FairPrice data data' ov c)
    (hm : m.used + (c.gas .memory w + c.gas .rock w') < m.limit) :
    gasOutcome .memory [c] w m ≠ gasOutcome .rock [c] w' m := by
  have hlive : ¬ Exhausted m := by
    simp only [Exhausted]
    omega
  obtain ⟨w₁, -, hrun⟩ := run_call (w := w) (taken_memory c)
  rw [gasOutcome_cons_ok ((hrun m hlive).1 (by omega))]
  by_cases htaken : c.Taken .rock
  · obtain ⟨w₁', -, hrun'⟩ := run_call (w := w') htaken
    rw [gasOutcome_cons_ok ((hrun' m hlive).1 (by omega))]
    intro heq
    have hused : m.used + c.gas .memory w = m.used + c.gas .rock w' :=
      Except.ok.inj (Option.some.inj heq)
    exact h ((fairPrice_iff hpair).mpr ⟨htaken, by omega⟩)
  · have hwrite : ∃ d, c.write = some ([], d) := by
      simp only [StorageCall.Taken, forall_const, not_forall] at htaken
      obtain ⟨key, d, hwrite, hkey⟩ := htaken
      obtain rfl : key = [] := not_not.mp hkey
      exact ⟨d, hwrite⟩
    obtain ⟨d, hwrite⟩ := hwrite
    rw [gasOutcome_cons_none (run_call_panics hwrite hlive)]
    intro heq
    cases heq

/-- Some part of a disturbed transaction shows the difference. -/
theorem exists_gasOutcome_ne : ∀ {cs : List StorageCall} {ov : Overlay} {w w' : Writer},
    ¬ Undisturbed data data' ov cs → Paired data data' ov w w' →
      ∃ pre, pre <+: cs ∧ ∃ bound, ∀ m : GasMeter, m.used + bound < m.limit →
        gasOutcome .memory pre w m ≠ gasOutcome .rock pre w' m
  | [], _, _, _, h, _ => absurd trivial h
  | c :: cs, ov, w, w', h, hpair => by
    by_cases hfair : FairPrice data data' ov c
    · obtain ⟨htaken, hgas⟩ := (fairPrice_iff hpair).mp hfair
      obtain ⟨w₁, hmade, hrun⟩ := run_call (w := w) (taken_memory c)
      obtain ⟨w₁', hmade', hrun'⟩ := run_call (w := w') htaken
      obtain ⟨pre, ⟨rest, rfl⟩, bound, hne⟩ := exists_gasOutcome_ne
        (fun hrest => h ⟨hfair, hrest⟩) (hpair.step hmade hmade')
      refine ⟨c :: pre, ⟨rest, rfl⟩, c.gas .rock w' + bound, fun m hm => ?_⟩
      have hlive : ¬ Exhausted m := by
        simp only [Exhausted]
        omega
      rw [gasOutcome_cons_ok ((hrun m hlive).1 (by omega)),
        gasOutcome_cons_ok ((hrun' m hlive).1 (by omega)), hgas]
      exact hne _ (by simp only; omega)
    · exact ⟨[c], ⟨cs, rfl⟩, _, fun m hm => gasOutcome_ne hpair hfair hm⟩

/-- The memory writer makes a write on an exhausted meter, RocksDB refuses it. -/
theorem gasOutcome_write_ne {key : Bytes} {d : Delta} (hwrite : c.write = some (key, d))
    (hm : Exhausted m) : gasOutcome .memory [c] w m ≠ gasOutcome .rock [c] w' m := by
  have hcharge : m.charge 0 = (m, .error .outOfGas) := GasMeter.charge_of_le hm
  cases c with
  | get key | range start stop order => cases hwrite
  | set key value =>
    have hrock : (StorageCall.set key value).run (dbWriter .rock) w' m =
        some (w', m, .error .outOfGas) := by
      simp only [StorageCall.run, dbWriter, rockDbWriter, rockWriter, PriceList.chargeWrite,
        PriceList.writeCost_persisted, hcharge]
      rfl
    rw [gasOutcome_cons_error hrock]
    intro heq
    cases heq
  | remove key =>
    have hrock : (StorageCall.remove key).run (dbWriter .rock) w' m =
        some (w', m, .error .outOfGas) := by
      simp only [StorageCall.run, dbWriter, rockDbWriter, rockWriter, PriceList.chargeRemove,
        PriceList.removeCost_persisted, hcharge]
      rfl
    rw [gasOutcome_cons_error hrock]
    intro heq
    cases heq

end SameGas

/-- Stores that charge the same have no call with two prices. -/
theorem SameGas.undisturbed {data data' : Store} {hash hash' : Bytes} {calls : List StorageCall}
    (h : SameGas ⟨.memory, data, hash⟩ ⟨.rock, data', hash'⟩ calls) :
    Undisturbed data data' ∅ calls := by
  by_contra hdist
  have hpair : Paired data data' ∅ (Persistent.writer ⟨.memory, data, hash⟩)
      (Persistent.writer ⟨.rock, data', hash'⟩) := ⟨rfl, rfl, rfl, rfl⟩
  obtain ⟨pre, hpre, bound, hne⟩ := exists_gasOutcome_ne hdist hpair
  exact hne ⟨bound + 1, 0⟩ (by simp) (h pre hpre _)

/-- **The gas of a transaction is that of the other backend** exactly if every read
goes to the committed entries, at the price of the other store. -/
theorem same_gas_iff (data data' : Store) (hash hash' : Bytes) (calls : List StorageCall) :
    SameGas ⟨.memory, data, hash⟩ ⟨.rock, data', hash'⟩ calls ↔
      Undisturbed data data' ∅ calls ∧ StartsReading calls := by
  constructor
  · intro hsame
    refine ⟨hsame.undisturbed, fun c hhead => ?_⟩
    by_contra hwrite
    obtain ⟨⟨key, d⟩, hwrite⟩ := Option.ne_none_iff_exists'.mp hwrite
    obtain ⟨cs, rfl⟩ := List.head?_eq_some_iff.mp hhead
    exact gasOutcome_write_ne hwrite (m := ⟨0, 0⟩) (Nat.le_refl 0) (hsame [c] ⟨cs, rfl⟩ _)
  · rintro ⟨hcalls, hreads⟩ pre hpre m
    have hpair : Paired data data' ∅ (Persistent.writer ⟨.memory, data, hash⟩)
        (Persistent.writer ⟨.rock, data', hash'⟩) := ⟨rfl, rfl, rfl, rfl⟩
    have hpre' := hcalls.of_isPrefix hpre
    by_cases hm : Exhausted m
    · cases pre with
      | nil => rfl
      | cons c pre =>
        obtain ⟨rest, rfl⟩ := hpre
        exact gasOutcome_exhausted hpre'.1 hpair (hreads c rfl) hm
    · exact hpre'.gasOutcome_eq hpair hm

/-- Reading a key back after it was set is free on the memory store only. -/
theorem read_back_differs :
    ¬ SameGas ⟨.memory, ∅, []⟩ ⟨.rock, ∅, []⟩ [.get [1], .set [1] [2], .get [1]] := by
  intro hsame
  have hkey : (Std.ExtTreeMap.insert ∅ [1] (Delta.set [2]) : Overlay)[([1] : Bytes)]? = none :=
    hsame.undisturbed.2.2.1.1
  simp at hkey

end LayerSdk
