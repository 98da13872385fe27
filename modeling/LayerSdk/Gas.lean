import LayerSdk.Sha256
import Mathlib.Algebra.GroupWithZero.Nat

/-!
# Gas meters and storage prices

`GasMeter::charge` adds the cost first and compares afterwards, so a meter
that ran out stays out: every later charge fails, a charge of zero
included. This is what `atomic` relies on when the commit loop of a
transaction charges a price of zero between its writes.

The counters are `u64` in the source, with overflow checks on: a sum that
leaves the range panics there instead of returning `OutOfGas`. Here `used`
is unbounded, and the charge fails, because no limit exceeds `u64::MAX`.
-/

namespace LayerSdk

/-- `u64::MAX`. -/
def u64Max : Nat := 2 ^ 64 - 1

inductive GasError where
  | outOfGas
deriving DecidableEq, Repr

abbrev GasResult := Except GasError

structure GasMeter where
  limit : Nat
  used : Nat
deriving DecidableEq, Repr

namespace GasMeter

def new (limit : Nat) : GasMeter := ⟨limit, 0⟩

def infinite : GasMeter := new u64Max

def remaining (m : GasMeter) : Nat := m.limit - m.used

def charge (m : GasMeter) (cost : Nat) : GasMeter × GasResult Unit :=
  let m' := { m with used := m.used + cost }
  if m'.used ≥ m'.limit then (m', .error .outOfGas) else (m', .ok ())

/-- Charges made one after the other, stopping at the first that fails. -/
def chargeAll (m : GasMeter) : List Nat → GasMeter × GasResult Unit
  | [] => (m, .ok ())
  | c :: cs =>
    match m.charge c with
    | (m', .ok ()) => m'.chargeAll cs
    | (m', .error e) => (m', .error e)

theorem charge_ok {m m' : GasMeter} {cost : Nat} (h : m.charge cost = (m', .ok ())) :
    m' = { m with used := m.used + cost } ∧ m.used + cost < m.limit := by
  simp only [charge] at h
  split at h
  · cases h
  · obtain ⟨rfl, -⟩ := Prod.mk.inj h
    exact ⟨rfl, Nat.lt_of_not_ge ‹_›⟩

theorem charge_of_lt {m : GasMeter} {cost : Nat} (h : m.used + cost < m.limit) :
    m.charge cost = ({ m with used := m.used + cost }, .ok ()) := by
  simp only [charge, ge_iff_le]
  rw [if_neg (by omega)]

theorem charge_of_le {m : GasMeter} {cost : Nat} (h : m.limit ≤ m.used + cost) :
    m.charge cost = ({ m with used := m.used + cost }, .error .outOfGas) := by
  simp only [charge, ge_iff_le]
  rw [if_pos h]

/-- A charge of zero changes nothing and fails exactly on an exhausted meter. -/
theorem charge_zero (m : GasMeter) :
    m.charge 0 = (m, if m.limit ≤ m.used then .error .outOfGas else .ok ()) := by
  simp only [charge, Nat.add_zero, ge_iff_le]
  split <;> rfl

end GasMeter

/-! ## Price lists -/

structure PriceList where
  readFlat : Nat
  readPerBytePercent : Nat
  writeFlat : Nat
  writePerBytePercent : Nat
  removeFlat : Nat
  removePerBytePercent : Nat
  rangeFlat : Nat

/-- Reads of the persisted store cost; its writes happen at the end of a block. -/
def defaultPersistedPrices : PriceList := ⟨1000, 100, 0, 0, 0, 0, 1000⟩

/-- The level of the application logic: every write costs. -/
def defaultCommitPrices : PriceList := ⟨100, 10, 2000, 200, 2000, 200, 100⟩

/-- Cache levels are free. -/
def defaultCachePrices : PriceList := ⟨0, 0, 0, 0, 0, 0, 0⟩

namespace PriceList

def readCost (p : PriceList) (key : Bytes) (value : Option Bytes) : Nat :=
  p.readFlat + (key.length + (value.map List.length).getD 0) * p.readPerBytePercent / 100

def writeCost (p : PriceList) (key value : Bytes) : Nat :=
  p.writeFlat + (key.length + value.length) * p.writePerBytePercent / 100

def removeCost (p : PriceList) (key : Bytes) : Nat :=
  p.removeFlat + key.length * p.removePerBytePercent / 100

def chargeRead (p : PriceList) (m : GasMeter) (key : Bytes) (value : Option Bytes) :
    GasMeter × GasResult Unit := m.charge (p.readCost key value)

def chargeWrite (p : PriceList) (m : GasMeter) (key value : Bytes) :
    GasMeter × GasResult Unit := m.charge (p.writeCost key value)

def chargeRemove (p : PriceList) (m : GasMeter) (key : Bytes) :
    GasMeter × GasResult Unit := m.charge (p.removeCost key)

def chargeRange (p : PriceList) (m : GasMeter) : GasMeter × GasResult Unit :=
  m.charge p.rangeFlat

@[simp] theorem writeCost_persisted (key value : Bytes) :
    defaultPersistedPrices.writeCost key value = 0 := by
  simp [writeCost, defaultPersistedPrices]

@[simp] theorem removeCost_persisted (key : Bytes) :
    defaultPersistedPrices.removeCost key = 0 := by
  simp [removeCost, defaultPersistedPrices]

end PriceList

end LayerSdk
