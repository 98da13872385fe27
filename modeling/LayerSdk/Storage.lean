import Mathlib.Tactic.Common
import LayerSdk.EffectProg
import LayerSdk.Gas

/-!
# The metered storage interface

`ReadonlyStorage` and `Storage` as an interface in the sense of
`EffectProg`: four operations, each taking the meter and handing it back.
The code of the keepers is written against this interface only; what
answers it (a database, a transaction overlay, a namespace) is an object
of `Backend` or a wrapper of `Wrap`.

A `range` hands out an iterator that charges while it is consumed. Since
the storage is borrowed until the iterator is dropped, nothing can change
under it, so the iterator is plain data: the records in order, each with
the charges its `next` makes, and the charges of the final `next` that
finds nothing (`GasIter`).
-/

namespace LayerSdk

open EffectProg

abbrev Record := Bytes × Bytes

/-- `BTreeMap<Vec<u8>, Vec<u8>>`. -/
abbrev Store := Std.ExtTreeMap Bytes Bytes

inductive Order where
  | ascending
  | descending
deriving DecidableEq, Repr

/-- `key.first() == Some(&b'_')`: the entry is not consensus state. -/
def isSidecar (key : Bytes) : Bool := key.head? == some 0x5f

theorem isSidecar_append {a : Bytes} (h : isSidecar a = true) (b : Bytes) :
    isSidecar (a ++ b) = true := by
  cases a with
  | nil => cases h
  | cons x rest => exact h

/-! ## Ranges of ordered maps -/

/-- `start ≤ key < stop`, an absent bound being no bound. -/
def inRange (start stop : Option Bytes) (key : Bytes) : Bool :=
  start.all (fun b => (compare b key).isLE) && stop.all fun b => (compare key b).isLT

/-- `start > stop`, which a `BTreeMap` refuses and the stores treat as empty. -/
def emptyBounds : Option Bytes → Option Bytes → Bool
  | some start, some stop => (compare start stop).isGT
  | _, _ => false

def Order.arrange {α : Type} : Order → List α → List α
  | .ascending, l => l
  | .descending, l => l.reverse

/-- The entries of a map within bounds, in the asked order. -/
def mapRange {α : Type} (m : Std.ExtTreeMap Bytes α) (start stop : Option Bytes) (order : Order) :
    List (Bytes × α) :=
  order.arrange (m.toList.filter fun e => inRange start stop e.1)

/-! ## Iterators that charge -/

structure GasIter where
  items : List (List Nat × Record)
  tail : List Nat
deriving DecidableEq

namespace GasIter

def empty : GasIter := ⟨[], []⟩

/-- The iterator of a persisted store: one read charge per record. -/
def ofRecords (prices : PriceList) (records : List Record) : GasIter :=
  ⟨records.map fun r => ([prices.readCost r.1 (some r.2)], r), []⟩

def mapRecords (f : Record → Record) (it : GasIter) : GasIter :=
  ⟨it.items.map fun x => (x.1, f x.2), it.tail⟩

/-- `Iterator::chain`: the end of the first iterator is paid for on the way
to the first record of the second. -/
def chain (a b : GasIter) : GasIter :=
  match b.items with
  | [] => ⟨a.items, a.tail ++ b.tail⟩
  | (cs, r) :: rest => ⟨a.items ++ (a.tail ++ cs, r) :: rest, b.tail⟩

/-- One `next`: the charges, then the record and what is left. -/
def next (it : GasIter) (m : GasMeter) : GasMeter × GasResult (Option (Record × GasIter)) :=
  match it.items with
  | [] => ((m.chargeAll it.tail).1, (m.chargeAll it.tail).2.map fun _ => none)
  | (cs, r) :: rest =>
    ((m.chargeAll cs).1, (m.chargeAll cs).2.map fun _ => some (r, ⟨rest, it.tail⟩))

/-- Consume everything, stopping at the first error. -/
def collectItems (tail : List Nat) :
    List (List Nat × Record) → GasMeter → GasMeter × GasResult (List Record)
  | [], m => ((m.chargeAll tail).1, (m.chargeAll tail).2.map fun _ => [])
  | (cs, r) :: rest, m =>
    match m.chargeAll cs with
    | (m', .error e) => (m', .error e)
    | (m', .ok ()) =>
      let (m'', rs) := collectItems tail rest m'
      (m'', rs.map (r :: ·))

def collect (it : GasIter) (m : GasMeter) : GasMeter × GasResult (List Record) :=
  collectItems it.tail it.items m

/-- The records an iterator goes through. -/
def records (it : GasIter) : List Record := it.items.map Prod.snd

/-- Everything a full consumption charges. -/
def cost (it : GasIter) : Nat := (it.items.map fun x => x.1.sum).sum + it.tail.sum

end GasIter

theorem GasMeter.chargeAll_of_lt : ∀ (cs : List Nat) (m : GasMeter),
    m.used + cs.sum < m.limit →
      m.chargeAll cs = ({ m with used := m.used + cs.sum }, .ok ())
  | [], m, _ => by simp [chargeAll]
  | c :: cs, m, h => by
    rw [List.sum_cons] at h
    rw [chargeAll, charge_of_lt (by omega)]
    simp only [List.sum_cons]
    rw [chargeAll_of_lt cs _ (by simpa [Nat.add_assoc] using h)]
    simp [Nat.add_assoc]

namespace GasIter

/-- A collected iterator yields its records and nothing else. -/
theorem collectItems_ok (tail : List Nat) : ∀ {items : List (List Nat × Record)}
    {m m' : GasMeter} {rs : List Record},
    collectItems tail items m = (m', .ok rs) → rs = items.map Prod.snd
  | [], m, m', rs, h => by
    rw [collectItems] at h
    obtain ⟨-, h⟩ := Prod.mk.inj h
    cases hc : (m.chargeAll tail).2 with
    | error e => rw [hc] at h; cases h
    | ok u => rw [hc] at h; exact (Except.ok.inj h).symm
  | (cs, r) :: rest, m, m', rs, h => by
    rw [collectItems] at h
    cases hc : m.chargeAll cs with
    | mk m₁ res =>
      cases res with
      | error e => simp [hc] at h
      | ok u =>
        rw [hc] at h
        cases hrest : collectItems tail rest m₁ with
        | mk m₂ rs₂ =>
          cases rs₂ with
          | error e => simp [hrest, Except.map] at h
          | ok l =>
            simp only [hrest, Except.map, Prod.mk.injEq, Except.ok.injEq] at h
            rw [← h.2, collectItems_ok tail hrest]
            rfl

theorem collect_ok {it : GasIter} {m m' : GasMeter} {rs : List Record}
    (h : it.collect m = (m', .ok rs)) : rs = it.records := collectItems_ok _ h

theorem collectItems_of_lt (tail : List Nat) : ∀ (items : List (List Nat × Record)) (m : GasMeter),
    m.used + ((items.map fun x => x.1.sum).sum + tail.sum) < m.limit →
      collectItems tail items m =
        ({ m with used := m.used + ((items.map fun x => x.1.sum).sum + tail.sum) },
          .ok (items.map Prod.snd))
  | [], m, h => by
    simp only [List.map_nil, List.sum_nil, Nat.zero_add] at h ⊢
    rw [collectItems, GasMeter.chargeAll_of_lt tail m h]
    rfl
  | (cs, r) :: rest, m, h => by
    simp only [List.map_cons, List.sum_cons] at h ⊢
    rw [collectItems, GasMeter.chargeAll_of_lt cs m (by omega)]
    have hrest := collectItems_of_lt tail rest { m with used := m.used + cs.sum }
      (by simp only; omega)
    simp only [hrest, Except.map, Nat.add_assoc]

/-- An iterator whose whole cost fits is collected completely. -/
theorem collect_of_lt {it : GasIter} {m : GasMeter} (h : m.used + it.cost < m.limit) :
    it.collect m = ({ m with used := m.used + it.cost }, .ok it.records) :=
  collectItems_of_lt _ _ _ h

@[simp] theorem records_ofRecords (prices : PriceList) (rs : List Record) :
    (ofRecords prices rs).records = rs := by
  simp [records, ofRecords, Function.comp_def]

@[simp] theorem records_chain (a b : GasIter) :
    (a.chain b).records = a.records ++ b.records := by
  simp only [chain, records]
  split <;> simp [*]

theorem cost_chain (a b : GasIter) : (a.chain b).cost = a.cost + b.cost := by
  simp only [chain, cost]
  split <;> simp [*] <;> omega

end GasIter

/-! ## The interface -/

inductive StorageOp where
  | get (m : GasMeter) (key : Bytes)
  | range (m : GasMeter) (start stop : Option Bytes) (order : Order)
  | set (m : GasMeter) (key value : Bytes)
  | remove (m : GasMeter) (key : Bytes)

abbrev StorageOp.Res : StorageOp → Type
  | get .. => GasMeter × GasResult (Option Bytes)
  | range .. => GasMeter × GasResult GasIter
  | set .. => GasMeter × GasResult Unit
  | remove .. => GasMeter × GasResult Unit

abbrev storageSig : Sig := ⟨StorageOp, StorageOp.Res⟩

/-- A storage object: `dyn Storage`. -/
abbrev StorageObj (σ : Type) := Handler storageSig σ

/-- Code that takes `&mut dyn Storage` and `&GasMeter` and returns `Result<_, ε>`. -/
abbrev StorageM (ε : Type) := Comp storageSig GasMeter ε

/-- `From<GasError>`. -/
class FromGas (ε : Type) where
  fromGas : GasError → ε

export FromGas (fromGas)

instance : FromGas GasError := ⟨id⟩

section Calls

variable {σ ε α : Type} [FromGas ε]

/-- An answer of the storage as a step of the code: `?` on a gas error. -/
def liftRes (r : GasMeter × GasResult α) : Except ε α × GasMeter :=
  (r.2.mapError fromGas, r.1)

def Storage.get (key : Bytes) : StorageM ε (Option Bytes) :=
  Comp.ofProg fun m => liftRes <$> perform (S := storageSig) (.get m key)

def Storage.range (start stop : Option Bytes) (order : Order) : StorageM ε GasIter :=
  Comp.ofProg fun m => liftRes <$> perform (S := storageSig) (.range m start stop order)

def Storage.set (key value : Bytes) : StorageM ε Unit :=
  Comp.ofProg fun m => liftRes <$> perform (S := storageSig) (.set m key value)

def Storage.remove (key : Bytes) : StorageM ε Unit :=
  Comp.ofProg fun m => liftRes <$> perform (S := storageSig) (.remove m key)

/-- `meter.charge(cost)?`. -/
def charge (cost : Nat) : StorageM ε Unit :=
  Comp.ofProg fun m => pure (liftRes (m.charge cost))

/-- Consume an iterator to its end with the current meter. -/
def collect (it : GasIter) : StorageM ε (List Record) :=
  Comp.ofProg fun m => pure (liftRes (it.collect m))

omit [FromGas ε] in
/-- The current meter. -/
def meter : StorageM ε GasMeter := Comp.ofProg fun m => pure (.ok m, m)

open Comp

theorem exec_get (h : StorageObj σ) (key : Bytes) (m : GasMeter) (s : σ) :
    exec h (Storage.get key : StorageM ε (Option Bytes)) m s =
      (h (.get m key) s).map fun x => (x.1, liftRes x.2) := by
  rw [Storage.get, exec_ofProg, run_map, run_perform]

theorem exec_range (h : StorageObj σ) (start stop : Option Bytes) (order : Order)
    (m : GasMeter) (s : σ) :
    exec h (Storage.range start stop order : StorageM ε GasIter) m s =
      (h (.range m start stop order) s).map fun x => (x.1, liftRes x.2) := by
  rw [Storage.range, exec_ofProg, run_map, run_perform]

theorem exec_set (h : StorageObj σ) (key value : Bytes) (m : GasMeter) (s : σ) :
    exec h (Storage.set key value : StorageM ε Unit) m s =
      (h (.set m key value) s).map fun x => (x.1, liftRes x.2) := by
  rw [Storage.set, exec_ofProg, run_map, run_perform]

theorem exec_remove (h : StorageObj σ) (key : Bytes) (m : GasMeter) (s : σ) :
    exec h (Storage.remove key : StorageM ε Unit) m s =
      (h (.remove m key) s).map fun x => (x.1, liftRes x.2) := by
  rw [Storage.remove, exec_ofProg, run_map, run_perform]

@[simp] theorem exec_collect (h : StorageObj σ) (it : GasIter) (m : GasMeter) (s : σ) :
    exec h (collect it : StorageM ε (List Record)) m s = some (s, liftRes (it.collect m)) := rfl

end Calls

end LayerSdk
