import LayerSdk.OrdMap
import LayerSdk.Wrap

/-!
# The persistent stores

`MemoryStore` and `RockStore` behind one interface. A writer of either is a
set of pending changes over the committed map: `MemoryStorageWriter` keeps
them in a `ReaderWrapper`, a RocksDB transaction in its indexed batch. What
differs, and matters, is the gas:

- the memory writer charges nothing for a write and for a read that its
  local changes answer, and charges (a price of zero) while it commits;
- the RocksDB writer charges every operation, writes at a price of zero,
  which still fails on an exhausted meter, and commits without a meter.

Both feed the `FastHasher`, which indexes the first byte of the key and so
panics on an empty key.
-/

namespace LayerSdk

open EffectProg

inductive Backend where
  | memory
  | rock
deriving DecidableEq, Repr

/-! ## The rolling app hash -/

structure FastHasher where
  oldHash : Bytes
  tally : Option Bytes
deriving DecidableEq

namespace FastHasher

def new (oldHash : Bytes) : FastHasher := ⟨oldHash, none⟩

def update (f : FastHasher) (data : Bytes) : FastHasher :=
  { f with tally := some ((f.tally.getD f.oldHash) ++ data) }

def set (f : FastHasher) (key value : Bytes) : Option FastHasher :=
  if key = [] then none
  else if isSidecar key then some f
  else some (f.update ([0x73, 0x65, 0x74] ++ key ++ value))

def remove (f : FastHasher) (key : Bytes) : Option FastHasher :=
  if key = [] then none
  else if isSidecar key then some f
  else some (f.update ([0x72, 0x65, 0x6d, 0x6f, 0x76, 0x65] ++ key))

def hash (H : Bytes → Digest) (f : FastHasher) : Bytes :=
  match f.tally with
  | some data => (H data).bytes
  | none => f.oldHash

end FastHasher

/-! ## Readers -/

def persistedGet (data : Store) (m : GasMeter) (key : Bytes) :
    GasMeter × GasResult (Option Bytes) :=
  let (m', c) := defaultPersistedPrices.chargeRead m key data[key]?
  (m', c.map fun _ => data[key]?)

/-- The range of a persisted store. `BTreeStorage` answers reversed bounds
before it charges; RocksDB charges first and finds nothing. -/
def persistedRange (b : Backend) (data : Store) (m : GasMeter) (start stop : Option Bytes)
    (order : Order) : GasMeter × GasResult GasIter :=
  if b = .memory ∧ emptyBounds start stop then (m, .ok .empty)
  else
    match defaultPersistedPrices.chargeRange m with
    | (m', .error e) => (m', .error e)
    | (m', .ok ()) =>
      (m', .ok (.ofRecords defaultPersistedPrices (mapRange data start stop order)))

/-- `MemoryStorageReader` and `RockReader`: there is no write to call. -/
def reader (b : Backend) : StorageObj Store
  | .get m key, data => some (data, persistedGet data m key)
  | .range m start stop order, data => some (data, persistedRange b data m start stop order)
  | .set .., _ => none
  | .remove .., _ => none

theorem exec_reader_state {ε α : Type} {b : Backend} {p : StorageM ε α} {m m' : GasMeter}
    {data data' : Store} {r : Except ε α}
    (h : Comp.exec (reader b) p m data = some (data', r, m')) : data' = data := by
  refine run_invariant (fun s => s = data) (fun op s s' res hop hs => ?_) _ h rfl
  cases op with
  | get m key
  | range m start stop order => exact (Prod.mk.inj (Option.some.inj hop)).1.symm.trans hs
  | set m key value | remove m key => cases hop

/-! ## Writers -/

structure Writer where
  committed : Store
  changes : Overlay
  hasher : FastHasher

/-- The committed map with all pending changes in it. -/
def Writer.view (w : Writer) : Store :=
  OrdMap.applyAll (fun _ d => Delta.value d) w.committed w.changes.toList

def memoryWriter : StorageObj Writer
  | .get m key, w =>
    match w.changes[key]? with
    | some d => some (w, m, .ok d.value)
    | none => some (w, persistedGet w.committed m key)
  | .range m start stop order, w =>
    let changes := mapRange w.changes start stop order
    let (m', base) := persistedRange .memory w.committed m start stop order
    some (w, m', base.map fun it =>
      mergeOverlay order (changes.length + it.items.length + 1) changes it.items it.tail [])
  | .set m key value, w =>
    some ({ w with changes := w.changes.insert key (.set value) }, m, .ok ())
  | .remove m key, w =>
    some ({ w with changes := w.changes.insert key .delete }, m, .ok ())

def rockWriter : StorageObj Writer
  | .get m key, w => some (w, persistedGet w.view m key)
  | .range m start stop order, w => some (w, persistedRange .rock w.view m start stop order)
  | .set m key value, w =>
    match defaultPersistedPrices.chargeWrite m key value with
    | (m', .error e) => some (w, m', .error e)
    | (m', .ok ()) =>
      (w.hasher.set key value).map fun hasher =>
        ({ w with changes := w.changes.insert key (.set value), hasher }, m', .ok ())
  | .remove m key, w =>
    match defaultPersistedPrices.chargeRemove m key with
    | (m', .error e) => some (w, m', .error e)
    | (m', .ok ()) =>
      (w.hasher.remove key).map fun hasher =>
        ({ w with changes := w.changes.insert key .delete, hasher }, m', .ok ())

def writerObj : Backend → StorageObj Writer
  | .memory => memoryWriter
  | .rock => rockWriter

/-! ## The store and its commit -/

/-- A persistent store. `hash` is the field `BTreeStorage` keeps it in; RocksDB
keeps it under `_app_hash`. -/
structure Persistent where
  backend : Backend
  data : Store
  hash : Bytes

/-- `_app_hash`. -/
def appHashKey : Bytes := [0x5f, 0x61, 0x70, 0x70, 0x5f, 0x68, 0x61, 0x73, 0x68]

namespace Persistent

def appHash (p : Persistent) : Bytes :=
  match p.backend with
  | .memory => p.hash
  | .rock => p.data[appHashKey]?.getD (List.replicate 32 0)

def writer (p : Persistent) : Writer := ⟨p.data, ∅, .new p.appHash⟩

end Persistent

/-- The commit loop of the memory store: hash, charge, apply. -/
def memoryCommitOps : List (Bytes × Delta) → GasMeter → FastHasher → Store →
    Option (Store × GasMeter × GasResult FastHasher)
  | [], m, f, s => some (s, m, .ok f)
  | (key, .set value) :: rest, m, f, s =>
    match f.set key value with
    | none => none
    | some f' =>
      match defaultPersistedPrices.chargeWrite m key value with
      | (m', .error e) => some (s, m', .error e)
      | (m', .ok ()) => memoryCommitOps rest m' f' (s.insert key value)
  | (key, .delete) :: rest, m, f, s =>
    match f.remove key with
    | none => none
    | some f' =>
      match defaultPersistedPrices.chargeRemove m key with
      | (m', .error e) => some (s, m', .error e)
      | (m', .ok ()) => memoryCommitOps rest m' f' (s.erase key)

/-- `Transaction::commit` of the block writer. -/
def Persistent.commit (H : Bytes → Digest) (p : Persistent) (w : Writer) (m : GasMeter) :
    Option (Persistent × GasMeter × GasResult Unit) :=
  match p.backend with
  | .memory =>
    (memoryCommitOps w.changes.toList m (.new p.hash) w.committed).map fun (s, m', r) =>
      match r with
      | .ok f => ({ p with data := s, hash := f.hash H }, m', .ok ())
      | .error e => ({ p with data := s }, m', .error e)
  | .rock => some ({ p with data := w.view.insert appHashKey (w.hasher.hash H) }, m, .ok ())

/-! ## What a writer shows -/

/-- A pending change hides the committed entry; anything else shows through. -/
theorem Writer.getElem?_view (w : Writer) (k : Bytes) :
    w.view[k]? = match w.changes[k]? with
      | some d => d.value
      | none => w.committed[k]? := by
  rw [view, OrdMap.getElem?_applyAll]
  cases w.changes[k]? <;> rfl

end LayerSdk
