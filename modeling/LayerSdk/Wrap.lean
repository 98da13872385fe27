import LayerSdk.Storage
import LayerSdk.EffectYield

/-!
# Storage wrappers

The objects that implement `Storage` on top of another one:

- the transaction overlays `SubTx`, `WeakSubTx` and `ScratchTx`, all three
  a `ReaderWrapper` (local changes over a base that is only read) plus the
  cache price list;
- `AppMeter`, which charges every write;
- `PrefixedStorage`, a namespace;
- `TrackingWriter`, which records the block's final operation per key.

`atomic` and `RepLog::commit` write an overlay to the storage below, one
operation after the other, stopping at the first error. That is where a
transaction could be torn apart; `Atomic` shows when it is not.
-/

namespace LayerSdk

open EffectProg

variable {ε α : Type} [FromGas ε]

/-! ## The overlay -/

/-- A change held back in a transaction cache. -/
inductive Delta where
  | set (value : Bytes)
  | delete
deriving DecidableEq, Repr

def Delta.value : Delta → Option Bytes
  | .set v => some v
  | .delete => none

/-- `local_state: BTreeMap<Vec<u8>, Delta>`. -/
abbrev Overlay := Std.ExtTreeMap Bytes Delta

/-- `MergeOverlay`: the local changes merged into the iterator of the base.
`acc` holds the charges already made by the `next` call in progress: peeking
at the base pays for its record even when a local entry is returned, and a
deleted entry makes the same call go on. The first argument bounds the
number of entries looked at. -/
def mergeOverlay (order : Order) :
    Nat → List (Bytes × Delta) → List (List Nat × Record) → List Nat → List Nat → GasIter
  | 0, _, _, tail, acc => ⟨[], acc ++ tail⟩
  | _ + 1, [], [], tail, acc => ⟨[], acc ++ tail⟩
  | n + 1, [], (cs, r) :: rs, tail, acc =>
    let it := mergeOverlay order n [] rs tail []
    ⟨(acc ++ cs, r) :: it.items, it.tail⟩
  | n + 1, (k, .set v) :: ls, [], tail, acc =>
    let it := mergeOverlay order n ls [] [] []
    ⟨(acc ++ tail, (k, v)) :: it.items, it.tail⟩
  | n + 1, (_, .delete) :: ls, [], tail, acc => mergeOverlay order n ls [] [] (acc ++ tail)
  | n + 1, (lk, d) :: ls, (cs, (rk, rv)) :: rs, tail, acc =>
    let cmp := match order with
      | .ascending => compare lk rk
      | .descending => compare rk lk
    match cmp, d with
    | .lt, .set v =>
      let it := mergeOverlay order n ls (([], (rk, rv)) :: rs) tail []
      ⟨(acc ++ cs, (lk, v)) :: it.items, it.tail⟩
    | .lt, .delete => mergeOverlay order n ls (([], (rk, rv)) :: rs) tail (acc ++ cs)
    | .eq, .set v =>
      let it := mergeOverlay order n ls rs tail []
      ⟨(acc ++ cs, (lk, v)) :: it.items, it.tail⟩
    | .eq, .delete => mergeOverlay order n ls rs tail (acc ++ cs)
    | .gt, _ =>
      let it := mergeOverlay order n ((lk, d) :: ls) rs tail []
      ⟨(acc ++ cs, (rk, rv)) :: it.items, it.tail⟩

theorem mergeOverlay_nil (order : Order) (n : Nat) (tail acc : List Nat) :
    mergeOverlay order (n + 1) [] [] tail acc = ⟨[], acc ++ tail⟩ := by
  rw [mergeOverlay]

namespace ReaderWrapper

def get (ov : Overlay) (m : GasMeter) (key : Bytes) :
    Prog storageSig (GasMeter × GasResult (Option Bytes)) :=
  match ov[key]? with
  | some d => pure (m, .ok d.value)
  | none => perform (S := storageSig) (.get m key)

def range (ov : Overlay) (m : GasMeter) (start stop : Option Bytes) (order : Order) :
    Prog storageSig (GasMeter × GasResult GasIter) := do
  -- a range with start > stop selects nothing on either side
  let changes := mapRange ov start stop order
  let (m', base) ← perform (S := storageSig) (.range m start stop order)
  pure (m', base.map fun it =>
    mergeOverlay order (changes.length + it.items.length + 1) changes it.items it.tail [])

end ReaderWrapper

/-- A cache level: the overlay, with the level's own prices on top. A `set`
is priced like a `range`, as in the source. -/
def cacheTx (prices : PriceList) : Wrapper storageSig storageSig Overlay
  | .get m key, ov => do
    let (m₁, r) ← ReaderWrapper.get ov m key
    match r with
    | .error e => pure (ov, m₁, .error e)
    | .ok v =>
      let (m₂, c) := prices.chargeRead m₁ key v
      pure (ov, m₂, c.map fun _ => v)
  | .range m start stop order, ov =>
    match prices.chargeRange m with
    | (m₁, .error e) => pure (ov, m₁, .error e)
    | (m₁, .ok ()) => do
      let r ← ReaderWrapper.range ov m₁ start stop order
      pure (ov, r)
  | .set m key value, ov =>
    match prices.chargeRange m with
    | (m₁, .error e) => pure (ov, m₁, .error e)
    | (m₁, .ok ()) => pure (ov.insert key (.set value), m₁, .ok ())
  | .remove m key, ov =>
    match prices.chargeRemove m key with
    | (m₁, .error e) => pure (ov, m₁, .error e)
    | (m₁, .ok ()) => pure (ov.insert key .delete, m₁, .ok ())

def subTx : Wrapper storageSig storageSig Overlay := cacheTx defaultCachePrices

def weakSubTx : Wrapper storageSig storageSig Overlay := cacheTx defaultCachePrices

def scratchTx : Wrapper storageSig storageSig Overlay := cacheTx defaultCachePrices

/-! ### What a cache asks and holds -/

/-- A write is at a key in `K`. -/
def WritesAt (K : Bytes → Prop) : StorageOp → Prop
  | .get .. => True
  | .range .. => True
  | .set _ key _ => K key
  | .remove _ key => K key

theorem yields_op {P : StorageOp → Prop} (op : StorageOp) (hop : P op) :
    Yields P (fun _ => True) (perform (S := storageSig) op) := Yields.perform hop

section Cache

variable {K K' : Bytes → Prop}

/-- Every change in the overlay is at a key in `K`. -/
def OverlayAt (K : Bytes → Prop) (ov : Overlay) : Prop := ∀ key ∈ ov, K key

theorem OverlayAt.empty : OverlayAt K ∅ := fun _ hkey => absurd hkey Std.ExtTreeMap.not_mem_empty

theorem OverlayAt.insert {ov : Overlay} (hov : OverlayAt K ov) {key : Bytes} (hkey : K key)
    (d : Delta) : OverlayAt K (ov.insert key d) := by
  intro key' hmem
  rcases Std.ExtTreeMap.mem_insert.mp hmem with heq | hmem
  · exact Std.LawfulEqCmp.compare_eq_iff_eq.mp heq ▸ hkey
  · exact hov key' hmem

/-- Of the storage below a cache only reads, so it writes there in any set of keys. -/
theorem yields_cacheTx (prices : PriceList) (op : StorageOp) (ov : Overlay) (hop : WritesAt K op)
    (hov : OverlayAt K ov) :
    Yields (WritesAt K') (fun y => OverlayAt K y.1) (cacheTx prices op ov) := by
  cases op with
  | get m key =>
    rw [cacheTx]
    refine Yields.bind (Q := fun _ => True) ?_ fun x _ => ?_
    · rw [ReaderWrapper.get]
      split
      · trivial
      · exact yields_op (.get m key) trivial
    · obtain ⟨m₁, _ | _⟩ := x <;> exact hov
  | range m start stop order =>
    rw [cacheTx]
    split
    · exact hov
    · rename_i m₁ _
      refine Yields.bind (Q := fun _ => True) ?_ fun _ _ => hov
      exact (yields_op (.range m₁ start stop order) trivial).bind fun _ _ => trivial
  | set m key value | remove m key =>
    rw [cacheTx]
    split
    · exact hov
    · exact hov.insert hop _

end Cache

/-! ## Writing an overlay to the storage below -/

/-- `Op::apply`. -/
def applyOp (key : Bytes) : Delta → StorageM ε Unit
  | .set value => Storage.set key value
  | .delete => Storage.remove key

/-- The loop of `SubTx::commit` and of `RepLog::commit`. -/
def applyOps : List (Bytes × Delta) → StorageM ε Unit
  | [] => pure ()
  | (key, d) :: rest => do
    applyOp key d
    applyOps rest

def commitOverlay (ov : Overlay) : StorageM ε Unit := applyOps ov.toList

/-- Run in a transaction; commit on success, drop the changes on an error. -/
def atomic (f : StorageM ε α) : StorageM ε α := do
  let (ov, res) ← Comp.within subTx ∅ f
  match res with
  | .ok a => do
    commitOverlay ov
    pure a
  | .error e => throw e

/-! ## Metering, namespaces -/

/-- Reads pass; writes and removes are charged. -/
def appMeter : Wrapper storageSig storageSig Unit
  | .get m key, () => do
    let r ← perform (S := storageSig) (.get m key)
    pure ((), r)
  | .range m start stop order, () => do
    let r ← perform (S := storageSig) (.range m start stop order)
    pure ((), r)
  | .set m key value, () =>
    match defaultCommitPrices.chargeWrite m key value with
    | (m₁, .error e) => pure ((), m₁, .error e)
    | (m₁, .ok ()) => do
      let r ← perform (S := storageSig) (.set m₁ key value)
      pure ((), r)
  | .remove m key, () =>
    match defaultCommitPrices.chargeRemove m key with
    | (m₁, .error e) => pure ((), m₁, .error e)
    | (m₁, .ok ()) => do
      let r ← perform (S := storageSig) (.remove m₁ key)
      pure ((), r)

/-- `encode_length(namespace) ‖ namespace`; longer than `0xFFFF` is a panic. -/
def toLengthPrefixed (namespace_ : Bytes) : Option Bytes :=
  if namespace_.length > 0xFFFF then none
  else some (UInt8.ofNat (namespace_.length / 256) :: UInt8.ofNat (namespace_.length % 256)
    :: namespace_)

def toLengthPrefixedNested : List Bytes → Option Bytes
  | [] => some []
  | ns :: rest => do
    let a ← toLengthPrefixed ns
    let b ← toLengthPrefixedNested rest
    pure (a ++ b)

/-- Add one to the number the bytes spell, last byte first; the carry out of
the first byte is lost. -/
def incrementRev : Bytes → Bytes
  | [] => []
  | b :: rest => if b = 255 then 0 :: incrementRev rest else (b + 1) :: rest

def namespaceUpperBound (input : Bytes) : Bytes := (incrementRev input.reverse).reverse

def prefixedBounds (ns : Bytes) (start stop : Option Bytes) : Bytes × Bytes :=
  (match start with
    | some s => ns ++ s
    | none => ns,
   match stop with
    | some e => ns ++ e
    | none => namespaceUpperBound ns)

def trim (ns key : Bytes) : Bytes := key.drop ns.length

/-- The part of a storage whose keys start with `ns`. -/
def prefixedStorage (ns : Bytes) : Wrapper storageSig storageSig Unit
  | .get m key, () => do
    let r ← perform (S := storageSig) (.get m (ns ++ key))
    pure ((), r)
  | .range m start stop order, () => do
    let (lo, hi) := prefixedBounds ns start stop
    let (m₁, r) ← perform (S := storageSig) (.range m (some lo) (some hi) order)
    pure ((), m₁, r.map (GasIter.mapRecords fun e => (trim ns e.1, e.2)))
  | .set m key value, () => do
    let r ← perform (S := storageSig) (.set m (ns ++ key) value)
    pure ((), r)
  | .remove m key, () => do
    let r ← perform (S := storageSig) (.remove m (ns ++ key))
    pure ((), r)

/-- `prefixed(storage, namespace)`. -/
def prefixed (ns : Bytes) (p : StorageM ε α) : StorageM ε α :=
  match toLengthPrefixed ns with
  | some pre => Comp.under (prefixedStorage pre) p
  | none => Comp.panic

/-- `PrefixedStorage::multilevel(storage, namespaces)`. -/
def prefixedMultilevel (namespaces : List Bytes) (p : StorageM ε α) : StorageM ε α :=
  match toLengthPrefixedNested namespaces with
  | some pre => Comp.under (prefixedStorage pre) p
  | none => Comp.panic

/-! ## The block's write tracker -/

/-- `dirty: BTreeMap<Vec<u8>, Option<Vec<u8>>>`. -/
abbrev Dirty := Std.ExtTreeMap Bytes (Option Bytes)

def trackingWriter : Wrapper storageSig storageSig Dirty
  | .get m key, dirty => do
    let r ← perform (S := storageSig) (.get m key)
    pure (dirty, r)
  | .range m start stop order, dirty => do
    let r ← perform (S := storageSig) (.range m start stop order)
    pure (dirty, r)
  | .set m key value, dirty => do
    let (m₁, r) ← perform (S := storageSig) (.set m key value)
    match r with
    | .error e => pure (dirty, m₁, .error e)
    | .ok () => pure (if isSidecar key then dirty else dirty.insert key (some value), m₁, .ok ())
  | .remove m key, dirty => do
    let (m₁, r) ← perform (S := storageSig) (.remove m key)
    match r with
    | .error e => pure (dirty, m₁, .error e)
    | .ok () => pure (if isSidecar key then dirty else dirty.insert key none, m₁, .ok ())

/-- The final operation on a key, recorded when it was made. -/
def track (dirty : Dirty) (key : Bytes) (op : Option Bytes) : GasResult Unit → Dirty
  | .ok () => if isSidecar key then dirty else dirty.insert key op
  | .error _ => dirty

section Tracked

variable {σ : Type} (h : StorageObj σ) (m : GasMeter) (key value : Bytes) (dirty : Dirty) (s : σ)

theorem trackingWriter_get : stack trackingWriter h (.get m key) (dirty, s) =
    (h (.get m key) s).map fun y => ((dirty, y.1), y.2) := by
  rw [stack, trackingWriter, run_bind, run_perform]
  cases h (.get m key) s <;> rfl

theorem trackingWriter_range (start stop : Option Bytes) (order : Order) :
    stack trackingWriter h (.range m start stop order) (dirty, s) =
      (h (.range m start stop order) s).map fun y => ((dirty, y.1), y.2) := by
  rw [stack, trackingWriter, run_bind, run_perform]
  cases h (.range m start stop order) s <;> rfl

theorem trackingWriter_set : stack trackingWriter h (.set m key value) (dirty, s) =
    (h (.set m key value) s).map fun y => ((track dirty key (some value) y.2.2, y.1), y.2) := by
  rw [stack, trackingWriter, run_bind, run_perform]
  cases h (.set m key value) s with
  | none => rfl
  | some y => obtain ⟨s', m', _ | _⟩ := y <;> rfl

theorem trackingWriter_remove : stack trackingWriter h (.remove m key) (dirty, s) =
    (h (.remove m key) s).map fun y => ((track dirty key none y.2.2, y.1), y.2) := by
  rw [stack, trackingWriter, run_bind, run_perform]
  cases h (.remove m key) s with
  | none => rfl
  | some y => obtain ⟨s', m', _ | _⟩ := y <;> rfl

end Tracked

end LayerSdk
