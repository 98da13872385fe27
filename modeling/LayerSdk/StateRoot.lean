import LayerSdk.Backend
import LayerSdk.Plus
import LayerSdk.Snapshot

/-!
# Computing the state root

The root over the consensus entries is computed in two ways: by a full scan
(`stateRootOver`), and from an index of leaf hashes merged with the writes of
one block (`rootWithPending`). Both are roots over the same list of leaves:

- the scan is two ranges around the sidecar keys, which in key order give
  every other entry (`records_consensusEntries`);
- the merge is the one pass of `OrdMap`, so its leaves are the entries of the
  updated index.

`LeafIndex` is the invariant that ties the index to the committed map.
-/

namespace LayerSdk

open EffectProg

variable (H : Bytes → Digest) {ε : Type} [FromGas ε]

/-! ## The scan -/

def sidecarPrefixKey : Bytes := [0x5f]

def sidecarPrefixEnd : Bytes := [0x60]

def consensusEntries : StorageM ε GasIter := do
  let below ← Storage.range none (some sidecarPrefixKey) .ascending
  let above ← Storage.range (some sidecarPrefixEnd) none .ascending
  pure (below.chain above)

/-- The entries a loop over the iterator sees. -/
def scan : StorageM ε (List Record) := do
  let iter ← consensusEntries
  collect iter

/-- Run on a meter of its own that is infinite. -/
def stateRootOver : StorageM ε Digest := do
  let entries ← scan
  pure (merkleRoot H ((entries.filter fun e => !isSidecar e.1).map fun e => leafHash H e.1 e.2))

theorem compare_byte (a b : UInt8) :
    compare a b = if a < b then .lt else if a = b then .eq else .gt := rfl

/-- Below `"_"` are the empty key and the keys with a smaller first byte. -/
theorem inRange_below (key : Bytes) :
    inRange none (some sidecarPrefixKey) key = key.head?.all fun b => decide (b < 0x5f) := by
  cases key with
  | nil => rfl
  | cons a as =>
    have hcmp : compare (a :: as) [0x5f] = (compare a 0x5f).then (compare as []) :=
      List.compareLex_cons_cons
    have hnil : compare as [] ≠ .lt := by
      cases as with
      | nil => decide
      | cons b bs => exact fun h => by cases h
    simp only [inRange, Option.all_none, Option.all_some, Bool.true_and, sidecarPrefixKey, hcmp,
      List.head?_cons, compare_byte]
    by_cases hlt : a < 0x5f
    · simp [hlt]
    · rw [if_neg hlt, decide_eq_false hlt]
      by_cases heq : a = 0x5f
      · rw [if_pos heq]
        revert hnil
        cases compare as [] <;> simp
      · rw [if_neg heq]
        rfl

/-- From the key after it on are the keys with a larger first byte. -/
theorem inRange_above (key : Bytes) :
    inRange (some sidecarPrefixEnd) none key = key.head?.any fun b => decide (0x5f < b) := by
  cases key with
  | nil => rfl
  | cons a as =>
    have hcmp : compare [0x60] (a :: as) = (compare 0x60 a).then (compare [] as) :=
      List.compareLex_cons_cons
    have hnil : (compare [] as).isLE = true := by
      cases as with
      | nil | cons b bs => rfl
    have hbyte : (0x5f : UInt8) < a ↔ (0x60 : UInt8) < a ∨ 0x60 = a := by
      simp only [UInt8.lt_iff_toNat_lt, ← UInt8.toNat_inj]
      change 95 < a.toNat ↔ 96 < a.toNat ∨ 96 = a.toNat
      omega
    simp only [inRange, Option.all_none, Option.all_some, Bool.and_true, sidecarPrefixEnd, hcmp,
      List.head?_cons, compare_byte, Option.any_some, hbyte]
    by_cases hlt : (0x60 : UInt8) < a
    · simp [hlt]
    · by_cases heq : (0x60 : UInt8) = a
      · simp [heq, hnil]
      · simp [hlt, heq]

/-- A key cannot be at or above the end of the sidecar keys and below their start. -/
theorem not_inRange_below {k k' : Bytes} (habove : inRange (some sidecarPrefixEnd) none k = true)
    (hle : (compare k k').isLE = true) : inRange none (some sidecarPrefixKey) k' = false := by
  simp only [inRange, Option.all_none, Option.all_some, Bool.and_true, Bool.true_and] at habove ⊢
  have hend : (compare sidecarPrefixEnd k').isLE = true := Std.TransCmp.isLE_trans habove hle
  by_contra hlt
  have hlt' : compare k' sidecarPrefixKey = .lt := by simpa using hlt
  have hfalse : compare sidecarPrefixEnd sidecarPrefixKey = .lt :=
    Std.TransCmp.lt_of_isLE_of_lt hend hlt'
  exact absurd hfalse (by decide)

/-- The two ranges together, in key order, are the entries that are not
sidecar entries. -/
theorem mapRange_consensus (data : Store) :
    mapRange data none (some sidecarPrefixKey) .ascending ++
      mapRange data (some sidecarPrefixEnd) none .ascending = scanEntries data := by
  have hasc := OrdMap.ascending_toList data
  simp only [mapRange, Order.arrange, scanEntries]
  rw [OrdMap.filter_append_filter]
  · refine List.filter_congr fun e _ => ?_
    rw [inRange_below, inRange_above, isSidecar]
    cases e.1 with
    | nil => rfl
    | cons a as =>
      have htri : a < 0x5f ∨ 0x5f < a ↔ a ≠ 0x5f := by
        simp only [UInt8.lt_iff_toNat_lt, ne_eq, ← UInt8.toNat_inj]
        omega
      by_cases heq : a = 0x5f
      · subst heq
        rfl
      · have hor : (decide (a < 0x5f) || decide (0x5f < a)) = true := by
          simpa using htri.mpr heq
        have hbeq : (some a == some (0x5f : UInt8)) = false := by simpa using heq
        simp only [List.head?_cons, Option.all_some, Option.any_some, hor, hbeq, Bool.not_false]
  · exact hasc.imp fun hlt habove => not_inRange_below habove (by rw [hlt]; rfl)
  · intro e _ hbelow
    by_contra habove
    rw [not_inRange_below (by simpa using habove) (by simp)] at hbelow
    cases hbelow

/-- The iterator the scan goes through. -/
def scanIter (data : Store) : GasIter :=
  (GasIter.ofRecords defaultPersistedPrices
      (mapRange data none (some sidecarPrefixKey) .ascending)).chain
    (GasIter.ofRecords defaultPersistedPrices
      (mapRange data (some sidecarPrefixEnd) none .ascending))

theorem records_scanIter (data : Store) : (scanIter data).records = scanEntries data := by
  rw [scanIter, GasIter.records_chain, GasIter.records_ofRecords, GasIter.records_ofRecords,
    mapRange_consensus]

/-- What a full scan costs. -/
def scanGas (data : Store) : Nat := 2 * defaultPersistedPrices.rangeFlat + (scanIter data).cost

open Comp

theorem exec_range_reader (b : Backend) (data : Store) (m : GasMeter) (start stop : Option Bytes)
    (hbounds : emptyBounds start stop = false) :
    exec (reader b) (Storage.range start stop .ascending : StorageM ε GasIter) m data =
      some (data, ((m.charge defaultPersistedPrices.rangeFlat).2.mapError fromGas).map fun _ =>
        GasIter.ofRecords defaultPersistedPrices (mapRange data start stop .ascending),
        (m.charge defaultPersistedPrices.rangeFlat).1) := by
  rw [exec_range]
  simp only [reader, persistedRange, hbounds, Bool.false_eq_true, and_false, if_false,
    Option.map_some, PriceList.chargeRange]
  obtain ⟨m', r⟩ := m.charge defaultPersistedPrices.rangeFlat
  cases r <;> rfl

/-- `Item::may_load` on a reader. -/
theorem exec_mayLoad [FromStd ε] {α : Type} (b : Backend) (data : Store) (i : Item α)
    (m : GasMeter) :
    exec (reader b) (i.mayLoad : StorageM ε (Option α)) m data =
      let pay := defaultPersistedPrices.chargeRead m i.key data[i.key]?
      some (data, (pay.2.mapError fromGas).bind fun _ =>
        (data[i.key]?.mapM i.codec.fromJson).mapError fromStd, pay.1) := by
  rw [Item.mayLoad, exec_bind, exec_get]
  simp only [reader, persistedGet, Option.map_some, Option.bind_some]
  obtain ⟨m', _ | u⟩ := defaultPersistedPrices.chargeRead m i.key data[i.key]?
  · rfl
  cases data[i.key]? with
  | none => rfl
  | some bz =>
    simp only [Except.map, liftRes, Except.mapError, andThen, mayDeserialize, Option.mapM_some]
    cases i.codec.fromJson bz with
    | error e | ok x => rfl

/-- Opening the scan pays for two ranges. -/
theorem exec_consensusEntries (b : Backend) (data : Store) (m : GasMeter) :
    exec (reader b) (consensusEntries : StorageM ε GasIter) m data =
      let pay := m.chargeAll [defaultPersistedPrices.rangeFlat, defaultPersistedPrices.rangeFlat]
      some (data, (pay.2.mapError fromGas).map fun _ => scanIter data, pay.1) := by
  unfold consensusEntries
  rw [exec_bind, exec_range_reader b data m _ _ rfl]
  simp only [GasMeter.chargeAll, Option.bind_some]
  obtain ⟨m₁, r₁⟩ := m.charge defaultPersistedPrices.rangeFlat
  cases r₁ with
  | error e => rfl
  | ok u =>
    simp only [Except.mapError, Except.map, andThen]
    rw [exec_bind, exec_range_reader b data m₁ _ _ rfl]
    obtain ⟨m₂, r₂⟩ := m₁.charge defaultPersistedPrices.rangeFlat
    cases r₂ with
    | error e | ok u => rfl

theorem exec_scan (b : Backend) (data : Store) (m : GasMeter) :
    exec (reader b) (scan : StorageM ε (List Record)) m data =
      let pay := m.chargeAll [defaultPersistedPrices.rangeFlat, defaultPersistedPrices.rangeFlat]
      match pay.2 with
      | .error e => some (data, .error (fromGas e), pay.1)
      | .ok () => some (data, liftRes ((scanIter data).collect pay.1)) := by
  rw [scan, exec_bind, exec_consensusEntries]
  obtain ⟨m', r⟩ :=
    m.chargeAll [defaultPersistedPrices.rangeFlat, defaultPersistedPrices.rangeFlat]
  cases r <;> rfl

/-- A scan that can be paid for sees every consensus entry. -/
theorem exec_scan_of_lt (b : Backend) (data : Store) (m : GasMeter)
    (hgas : m.used + scanGas data < m.limit) :
    exec (reader b) (scan : StorageM ε (List Record)) m data =
      some (data, .ok (scanEntries data), { m with used := m.used + scanGas data }) := by
  unfold scanGas at hgas
  have hpay := GasMeter.chargeAll_of_lt
    [defaultPersistedPrices.rangeFlat, defaultPersistedPrices.rangeFlat] m (by
      simp only [List.sum_cons, List.sum_nil]
      omega)
  simp only [List.sum_cons, List.sum_nil, Nat.add_zero] at hpay
  rw [exec_scan, hpay]
  dsimp only
  rw [GasIter.collect_of_lt (by dsimp only; omega), records_scanIter]
  simp only [liftRes, Except.mapError, scanGas]
  congr 4
  omega

/-- A scan that succeeds has seen every consensus entry. -/
theorem exec_scan_ok {b : Backend} {data data' : Store} {m m' : GasMeter} {es : List Record}
    (h : exec (reader b) (scan : StorageM ε (List Record)) m data = some (data', .ok es, m')) :
    data' = data ∧ es = scanEntries data := by
  rw [exec_scan] at h
  dsimp only at h
  split at h
  · cases h
  · obtain ⟨hdata, hres⟩ := Prod.mk.inj (Option.some.inj h)
    refine ⟨hdata.symm, ?_⟩
    cases hc : (scanIter data).collect (m.chargeAll
        [defaultPersistedPrices.rangeFlat, defaultPersistedPrices.rangeFlat]).1 with
    | mk m₁ r =>
      rw [hc] at hres
      cases r with
      | error e => cases hres
      | ok rs =>
        obtain ⟨hrs, -⟩ := Prod.mk.inj hres
        rw [← records_scanIter, ← GasIter.collect_ok hc]
        exact (Except.ok.inj hrs).symm

theorem filter_scanEntries (data : Store) :
    (scanEntries data).filter (fun e => !isSidecar e.1) = scanEntries data := by
  rw [scanEntries, List.filter_filter]
  simp

theorem exec_stateRootOver (b : Backend) (data : Store) (m : GasMeter)
    (hgas : m.used + scanGas data < m.limit) :
    exec (reader b) (stateRootOver H : StorageM ε Digest) m data =
      some (data, .ok (stateRoot H data), { m with used := m.used + scanGas data }) := by
  rw [stateRootOver, exec_bind, exec_scan_of_lt b data m hgas, Option.bind_some, andThen,
    exec_pure, filter_scanEntries]
  rfl

theorem exec_stateRootOver_ok {b : Backend} {data data' : Store} {m m' : GasMeter} {r : Digest}
    (h : exec (reader b) (stateRootOver H : StorageM ε Digest) m data = some (data', .ok r, m')) :
    r = stateRoot H data := by
  obtain ⟨s, es, m₁, hscan, h⟩ := exec_bind_ok h
  obtain ⟨-, rfl⟩ := exec_scan_ok hscan
  rw [filter_scanEntries] at h
  obtain ⟨-, hr, -⟩ := exec_pure_cases h
  exact Except.ok.inj hr

/-! ## The index of leaf hashes -/

/-- `BTreeMap<Vec<u8>, [u8; 32]>`. -/
abbrev RootIndex := Std.ExtTreeMap Bytes Digest

/-- The index holds the leaf hash of every consensus entry and nothing else. -/
def LeafIndex (index : RootIndex) (data : Store) : Prop :=
  ∀ k, index[k]? = if isSidecar k then none else data[k]?.map (leafHash H k)

/-- The loop of `rebuild_root_index`. -/
def buildIndex (entries : List Record) : RootIndex :=
  OrdMap.applyAll (fun k v => some (leafHash H k v)) ∅ entries

/-- What a pending operation puts into the list of leaves. -/
def pendingLeaf (key : Bytes) (op : Option Bytes) : Option Digest := op.map (leafHash H key)

/-- The merge of the index with the writes of a block. -/
def rootWithPending (index : RootIndex) (pending : Dirty) : Digest :=
  merkleRoot H ((OrdMap.mergeUpdates (pendingLeaf H) index.toList pending.toList).map Prod.snd)

/-- The loop that folds the writes of a block into the index. -/
def foldDirty (index : RootIndex) (dirty : Dirty) : RootIndex :=
  OrdMap.applyAll (pendingLeaf H) index dirty.toList

/-- The final operation per consensus key leads from `data` to `data'`. -/
structure Tracks (dirty : Dirty) (data data' : Store) : Prop where
  consensus : ∀ k, isSidecar k = false → data'[k]? = (dirty[k]?).getD data[k]?
  sidecar : ∀ k, isSidecar k = true → dirty[k]? = none

variable {H}

theorem getElem?_scanEntries (data : Store) (k v : Bytes) :
    (k, v) ∈ scanEntries data ↔ isSidecar k = false ∧ data[k]? = some v := by
  rw [scanEntries, List.mem_filter, Std.ExtTreeMap.mem_toList_iff_getElem?_eq_some]
  simp [and_comm]

theorem ascending_scanEntries (data : Store) : OrdMap.Ascending (scanEntries data) :=
  List.Pairwise.filter _ (OrdMap.ascending_toList data)

theorem lookup_scanEntries (data : Store) (k : Bytes) :
    (scanEntries data).lookup k = if isSidecar k then none else data[k]? := by
  have hnone (h : ∀ v, (k, v) ∉ scanEntries data) := OrdMap.lookup_eq_none h
  by_cases hk : isSidecar k = true
  · rw [if_pos hk, hnone]
    intro v hv
    rw [getElem?_scanEntries, hk] at hv
    cases hv.1
  · rw [if_neg hk]
    cases hv : data[k]? with
    | none =>
      refine hnone fun v hv' => ?_
      rw [getElem?_scanEntries, hv] at hv'
      cases hv'.2
    | some v =>
      exact (ascending_scanEntries data).lookup_eq_some
        ((getElem?_scanEntries data k v).mpr ⟨by simpa using hk, hv⟩)

theorem leafIndex_buildIndex (data : Store) :
    LeafIndex H (buildIndex H (scanEntries data)) data := by
  intro k
  rw [buildIndex, OrdMap.getElem?_applyAll_list _ _ _ _ (ascending_scanEntries data).keys_nodup,
    lookup_scanEntries]
  by_cases hk : isSidecar k = true
  · simp [hk]
  · simp only [if_neg hk]
    cases data[k]? <;> simp

variable {index : RootIndex} {data : Store}

theorem LeafIndex.toList_eq (h : LeafIndex H index data) :
    index.toList = (scanEntries data).map fun e => (e.1, leafHash H e.1 e.2) := by
  have hasc : OrdMap.Ascending ((scanEntries data).map fun e => (e.1, leafHash H e.1 e.2)) :=
    List.pairwise_map.mpr (ascending_scanEntries data)
  refine (hasc.eq_toList index fun k leaf => ?_).symm
  rw [h k, List.mem_map]
  constructor
  · rintro ⟨⟨k', v⟩, hmem, heq⟩
    cases heq
    obtain ⟨hside, hv⟩ := (getElem?_scanEntries data k' v).mp hmem
    rw [hside, hv]
    rfl
  · intro hleaf
    by_cases hk : isSidecar k = true
    · rw [if_pos hk] at hleaf
      cases hleaf
    · rw [if_neg hk] at hleaf
      obtain ⟨v, hv, rfl⟩ := Option.map_eq_some_iff.mp hleaf
      exact ⟨(k, v), (getElem?_scanEntries data k v).mpr ⟨by simpa using hk, hv⟩, rfl⟩

/-- An index of the store has the store's root. -/
theorem LeafIndex.merkleRoot_eq (h : LeafIndex H index data) :
    merkleRoot H (index.toList.map Prod.snd) = stateRoot H data := by
  rw [h.toList_eq, List.map_map]
  rfl

/-- Folding the writes of a block into the index of the old store gives the
index of the new one. -/
theorem LeafIndex.foldDirty {data' : Store} {dirty : Dirty} (h : LeafIndex H index data)
    (ht : Tracks dirty data data') : LeafIndex H (foldDirty H index dirty) data' := by
  intro k
  rw [LayerSdk.foldDirty, OrdMap.getElem?_applyAll, h k]
  by_cases hk : isSidecar k = true
  · rw [ht.sidecar k hk, if_pos hk, if_pos hk]
  · rw [if_neg hk, if_neg hk, ht.consensus k (by simpa using hk)]
    cases dirty[k]? <;> rfl

/-- **The incremental root is the root of the scan.** -/
theorem LeafIndex.rootWithPending_eq {data' : Store} {dirty : Dirty} (h : LeafIndex H index data)
    (ht : Tracks dirty data data') : rootWithPending H index dirty = stateRoot H data' := by
  rw [rootWithPending, OrdMap.mergeUpdates_toList]
  exact (h.foldDirty ht).merkleRoot_eq

theorem Tracks.empty (data : Store) : Tracks ∅ data data where
  consensus k _ := by simp
  sidecar k _ := by simp

end LayerSdk
