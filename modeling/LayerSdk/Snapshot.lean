import LayerSdk.Merkle
import LayerSdk.OrdMap

/-!
# Snapshots and their authentication

The record stream of a state-sync snapshot and the joiner's check of a
whole dump, `verifySnapshotRoot`: sort the records by key, rebuild the
root, compare.

The check authenticates the strings `key ++ value` in key order and no
more. `verifySnapshotRoot_iff` says so exactly, and
`verifySnapshotRoot_perm_iff` draws the consequence: a dump that is
accepted is a permutation of the committed entries unless it moves the
boundary between some key and its value.
-/

namespace LayerSdk

open PairTree

variable (H : Bytes → Digest)

/-! ## The root of a store -/

/-- The entries that are consensus state, in ascending key order. -/
def scanEntries (s : Store) : List Record := s.toList.filter fun e => !isSidecar e.1

/-- The root over all consensus entries. -/
def stateRoot (s : Store) : Digest :=
  merkleRoot H ((scanEntries s).map fun e => leafHash H e.1 e.2)

/-! ## The wire format -/

def u32le (n : Nat) : Bytes :=
  [UInt8.ofNat n, UInt8.ofNat (n / 256), UInt8.ofNat (n / 65536), UInt8.ofNat (n / 16777216)]

def fromU32le : Bytes → Nat
  | [a, b, c, d] => a.toNat + 256 * b.toNat + 65536 * c.toNat + 16777216 * d.toNat
  | _ => 0

theorem length_u32le (n : Nat) : (u32le n).length = 4 := rfl

theorem fromU32le_u32le {n : Nat} (h : n < 2 ^ 32) : fromU32le (u32le n) = n := by
  simp only [u32le, fromU32le, UInt8.toNat_ofNat']
  omega

/-- One pass of the loop of `decode_snapshot_chunk`: a record and the rest. -/
def decodeRecord (rest : Bytes) : Except String (Record × Bytes) :=
  if rest.length < 4 then .error "snapshot record: truncated key length"
  else
    let klen := fromU32le (rest.take 4)
    let rest := rest.drop 4
    if rest.length < klen then .error "snapshot record: truncated key"
    else
      let key := rest.take klen
      let rest := rest.drop klen
      if rest.length < 4 then .error "snapshot record: truncated value length"
      else
        let vlen := fromU32le (rest.take 4)
        let rest := rest.drop 4
        if rest.length < vlen then .error "snapshot record: truncated value"
        else .ok ((key, rest.take vlen), rest.drop vlen)

/-- The loop; every record takes at least eight bytes, so the length bounds it. -/
def decodeLoop : Nat → Bytes → Except String (List Record)
  | 0, _ => .ok []
  | _ + 1, [] => .ok []
  | n + 1, b :: bs =>
    match decodeRecord (b :: bs) with
    | .error e => .error e
    | .ok (r, rest) => (decodeLoop n rest).map (r :: ·)

def decodeSnapshotChunk (data : Bytes) : Except String (List Record) :=
  decodeLoop data.length data

/-! ## The joiner's check -/

/-- `sorted.sort_by(|a, b| a.0.cmp(&b.0))`. -/
def sortByKey (records : List Record) : List Record :=
  records.mergeSort fun a b => (compare a.1 b.1).isLE

def verifySnapshotRoot (records : List Record) (expectedRoot : Digest) : Bool :=
  merkleRoot H ((sortByKey records).map fun e => leafHash H e.1 e.2) == expectedRoot

/-- `R` carries the strings of `S`, one for one in key order, but cuts some of
them into key and value at another place. -/
def Resplit (S : Store) (R : List Record) : Prop :=
  (sortByKey R).map entryBytes = S.toList.map entryBytes ∧ sortByKey R ≠ S.toList

instance (S : Store) (R : List Record) : Decidable (Resplit S R) :=
  inferInstanceAs (Decidable (_ ∧ _))

theorem map_leafHash (es : List Record) :
    es.map (fun e => leafHash H e.1 e.2) = (es.map entryBytes).map fun b => H (0x00 :: b) := by
  rw [List.map_map]
  rfl

theorem scanEntries_eq_toList {S : Store} (hS : ∀ e ∈ S.toList, isSidecar e.1 = false) :
    scanEntries S = S.toList := by
  refine List.filter_eq_self.mpr fun e he => ?_
  rw [hS e he]
  rfl

/-- The strings hashed for the committed state and for the dump. -/
def snapshotInputs (S : Store) (R : List Record) : List Bytes :=
  rootInputs H ((sortByKey R).map entryBytes) ++ rootInputs H (S.toList.map entryBytes)

/-- What the check accepts. -/
theorem verifySnapshotRoot_iff {S : Store} (hS : ∀ e ∈ S.toList, isSidecar e.1 = false)
    {R : List Record} (hcf : CollisionFree H (snapshotInputs H S R)) :
    verifySnapshotRoot H R (stateRoot H S) = true ↔
      (sortByKey R).map entryBytes = S.toList.map entryBytes := by
  unfold verifySnapshotRoot stateRoot
  rw [scanEntries_eq_toList hS, map_leafHash, map_leafHash, beq_iff_eq]
  constructor
  · exact merkleRoot_inj H hcf
  · intro h
    rw [h]

/-- Sorting a permutation of an ascending list gives back the list. -/
theorem sortByKey_eq_iff_perm {l : List Record} (hl : OrdMap.Ascending l) (R : List Record) :
    sortByKey R = l ↔ R.Perm l := by
  constructor
  · intro h
    rw [← h]
    exact (List.mergeSort_perm ..).symm
  · intro hperm
    have hperm' : (sortByKey R).Perm l := (List.mergeSort_perm ..).trans hperm
    have hsorted : (sortByKey R).Pairwise fun a b => (compare a.1 b.1).isLE = true := by
      refine List.pairwise_mergeSort ?_ ?_ R
      · intro a b c hab hbc
        exact Std.TransCmp.isLE_trans hab hbc
      · intro a b
        rw [Bool.or_eq_true]
        rw [Std.OrientedOrd.eq_swap (a := b.1)]
        cases compare a.1 b.1 <;> simp
    have hasc : l.Pairwise fun a b => (compare a.1 b.1).isLE = true :=
      hl.imp fun h => by rw [h]; rfl
    refine hperm'.eq_of_pairwise (fun a b ha hb hab hba => ?_) hsorted hasc
    -- equal keys inside the list mean equal entries
    have hcmp : compare a.1 b.1 = .eq := Std.OrientedCmp.isLE_antisymm hab hba
    have hkey : a.1 = b.1 := by simpa using hcmp
    have ha' := hl.lookup_eq_some (hperm'.subset ha)
    rw [hkey, hl.lookup_eq_some hb] at ha'
    exact Prod.ext hkey (Option.some.inj ha').symm

theorem sortByKey_eq_iff (S : Store) (R : List Record) :
    sortByKey R = S.toList ↔ R.Perm S.toList :=
  sortByKey_eq_iff_perm (OrdMap.ascending_toList S) R

/-- An accepted dump is a permutation of the committed entries, except when
it re-splits them. -/
theorem verifySnapshotRoot_perm_iff (S : Store) (hS : ∀ e ∈ S.toList, isSidecar e.1 = false)
    (R : List Record) (hcf : CollisionFree H (snapshotInputs H S R)) :
    (verifySnapshotRoot H R (stateRoot H S) = true → R.Perm S.toList) ↔ ¬ Resplit S R := by
  rw [verifySnapshotRoot_iff H hS hcf, ← sortByKey_eq_iff]
  unfold Resplit
  tauto

/-- The state with the single entry `"ab" ↦ "c"`. -/
def abState : Store := (∅ : Store).insert [0x61, 0x62] [0x63]

theorem sortByKey_singleton (r : Record) : sortByKey [r] = [r] := List.mergeSort_singleton r

theorem verifySnapshotRoot_perm_iff_abState :
    (verifySnapshotRoot sha256 [([0x61, 0x62], [0x63])] (stateRoot sha256 abState) = true →
      [([0x61, 0x62], [0x63])].Perm abState.toList) ↔
      ¬ Resplit abState [([0x61, 0x62], [0x63])] :=
  verifySnapshotRoot_perm_iff sha256 abState (by decide) _ (by
    rw [snapshotInputs, sortByKey_singleton]
    decide +kernel)

/-- With `"ab" ↦ "c"` committed, the dump `"a" ↦ "bc"` passes the check. The
hashed strings have no collision: there is only one. -/
theorem verifySnapshotRoot_accepts_resplit :
    CollisionFree sha256 (snapshotInputs sha256 abState [([0x61], [0x62, 0x63])]) ∧
      verifySnapshotRoot sha256 [([0x61], [0x62, 0x63])] (stateRoot sha256 abState) = true ∧
      ¬ [([0x61], [0x62, 0x63])].Perm abState.toList := by
  refine ⟨?_, ?_, by decide⟩
  · rw [snapshotInputs, sortByKey_singleton]
    decide +kernel
  · rw [verifySnapshotRoot, sortByKey_singleton]
    decide +kernel

end LayerSdk
