import LayerSdk.PairTree
import LayerSdk.Storage

/-!
# The state commitment

The Merkle tree over the consensus entries of the store, as the node builds
it (`merkleRoot`, `merklePath`) and as the light-client contract walks it
(`computeRoot`). The hash is a parameter `H`; leaves and nodes are separated
by their first byte, which is what makes the tree a `PairTree.HashScheme`.

A leaf is hashed as `0x00 ‖ key ‖ value` with nothing between key and value.
So what a root commits to is the list of *concatenations* `key ++ value` in
key order (`merkleRoot_injOn`), not the list of entries: the boundary inside
a concatenation is free.
-/

namespace LayerSdk

open PairTree

variable (H : Bytes → Digest)

/-! ## The source's functions -/

def leafHash (key value : Bytes) : Digest := H (0x00 :: (key ++ value))

def nodeHash (l r : Digest) : Digest := H (0x01 :: (l.bytes ++ r.bytes))

def merkleRoot (leaves : List Digest) : Digest :=
  match reduceLoop (nodeHash H) leaves.length leaves with
  | [] => H []
  | root :: _ => root

def merklePath (leaves : List Digest) (index : Nat) : List (Option Digest) :=
  pathLoop (nodeHash H) leaves.length leaves index

/-- The verifier's walk in the contract. -/
def computeRoot (leaf : Digest) (leafIndex : Nat) (siblings : List (Option Digest)) : Digest :=
  walk (nodeHash H) leaf leafIndex siblings

/-- Completeness for every leaf count and index. -/
theorem computeRoot_merklePath {leaves : List Digest} {index : Nat} {leaf : Digest}
    (hleaf : leaves[index]? = some leaf) :
    computeRoot H leaf index (merklePath H leaves index) = merkleRoot H leaves := by
  have h := walk_pathLoop (nodeHash H) leaves.length leaves index leaf (by omega) hleaf
  unfold merkleRoot computeRoot merklePath
  cases hred : reduceLoop (nodeHash H) leaves.length leaves with
  | nil => rw [hred] at h; cases h
  | cons root rest =>
    rw [hred] at h
    exact (Option.some.inj h).symm

/-! ## What a root commits to -/

/-- The tree as a scheme over the strings `key ++ value`. -/
def stateScheme : HashScheme Bytes Digest Bytes where
  hash := H
  leafInput b := 0x00 :: b
  nodeInput l r := 0x01 :: (l.bytes ++ r.bytes)
  leafInput_inj a b h := (List.cons.inj h).2
  nodeInput_inj h := by
    rename_i l r l' r'
    have hlen : l.bytes.length = l'.bytes.length := by rw [l.length_bytes, l'.length_bytes]
    obtain ⟨hl, hr⟩ := List.append_inj (List.cons.inj h).2 hlen
    exact ⟨Digest.ext_bytes hl, Digest.ext_bytes hr⟩
  leaf_ne_node b l r h := by
    have := (List.cons.inj h).1
    revert this
    decide

/-- The string under one leaf. -/
def entryBytes (e : Record) : Bytes := e.1 ++ e.2

/-- Every string hashed while the root over a list of leaf strings is computed. -/
def rootInputs (strings : List Bytes) : List Bytes :=
  match treeOf strings with
  | some t => (stateScheme H).treeInputs t
  | none => [[]]

/-- The root over a list of leaf strings is the hash of their tree. -/
theorem merkleRoot_leaves (strings : List Bytes) :
    merkleRoot H (strings.map fun b => H (0x00 :: b)) =
      match treeOf strings with
      | some t => (stateScheme H).treeHash t
      | none => H [] := by
  unfold merkleRoot
  rw [List.length_map]
  cases ht : treeOf strings with
  | none => rw [treeOf_eq_none ht]; rfl
  | some t =>
    have hred : reduceLoop (nodeHash H) strings.length (strings.map fun b => H (0x00 :: b)) =
        [(stateScheme H).treeHash t] := reduceLoop_treeOf ht (fun _ => rfl) (fun _ _ => rfl)
    rw [hred]

/-- No tree hashes like the empty string. -/
theorem treeHash_ne_empty {inputs : List Bytes} (hcf : CollisionFree H inputs)
    (hempty : [] ∈ inputs) {t : BinTree Bytes} (ht : (stateScheme H).treeInputs t ⊆ inputs) :
    (stateScheme H).treeHash t ≠ H [] := by
  intro heq
  cases t with
  | leaf b | node l r => cases hcf _ (ht (List.mem_cons_self)) _ hempty heq

/-- **Binding.** Two lists of leaf strings with one root are equal, if the
strings hashed for them have no collision. -/
theorem merkleRoot_inj {a b : List Bytes} (hcf : CollisionFree H (rootInputs H a ++ rootInputs H b))
    (heq : merkleRoot H (a.map fun x => H (0x00 :: x)) =
      merkleRoot H (b.map fun x => H (0x00 :: x))) : a = b := by
  rw [merkleRoot_leaves, merkleRoot_leaves] at heq
  unfold rootInputs at hcf
  cases ha : treeOf a with
  | none =>
    rw [ha] at heq hcf
    cases hb : treeOf b with
    | none => rw [treeOf_eq_none ha, treeOf_eq_none hb]
    | some t =>
      rw [hb] at heq hcf
      exact absurd heq.symm (treeHash_ne_empty H hcf (by simp) (List.subset_append_right ..))
  | some t =>
    rw [ha] at heq hcf
    cases hb : treeOf b with
    | none =>
      rw [hb] at heq hcf
      exact absurd heq (treeHash_ne_empty H hcf (by simp) (List.subset_append_left ..))
    | some t' =>
      rw [hb] at heq hcf
      have htt : t = t' := (stateScheme H).treeHash_inj hcf t t'
        (List.subset_append_left ..) (List.subset_append_right ..) heq
      rw [← frontier_treeOf ha, ← frontier_treeOf hb, htt]

/-- **Soundness of a path.** A walk from the leaf of `x` that ends at the root
over `strings` proves that `x` is one of them, whatever its siblings are. -/
theorem computeRoot_sound {strings : List Bytes} {x : Bytes} {idx : Nat}
    {siblings : List (Option Digest)}
    (hcf : CollisionFree H ((0x00 :: x) ::
      ((stateScheme H).walkInputs (H (0x00 :: x)) idx siblings ++ rootInputs H strings)))
    (heq : computeRoot H (H (0x00 :: x)) idx siblings =
      merkleRoot H (strings.map fun b => H (0x00 :: b))) : x ∈ strings := by
  rw [merkleRoot_leaves] at heq
  unfold rootInputs at hcf
  cases ht : treeOf strings with
  | none =>
    rw [ht] at heq hcf
    -- the empty tree's root is neither a leaf nor a node
    have hempty : ([] : Bytes) ∈ (0x00 :: x) ::
        ((stateScheme H).walkInputs (H (0x00 :: x)) idx siblings ++ [[]]) := by simp
    rcases (stateScheme H).walk_mem_hash siblings (H (0x00 :: x)) idx with h | ⟨l, r, hin, h⟩
    · cases hcf _ (List.mem_cons_self) _ hempty (h.symm.trans heq)
    · cases hcf _ (List.mem_cons_of_mem _ (List.mem_append.mpr (.inl hin))) _ hempty
        (h.symm.trans heq)
  | some t =>
    rw [ht] at heq hcf
    obtain ⟨s, hs, hleaf⟩ := (stateScheme H).walk_subtree hcf
      (fun y hy => List.mem_cons_of_mem _ (List.mem_append.mpr (.inr hy))) siblings
      (H (0x00 :: x)) idx
      (fun y hy => List.mem_cons_of_mem _ (List.mem_append.mpr (.inl hy))) heq
    have hsin : (stateScheme H).treeInputs s ⊆ (0x00 :: x) ::
        ((stateScheme H).walkInputs (H (0x00 :: x)) idx siblings
          ++ (stateScheme H).treeInputs t) := fun y hy =>
      List.mem_cons_of_mem _ (List.mem_append.mpr (.inr ((stateScheme H).treeInputs_subtree hs hy)))
    have htree : BinTree.leaf x = s := (stateScheme H).treeHash_inj hcf _ _
      (fun y hy => by
        rw [List.mem_singleton.mp hy]
        exact List.mem_cons_self) hsin hleaf
    subst htree
    rw [← frontier_treeOf ht]
    exact hs.frontier_subset (List.mem_singleton.mpr rfl)

/-- The path the node builds hashes only what the tree hashes. -/
theorem merklePath_inputs {strings : List Bytes} {idx : Nat} {x : Bytes}
    (hx : strings[idx]? = some x) :
    (0x00 :: x) :: (stateScheme H).walkInputs (H (0x00 :: x)) idx
        (merklePath H (strings.map fun b => H (0x00 :: b)) idx) ⊆ rootInputs H strings := by
  unfold rootInputs
  cases ht : treeOf strings with
  | none =>
    rw [treeOf_eq_none ht] at hx
    cases hx
  | some t =>
    have hred := treeOf_eq_some ht
    have hleaf : (strings.map BinTree.leaf)[idx]? = some (.leaf x) := by
      rw [List.getElem?_map, hx]
      rfl
    have hsub := BinTree.Subtree.reduceLoop_node _ (List.mem_of_getElem? hleaf) hred
    have hwalk := (stateScheme H).walkInputs_pathLoop _ hleaf hred
    rw [List.map_map] at hwalk
    have hlen : (strings.map fun b => H (0x00 :: b)).length = strings.length := List.length_map _
    rw [merklePath, hlen]
    exact List.cons_subset.mpr
      ⟨(stateScheme H).treeInputs_subtree hsub (List.mem_cons_self), hwalk⟩

end LayerSdk
