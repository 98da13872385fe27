import Mathlib.Tactic.Common

/-!
# Pairing trees

The general theory of a list folded to one value by pairing neighbours,
level by level, an odd last element moving up unchanged. Nothing here
knows what is hashed or how: the combining function is a parameter.

- `reduceLoop`/`pathLoop`/`walk` are the three loops every such commitment
  has: the root, the sibling path of a position, and the walk that a
  verifier does along a path. `walk_pathLoop` is completeness: the path of
  a position leads from its element to the root.
- `BinTree` is the symbolic value of the same fold. `reduceLoop` is natural
  in the combining function (`reduceLoop_map`), so the root of a list of
  hashes is the hash of one symbolic tree whose frontier is the list.
- `HashScheme` is a hash with separated leaf and node inputs. If there is
  no collision *among the inputs that were actually hashed*, the hash of a
  tree determines the tree (`treeHash_inj`), and a walk of any shape that
  ends in a tree's hash started at the hash of one of its subtrees
  (`walk_subtree`). No hash of fixed width is injective on all inputs, so
  the inputs are recorded and the assumption is made about them alone.
-/

namespace PairTree

variable {α β δ ι : Type*}

/-! ## The three loops -/

/-- One level: neighbours are combined, an odd last element is promoted. -/
def pairUp (f : α → α → α) : List α → List α
  | x :: y :: rest => f x y :: pairUp f rest
  | l => l

/-- The `while level.len() > 1` loop. -/
def reduceLoop (f : α → α → α) : Nat → List α → List α
  | 0, level => level
  | n + 1, level => if level.length > 1 then reduceLoop f n (pairUp f level) else level

/-- Position of the sibling of position `idx` on its level. -/
def siblingIdx (idx : Nat) : Nat :=
  if idx % 2 = 0 then idx + 1 else idx - 1

/-- The siblings met from position `idx` upwards, `none` on a level where
the position has no sibling and is promoted. -/
def pathLoop (f : α → α → α) : Nat → List α → Nat → List (Option α)
  | 0, _, _ => []
  | n + 1, level, idx =>
    if level.length > 1 then
      level[siblingIdx idx]? :: pathLoop f n (pairUp f level) (idx / 2)
    else []

/-- The verifier's walk: the parity of the index picks the order. -/
def walk (f : α → α → α) : α → Nat → List (Option α) → α
  | cur, _, [] => cur
  | cur, idx, none :: rest => walk f cur (idx / 2) rest
  | cur, idx, some sib :: rest =>
    walk f (if idx % 2 = 0 then f cur sib else f sib cur) (idx / 2) rest

theorem length_pairUp (f : α → α → α) : ∀ l : List α,
    (pairUp f l).length = (l.length + 1) / 2
  | [] => by simp [pairUp]
  | [_] => by simp [pairUp]
  | _ :: _ :: rest => by
    simp only [pairUp, List.length_cons, length_pairUp f rest]
    omega

/-- Position `i` of the next level combines positions `2 * i` and
`2 * i + 1`, or is the promoted last element. -/
theorem getElem?_pairUp (f : α → α → α) : ∀ (l : List α) (i : Nat),
    (pairUp f l)[i]? =
      match l[2 * i]?, l[2 * i + 1]? with
      | some x, some y => some (f x y)
      | x, _ => x
  | [], i => by simp [pairUp]
  | [a], i => by
    cases i with
    | zero => rfl
    | succ i =>
      have h : 2 * (i + 1) = 2 * i + 1 + 1 := by omega
      simp [pairUp, h]
  | a :: b :: rest, i => by
    cases i with
    | zero => rfl
    | succ i =>
      have h : 2 * (i + 1) = 2 * i + 1 + 1 := by omega
      exact getElem?_pairUp f rest i

/-- One step of a walk along the tree's own path lands on the element of
the next level. -/
theorem pairUp_step (f : α → α → α) {l : List α} {idx : Nat} {x : α}
    (hx : l[idx]? = some x) :
    (pairUp f l)[idx / 2]? = some
      (match l[siblingIdx idx]? with
        | some sib => if idx % 2 = 0 then f x sib else f sib x
        | none => x) := by
  rw [getElem?_pairUp]
  rcases Nat.mod_two_eq_zero_or_one idx with heven | hodd
  · have h2 : 2 * (idx / 2) = idx := by omega
    simp only [siblingIdx, heven, if_true, h2, hx]
    cases l[idx + 1]? <;> rfl
  · have h2 : 2 * (idx / 2) = idx - 1 := by omega
    have h3 : idx - 1 + 1 = idx := by omega
    have hlt : idx - 1 < l.length := by
      have := (List.getElem?_eq_some_iff.mp hx).1
      omega
    simp [siblingIdx, hodd, h2, h3, hx, List.getElem?_eq_getElem hlt]

theorem length_reduceLoop (f : α → α → α) : ∀ (n : Nat) (l : List α),
    0 < l.length → l.length ≤ n + 1 → (reduceLoop f n l).length = 1
  | 0, l, hpos, hle => by
    simp only [reduceLoop]
    omega
  | n + 1, l, hpos, hle => by
    simp only [reduceLoop]
    split
    · refine length_reduceLoop f n _ ?_ ?_ <;> rw [length_pairUp] <;> omega
    · omega

/-- **Completeness.** Walking the path of a position from its element ends
at the single value the levels reduce to. -/
theorem walk_pathLoop (f : α → α → α) : ∀ (n : Nat) (l : List α) (idx : Nat) (x : α),
    l.length ≤ n + 1 → l[idx]? = some x →
      (reduceLoop f n l)[0]? = some (walk f x idx (pathLoop f n l idx))
  | 0, l, idx, x, hle, hx => by
    have hlt := (List.getElem?_eq_some_iff.mp hx).1
    obtain rfl : idx = 0 := by omega
    simpa [reduceLoop, pathLoop, walk] using hx
  | n + 1, l, idx, x, hle, hx => by
    have hlt := (List.getElem?_eq_some_iff.mp hx).1
    simp only [reduceLoop, pathLoop]
    split
    · have hle' : (pairUp f l).length ≤ n + 1 := by rw [length_pairUp]; omega
      rw [walk_pathLoop f n _ _ _ hle' (pairUp_step f hx)]
      cases l[siblingIdx idx]? <;> rfl
    · obtain rfl : idx = 0 := by omega
      simpa [walk] using hx

/-! ## The symbolic tree -/

/-- The value of the fold before anything is hashed. -/
inductive BinTree (β : Type*) where
  | leaf (b : β)
  | node (l r : BinTree β)

namespace BinTree

/-- Leaves from left to right. -/
def frontier : BinTree β → List β
  | leaf b => [b]
  | node l r => l.frontier ++ r.frontier

inductive Subtree : BinTree β → BinTree β → Prop
  | refl (t : BinTree β) : Subtree t t
  | left {s l : BinTree β} (r : BinTree β) : Subtree s l → Subtree s (node l r)
  | right {s r : BinTree β} (l : BinTree β) : Subtree s r → Subtree s (node l r)

theorem Subtree.trans {s t u : BinTree β} (h₁ : Subtree s t) (h₂ : Subtree t u) :
    Subtree s u := by
  induction h₂ with
  | refl => exact h₁
  | left r _ ih => exact .left r ih
  | right l _ ih => exact .right l ih

theorem Subtree.frontier_subset {s t : BinTree β} (h : Subtree s t) :
    s.frontier ⊆ t.frontier := by
  induction h with
  | refl => exact fun _ hb => hb
  | left r _ ih => exact fun b hb => List.mem_append.mpr (.inl (ih hb))
  | right l _ ih => exact fun b hb => List.mem_append.mpr (.inr (ih hb))

end BinTree

theorem pairUp_map {γ : Type*} (h : γ → α) (g : γ → γ → γ) (f : α → α → α)
    (hfg : ∀ a b, h (g a b) = f (h a) (h b)) : ∀ l : List γ,
    pairUp f (l.map h) = (pairUp g l).map h
  | [] => rfl
  | [_] => rfl
  | _ :: _ :: rest => by simp [pairUp, hfg, pairUp_map h g f hfg rest]

/-- The fold is natural in the combining function. -/
theorem reduceLoop_map {γ : Type*} (h : γ → α) (g : γ → γ → γ) (f : α → α → α)
    (hfg : ∀ a b, h (g a b) = f (h a) (h b)) : ∀ (n : Nat) (l : List γ),
    reduceLoop f n (l.map h) = (reduceLoop g n l).map h
  | 0, _ => rfl
  | n + 1, l => by
    simp only [reduceLoop, List.length_map, pairUp_map h g f hfg,
      reduceLoop_map h g f hfg n]
    split <;> rfl

theorem frontier_pairUp : ∀ l : List (BinTree β),
    (pairUp BinTree.node l).flatMap BinTree.frontier = l.flatMap BinTree.frontier
  | [] => rfl
  | [_] => rfl
  | _ :: _ :: rest => by simp [pairUp, BinTree.frontier, frontier_pairUp rest]

theorem frontier_reduceLoop : ∀ (n : Nat) (l : List (BinTree β)),
    (reduceLoop BinTree.node n l).flatMap BinTree.frontier = l.flatMap BinTree.frontier
  | 0, _ => rfl
  | n + 1, l => by
    simp only [reduceLoop]
    split
    · rw [frontier_reduceLoop n, frontier_pairUp]
    · rfl

/-- The symbolic tree of a list; the empty list has none. -/
def treeOf (bs : List β) : Option (BinTree β) :=
  (reduceLoop BinTree.node bs.length (bs.map BinTree.leaf))[0]?

variable {bs : List β} {t : BinTree β}

theorem treeOf_eq_some (h : treeOf bs = some t) :
    reduceLoop BinTree.node bs.length (bs.map BinTree.leaf) = [t] := by
  have hpos : 0 < bs.length := by
    cases bs with
    | nil => cases h
    | cons b rest => simp
  have hlen : (reduceLoop BinTree.node bs.length (bs.map BinTree.leaf)).length = 1 :=
    length_reduceLoop _ _ _ (by simpa using hpos) (by simp)
  obtain ⟨t', ht'⟩ := List.length_eq_one_iff.mp hlen
  rw [treeOf, ht'] at h
  obtain rfl : t' = t := Option.some.inj h
  exact ht'

theorem treeOf_eq_none (h : treeOf bs = none) : bs = [] := by
  cases bs with
  | nil => rfl
  | cons b rest =>
    have hlen : (reduceLoop BinTree.node (b :: rest).length ((b :: rest).map BinTree.leaf)).length = 1 :=
      length_reduceLoop _ _ _ (by simp) (by simp)
    rw [treeOf, List.getElem?_eq_none_iff] at h
    omega

/-- The leaves of the tree of a list are the list. -/
theorem frontier_treeOf (h : treeOf bs = some t) : t.frontier = bs := by
  have hfront := frontier_reduceLoop bs.length (bs.map BinTree.leaf)
  rw [treeOf_eq_some h] at hfront
  simpa [BinTree.frontier, List.flatMap_map] using hfront

/-- Folding hashes is hashing the tree. -/
theorem reduceLoop_treeOf (h : treeOf bs = some t) {hleaf : β → δ} {f : δ → δ → δ}
    {hash : BinTree β → δ} (h₁ : ∀ b, hash (.leaf b) = hleaf b)
    (h₂ : ∀ l r, hash (.node l r) = f (hash l) (hash r)) :
    reduceLoop f bs.length (bs.map hleaf) = [hash t] := by
  have hmap : bs.map hleaf = (bs.map BinTree.leaf).map hash := by
    rw [List.map_map]
    exact List.map_congr_left fun b _ => (h₁ b).symm
  rw [hmap, reduceLoop_map hash BinTree.node f h₂, treeOf_eq_some h]
  rfl

theorem BinTree.Subtree.pairUp_node : ∀ {l : List (BinTree β)} {x : BinTree β}, x ∈ l →
    ∃ y ∈ pairUp BinTree.node l, x.Subtree y
  | [y], x, hx => ⟨y, by simp [pairUp], by rw [List.mem_singleton.mp hx]; exact .refl y⟩
  | a :: b :: rest, x, hx => by
    rcases List.mem_cons.mp hx with rfl | hx
    · exact ⟨.node x b, by simp [pairUp], .left b (.refl x)⟩
    rcases List.mem_cons.mp hx with rfl | hx
    · exact ⟨.node a x, by simp [pairUp], .right a (.refl x)⟩
    · obtain ⟨y, hy, hsub⟩ := BinTree.Subtree.pairUp_node hx
      exact ⟨y, by simp [pairUp, hy], hsub⟩

/-- Everything on a level is a subtree of what the level reduces to. -/
theorem BinTree.Subtree.reduceLoop_node : ∀ (n : Nat) {l : List (BinTree β)} {x : BinTree β},
    x ∈ l → reduceLoop BinTree.node n l = [t] → x.Subtree t
  | 0, l, x, hx, hred => by
    rw [reduceLoop] at hred
    rw [hred] at hx
    rw [List.mem_singleton.mp hx]
    exact .refl t
  | n + 1, l, x, hx, hred => by
    rw [reduceLoop] at hred
    split at hred
    · obtain ⟨y, hy, hsub⟩ := BinTree.Subtree.pairUp_node hx
      exact hsub.trans (BinTree.Subtree.reduceLoop_node n hy hred)
    · rw [hred] at hx
      rw [List.mem_singleton.mp hx]
      exact .refl t

/-! ## Hashing with separated inputs -/

/-- A hash over leaf and node inputs that can never be confused. -/
structure HashScheme (β δ ι : Type*) where
  hash : ι → δ
  leafInput : β → ι
  nodeInput : δ → δ → ι
  leafInput_inj : Function.Injective leafInput
  nodeInput_inj : ∀ {l r l' r' : δ}, nodeInput l r = nodeInput l' r' → l = l' ∧ r = r'
  leaf_ne_node : ∀ b l r, leafInput b ≠ nodeInput l r

namespace HashScheme

variable (S : HashScheme β δ ι)

def leafHash (b : β) : δ := S.hash (S.leafInput b)

def nodeHash (l r : δ) : δ := S.hash (S.nodeInput l r)

def treeHash : BinTree β → δ
  | .leaf b => S.leafHash b
  | .node l r => S.nodeHash (treeHash l) (treeHash r)

/-- Every input hashed for a tree. -/
def treeInputs : BinTree β → List ι
  | .leaf b => [S.leafInput b]
  | .node l r => S.nodeInput (S.treeHash l) (S.treeHash r) :: (treeInputs l ++ treeInputs r)

/-- Every input hashed during a walk. -/
def walkInputs : δ → Nat → List (Option δ) → List ι
  | _, _, [] => []
  | cur, idx, none :: rest => walkInputs cur (idx / 2) rest
  | cur, idx, some sib :: rest =>
    let input := if idx % 2 = 0 then S.nodeInput cur sib else S.nodeInput sib cur
    input :: walkInputs (S.hash input) (idx / 2) rest

theorem treeInputs_subtree {s t : BinTree β} (h : BinTree.Subtree s t) :
    S.treeInputs s ⊆ S.treeInputs t := by
  induction h with
  | refl => exact fun _ hx => hx
  | left r _ ih =>
    exact fun x hx => List.mem_cons_of_mem _ (List.mem_append.mpr (.inl (ih hx)))
  | right l _ ih =>
    exact fun x hx => List.mem_cons_of_mem _ (List.mem_append.mpr (.inr (ih hx)))

end HashScheme

/-- No two of the given inputs share a hash. -/
def CollisionFree (hash : ι → δ) (inputs : List ι) : Prop :=
  ∀ x ∈ inputs, ∀ y ∈ inputs, hash x = hash y → x = y

instance [DecidableEq δ] [DecidableEq ι] (hash : ι → δ) (inputs : List ι) :
    Decidable (CollisionFree hash inputs) :=
  inferInstanceAs (Decidable (∀ x ∈ inputs, ∀ y ∈ inputs, hash x = hash y → x = y))

theorem CollisionFree.mono {hash : ι → δ} {inputs inputs' : List ι}
    (h : CollisionFree hash inputs) (hsub : inputs' ⊆ inputs) : CollisionFree hash inputs' :=
  fun x hx y hy => h x (hsub hx) y (hsub hy)

namespace HashScheme

variable (S : HashScheme β δ ι) {inputs : List ι}

/-- The hash determines the tree. -/
theorem treeHash_inj (hcf : CollisionFree S.hash inputs) : ∀ t t' : BinTree β,
    S.treeInputs t ⊆ inputs → S.treeInputs t' ⊆ inputs → S.treeHash t = S.treeHash t' → t = t'
  | .leaf b, .leaf b', h, h', heq => by
    have hin := hcf _ (h (List.mem_cons_self)) _ (h' (List.mem_cons_self)) heq
    rw [S.leafInput_inj hin]
  | .leaf b, .node l r, h, h', heq =>
    absurd (hcf _ (h (List.mem_cons_self)) _ (h' (List.mem_cons_self)) heq)
      (S.leaf_ne_node _ _ _)
  | .node l r, .leaf b, h, h', heq =>
    absurd (hcf _ (h' (List.mem_cons_self)) _ (h (List.mem_cons_self)) heq.symm)
      (S.leaf_ne_node _ _ _)
  | .node l r, .node l' r', h, h', heq => by
    obtain ⟨hl, hr⟩ := S.nodeInput_inj
      (hcf _ (h (List.mem_cons_self)) _ (h' (List.mem_cons_self)) heq)
    have hsub := (List.append_subset.mp (List.cons_subset.mp h).2)
    have hsub' := (List.append_subset.mp (List.cons_subset.mp h').2)
    rw [treeHash_inj hcf l l' hsub.1 hsub'.1 hl, treeHash_inj hcf r r' hsub.2 hsub'.2 hr]

/-- If a node input hashes to the hash of a subtree, the two digests it is
made of are the hashes of that subtree's children. -/
theorem nodeInput_subtree (hcf : CollisionFree S.hash inputs) {t s : BinTree β}
    (ht : S.treeInputs t ⊆ inputs) (hs : BinTree.Subtree s t) {a b : δ}
    (hin : S.nodeInput a b ∈ inputs) (heq : S.hash (S.nodeInput a b) = S.treeHash s) :
    ∃ l r, BinTree.Subtree l t ∧ BinTree.Subtree r t ∧ a = S.treeHash l ∧ b = S.treeHash r := by
  have hsin := List.Subset.trans (S.treeInputs_subtree hs) ht
  cases s with
  | leaf x =>
    exact absurd (hcf _ hin _ (hsin (List.mem_cons_self)) heq).symm (S.leaf_ne_node _ _ _)
  | node l r =>
    obtain ⟨ha, hb⟩ := S.nodeInput_inj (hcf _ hin _ (hsin (List.mem_cons_self)) heq)
    exact ⟨l, r, (BinTree.Subtree.left r (.refl l)).trans hs,
      (BinTree.Subtree.right l (.refl r)).trans hs, ha, hb⟩

/-- **Soundness for paths of any shape.** A walk that ends in the hash of
`t` started at the hash of a subtree of `t`, whatever the prover put into
the path. Induction on the path; each hashing step is undone by
`nodeInput_subtree`. -/
theorem walk_subtree (hcf : CollisionFree S.hash inputs) {t : BinTree β}
    (ht : S.treeInputs t ⊆ inputs) : ∀ (path : List (Option δ)) (cur : δ) (idx : Nat),
    S.walkInputs cur idx path ⊆ inputs → walk S.nodeHash cur idx path = S.treeHash t →
      ∃ s, BinTree.Subtree s t ∧ cur = S.treeHash s
  | [], cur, _, _, heq => ⟨t, .refl t, heq⟩
  | none :: rest, cur, idx, hin, heq => walk_subtree hcf ht rest cur (idx / 2) hin heq
  | some sib :: rest, cur, idx, hin, heq => by
    obtain ⟨hhead, htail⟩ := List.cons_subset.mp hin
    by_cases hpar : idx % 2 = 0
    · rw [if_pos hpar] at hhead htail
      rw [walk, if_pos hpar] at heq
      obtain ⟨s, hs, hs'⟩ := walk_subtree hcf ht rest _ _ htail heq
      obtain ⟨l, r, hl, -, hcur, -⟩ := S.nodeInput_subtree hcf ht hs hhead hs'
      exact ⟨l, hl, hcur⟩
    · rw [if_neg hpar] at hhead htail
      rw [walk, if_neg hpar] at heq
      obtain ⟨s, hs, hs'⟩ := walk_subtree hcf ht rest _ _ htail heq
      obtain ⟨l, r, -, hr, -, hcur⟩ := S.nodeInput_subtree hcf ht hs hhead hs'
      exact ⟨r, hr, hcur⟩

/-- An honest walk hashes nothing that the tree did not. -/
theorem walkInputs_pathLoop {t : BinTree β} : ∀ (n : Nat) {l : List (BinTree β)} {idx : Nat} {x : BinTree β},
    l[idx]? = some x → reduceLoop BinTree.node n l = [t] →
      S.walkInputs (S.treeHash x) idx (pathLoop S.nodeHash n (l.map S.treeHash) idx) ⊆
        S.treeInputs t
  | 0, l, idx, x, _, _ => List.nil_subset _
  | n + 1, l, idx, x, hx, hred => by
    rw [pathLoop, List.length_map]
    rw [reduceLoop] at hred
    split at hred
    · rename_i hlen
      have hstep := pairUp_step BinTree.node hx
      rw [if_pos hlen, pairUp_map S.treeHash BinTree.node S.nodeHash (fun _ _ => rfl),
        List.getElem?_map]
      cases hsib : l[siblingIdx idx]? with
      | none =>
        rw [hsib] at hstep
        exact walkInputs_pathLoop n hstep hred
      | some y =>
        rw [hsib] at hstep
        have ih := walkInputs_pathLoop n hstep hred
        have hsub := BinTree.Subtree.reduceLoop_node n (List.mem_of_getElem? hstep) hred
        by_cases hpar : idx % 2 = 0
        · simp only [Option.map_some, walkInputs, if_pos hpar] at ih hsub ⊢
          exact List.cons_subset.mpr
            ⟨S.treeInputs_subtree hsub (List.mem_cons_self), ih⟩
        · simp only [Option.map_some, walkInputs, if_neg hpar] at ih hsub ⊢
          exact List.cons_subset.mpr
            ⟨S.treeInputs_subtree hsub (List.mem_cons_self), ih⟩
    · rename_i hlen
      rw [if_neg hlen]
      exact List.nil_subset _

/-- A walk from a leaf ends at the hash of a leaf or of a node, never at
the hash of anything else. -/
theorem walk_mem_hash (S : HashScheme β δ ι) : ∀ (path : List (Option δ)) (cur : δ) (idx : Nat),
    walk S.nodeHash cur idx path = cur ∨
      ∃ l r, S.nodeInput l r ∈ S.walkInputs cur idx path ∧
        walk S.nodeHash cur idx path = S.hash (S.nodeInput l r)
  | [], cur, idx => .inl rfl
  | none :: rest, cur, idx => walk_mem_hash S rest cur (idx / 2)
  | some sib :: rest, cur, idx => by
    right
    by_cases hpar : idx % 2 = 0
    · simp only [walk, walkInputs, if_pos hpar]
      rcases walk_mem_hash S rest (S.nodeHash cur sib) (idx / 2) with h | ⟨l, r, hin, h⟩
      · exact ⟨cur, sib, List.mem_cons_self, h⟩
      · exact ⟨l, r, List.mem_cons_of_mem _ hin, h⟩
    · simp only [walk, walkInputs, if_neg hpar]
      rcases walk_mem_hash S rest (S.nodeHash sib cur) (idx / 2) with h | ⟨l, r, hin, h⟩
      · exact ⟨sib, cur, List.mem_cons_self, h⟩
      · exact ⟨l, r, List.mem_cons_of_mem _ hin, h⟩

end HashScheme

end PairTree
