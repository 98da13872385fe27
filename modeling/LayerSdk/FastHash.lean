import LayerSdk.Backend
import LayerSdk.PairTree
import LayerSdk.Sha256

/-!
# What the rolling app hash commits to

A commit hands its operations to the `FastHasher` one after the other. The texts of the
operations are hashed without a mark between key, value and next operation, so what is
committed to is their concatenation, not the sequence (`appHash_differs_iff`).
-/

namespace LayerSdk

open PairTree

/-- An operation as it is hashed. -/
def opText : Bytes × Delta → Bytes
  | (key, .set value) => [0x73, 0x65, 0x74] ++ key ++ value
  | (key, .delete) => [0x72, 0x65, 0x6d, 0x6f, 0x76, 0x65] ++ key

namespace FastHasher

def apply (f : FastHasher) : Bytes × Delta → Option FastHasher
  | (key, .set value) => f.set key value
  | (key, .delete) => f.remove key

theorem apply_eq (f : FastHasher) (op : Bytes × Delta) : f.apply op =
    if op.1 = [] then none else if isSidecar op.1 then some f else some (f.update (opText op)) := by
  obtain ⟨key, value | -⟩ := op <;> rfl

end FastHasher

/-- The hash after the operations of a commit; `none` is a panic. -/
def appHash (H : Bytes → Digest) (oldHash : Bytes) (ops : List (Bytes × Delta)) : Option Bytes :=
  (ops.foldlM FastHasher.apply (.new oldHash)).map (FastHasher.hash H)

def hashedOps (ops : List (Bytes × Delta)) : List (Bytes × Delta) :=
  ops.filter fun op => !isSidecar op.1

theorem foldlM_apply_iff (ops : List (Bytes × Delta)) (f g : FastHasher) :
    ops.foldlM FastHasher.apply f = some g ↔ (∀ op ∈ ops, op.1 ≠ []) ∧
      g = if hashedOps ops = [] then f else f.update ((hashedOps ops).flatMap opText) := by
  induction ops generalizing f with
  | nil => simp [hashedOps, eq_comm]
  | cons op ops ih =>
    rw [List.foldlM_cons, FastHasher.apply_eq, List.forall_mem_cons, and_assoc]
    split
    · next hkey => simp [hkey]
    · next hkey =>
      rw [and_iff_right hkey]
      split
      · next hside =>
        have hskip : hashedOps (op :: ops) = hashedOps ops :=
          List.filter_cons_of_neg (by simp [hside])
        rw [hskip]
        exact ih f
      · next hside =>
        have htake : hashedOps (op :: ops) = op :: hashedOps ops :=
          List.filter_cons_of_pos (by simp [hside])
        refine (ih (f.update (opText op))).trans ?_
        rw [htake, if_neg (List.cons_ne_nil _ _), List.flatMap_cons]
        split
        · next hnil => rw [hnil, List.flatMap_nil, List.append_nil]
        · simp [FastHasher.update]

variable (H : Bytes → Digest) (oldHash : Bytes)

/-- The hash with these operations hashed. -/
def committedHash (ops : List (Bytes × Delta)) : Bytes :=
  if ops = [] then oldHash else (H (oldHash ++ ops.flatMap opText)).bytes

theorem appHash_eq_some_iff {ops : List (Bytes × Delta)} {x : Bytes} :
    appHash H oldHash ops = some x ↔
      (∀ op ∈ ops, op.1 ≠ []) ∧ x = committedHash H oldHash (hashedOps ops) := by
  simp only [appHash, Option.map_eq_some_iff, foldlM_apply_iff, and_assoc, exists_and_left,
    exists_eq_left, committedHash]
  refine and_congr_right fun _ => ?_
  split <;> exact eq_comm

theorem appHash_hashedOps (ops : List (Bytes × Delta)) :
    appHash H oldHash (hashedOps ops) = appHash H oldHash ops := by
  ext x
  rw [appHash_eq_some_iff, appHash_eq_some_iff]
  refine and_congr ⟨fun h op hop hkey => ?_, fun h op hop => h op (List.mem_of_mem_filter hop)⟩ ?_
  · exact h op (List.mem_filter.mpr ⟨hop, by rw [hkey]; rfl⟩) hkey
  · simp only [hashedOps, List.filter_filter, Bool.and_self]

/-- Two sequences are cut from the same bytes; or one is empty and the old hash is the hash
of itself and the other. -/
def SameText (a b : List (Bytes × Delta)) : Prop :=
  a.flatMap opText = b.flatMap opText ∨
    (a = [] ∨ b = []) ∧ oldHash = (H (oldHash ++ (a ++ b).flatMap opText)).bytes

theorem committedHash_eq_iff {a b : List (Bytes × Delta)} (hab : a ≠ b)
    (hcf : CollisionFree H [oldHash ++ a.flatMap opText, oldHash ++ b.flatMap opText]) :
    committedHash H oldHash a = committedHash H oldHash b ↔ SameText H oldHash a b := by
  have htext : ∀ op, opText op ≠ [] := by
    rintro ⟨key, value | -⟩ <;> exact List.cons_ne_nil _ _
  rw [committedHash, committedHash, SameText]
  rcases a with _ | ⟨op, ops⟩ <;> rcases b with _ | ⟨op', ops'⟩
  · exact absurd rfl hab
  · simp [htext]
  · simp [htext, @eq_comm _ _ oldHash]
  · simp only [List.cons_ne_nil, if_false, or_self, false_and, or_false]
    constructor
    · intro hhash
      exact List.append_cancel_left (hcf _ (by simp) _ (by simp) (Digest.ext_bytes hhash))
    · intro hsame
      rw [hsame]

/-- Operations on sidecar keys leave no trace in the hash. Two different sequences on other
keys get a hash each, and not the same, exactly when no key is empty and the sequences are
not cut from the same bytes. -/
theorem appHash_differs_iff (ops a b : List (Bytes × Delta)) (hab : a ≠ b)
    (hkeys : ∀ op ∈ a ++ b, isSidecar op.1 = false)
    (hcf : CollisionFree H [oldHash ++ a.flatMap opText, oldHash ++ b.flatMap opText]) :
    appHash H oldHash (hashedOps ops) = appHash H oldHash ops ∧
      ((∃ x y, appHash H oldHash a = some x ∧ appHash H oldHash b = some y ∧ x ≠ y) ↔
        (∀ op ∈ a ++ b, op.1 ≠ []) ∧ ¬ SameText H oldHash a b) := by
  refine ⟨appHash_hashedOps H oldHash ops, ?_⟩
  have hall : ∀ l, (∀ op ∈ l, isSidecar op.1 = false) → hashedOps l = l := fun l hl =>
    List.filter_eq_self.mpr fun op hop => by rw [hl op hop]; rfl
  obtain ⟨ha, hb⟩ := List.forall_mem_append.mp hkeys
  simp only [appHash_eq_some_iff, hall a ha, hall b hb, ← committedHash_eq_iff H oldHash hab hcf,
    List.forall_mem_append]
  constructor
  · rintro ⟨x, y, ⟨hkeysa, rfl⟩, ⟨hkeysb, rfl⟩, hne⟩
    exact ⟨⟨hkeysa, hkeysb⟩, hne⟩
  · rintro ⟨⟨hkeysa, hkeysb⟩, hne⟩
    exact ⟨_, _, ⟨hkeysa, rfl⟩, ⟨hkeysb, rfl⟩, hne⟩

theorem appHash_differs_setRemove :
    ∃ x y, appHash sha256 [] [([0x61], .set [])] = some x ∧
      appHash sha256 [] [([0x61], .delete)] = some y ∧ x ≠ y := by
  refine (appHash_differs_iff sha256 [] [] [([0x61], .set [])] [([0x61], .delete)] (by decide)
    (by decide) (by decide +kernel)).2.mpr ⟨by decide, ?_⟩
  rintro (h | ⟨h | h, -⟩) <;> cases h

/-- `set a bc` and `set ab c`; a value that reads as a removal; an empty key. -/
theorem appHash_recut :
    appHash sha256 [] [([0x61], .set [0x62, 0x63])] =
      appHash sha256 [] [([0x61, 0x62], .set [0x63])] ∧
    appHash sha256 [] [([0x61], .set (0x62 :: opText ([0x63], .delete)))] =
      appHash sha256 [] [([0x61], .set [0x62]), ([0x63], .delete)] ∧
    appHash sha256 [] [([], .delete)] = none :=
  ⟨rfl, rfl, rfl⟩

end LayerSdk
