import LayerSdk.OrdMap

/-!
# Unique secondary indexes

Records under primary keys, and beside them a map from a key field of the
record back to the primary key. `Indexes key records index` says that the
map is the inverse of "has the field", which is also what makes the field
unique (`Indexes.unique`). The field may be absent.

A record is added with `add`, removed with `drop`, and replaced by `drop` of
the old one followed by `add` of the new one: the replacement may keep the
key, change it, or lose it.
-/

namespace KeyIndex

open Std

variable {ι κ ρ : Type} [Ord ι] [Std.TransOrd ι] [Ord κ] [Std.TransOrd κ]

def Indexes (key : ρ → Option κ) (records : ExtTreeMap ι ρ) (index : ExtTreeMap κ ι) :
    Prop :=
  ∀ k i, index[k]? = some i ↔ ∃ r, records[i]? = some r ∧ key r = some k

def add (key : ρ → Option κ) (i : ι) (r : ρ) (index : ExtTreeMap κ ι) : ExtTreeMap κ ι :=
  match key r with
  | some k => index.insert k i
  | none => index

def drop (key : ρ → Option κ) (r : ρ) (index : ExtTreeMap κ ι) : ExtTreeMap κ ι :=
  match key r with
  | some k => index.erase k
  | none => index

variable {key : ρ → Option κ} {records : ExtTreeMap ι ρ} {index : ExtTreeMap κ ι} {i j : ι}
  {r r' : ρ} {k : κ}

theorem Indexes.empty : Indexes key (∅ : ExtTreeMap ι ρ) (∅ : ExtTreeMap κ ι) := by
  intro k i
  simp

/-- No key belongs to two records. -/
theorem Indexes.unique (h : Indexes key records index) (hi : records[i]? = some r)
    (hj : records[j]? = some r') (hk : key r = some k) (hk' : key r' = some k) : i = j := by
  have h₁ := (h k i).mpr ⟨r, hi, hk⟩
  have h₂ := (h k j).mpr ⟨r', hj, hk'⟩
  exact Option.some.inj (h₁.symm.trans h₂)

section Lawful

variable [Std.LawfulEqOrd κ]

omit [Ord ι] [Std.TransOrd ι] in
theorem getElem?_drop : (drop key r index)[k]? = some i ↔ key r ≠ some k ∧ index[k]? = some i := by
  unfold drop
  cases hr : key r with
  | none => simp
  | some k' =>
    rw [ExtTreeMap.getElem?_erase]
    by_cases hk : k' = k <;> simp [hk]

omit [Ord ι] [Std.TransOrd ι] in
theorem getElem?_add : (add key i r index)[k]? = some j ↔
    (key r = some k ∧ j = i) ∨ (key r ≠ some k ∧ index[k]? = some j) := by
  unfold add
  cases hr : key r with
  | none => simp
  | some k' =>
    rw [ExtTreeMap.getElem?_insert]
    by_cases hk : k' = k
    · simp [hk, eq_comm]
    · simp [hk]

omit [Ord ι] [Std.TransOrd ι] in
/-- Adding what is there. -/
theorem add_of_getElem? (hk : key r = some k) (hindex : index[k]? = some i) :
    add key i r index = index := by
  refine ExtTreeMap.ext_getElem? fun k' => Option.ext fun j => ?_
  rw [getElem?_add, hk]
  by_cases heq : k = k'
  · rw [← heq, hindex]
    simp [eq_comm]
  · simp [heq]

variable [Std.LawfulEqOrd ι]

/-- Removing a record. -/
theorem Indexes.erase (h : Indexes key records index) (hi : records[i]? = some r) :
    Indexes key (records.erase i) (drop key r index) := by
  intro k j
  rw [getElem?_drop, h k j]
  constructor
  · rintro ⟨hne, r', hj, hk⟩
    refine ⟨r', ?_, hk⟩
    rw [OrdMap.getElem?_erase_of_ne, hj]
    rintro rfl
    rw [hi] at hj
    rw [Option.some.inj hj] at hne
    exact hne hk
  · rintro ⟨r', hj, hk⟩
    rw [ExtTreeMap.getElem?_erase] at hj
    split at hj
    · cases hj
    · rename_i hij
      refine ⟨fun hr => hij ?_, r', hj, hk⟩
      rw [h.unique hi hj hr hk]
      exact Std.ReflOrd.compare_self

/-- A new record. Its key, if it has one, is not taken by another. -/
theorem Indexes.insert (h : Indexes key records index) (hi : records[i]? = none)
    (hfree : ∀ k, key r = some k → ∀ j, index[k]? = some j → j = i) :
    Indexes key (records.insert i r) (add key i r index) := by
  intro k j
  rw [getElem?_add]
  simp only [OrdMap.getElem?_insert_cases]
  constructor
  · rintro (⟨hk, rfl⟩ | ⟨-, hindex⟩)
    · exact ⟨r, .inl ⟨rfl, rfl⟩, hk⟩
    · obtain ⟨r', hj, hk'⟩ := (h k j).mp hindex
      refine ⟨r', .inr ⟨?_, hj⟩, hk'⟩
      rintro rfl
      rw [hi] at hj
      cases hj
  · rintro ⟨r', ⟨rfl, rfl⟩ | ⟨hne, hj⟩, hk'⟩
    · exact .inl ⟨hk', rfl⟩
    · have hindex := (h k j).mpr ⟨r', hj, hk'⟩
      exact .inr ⟨fun hk => hne (hfree k hk j hindex).symm, hindex⟩

/-- Replacing a record. The new key is not taken by another one. -/
theorem Indexes.replace (h : Indexes key records index) (hi : records[i]? = some r)
    (hfree : ∀ k, key r' = some k → ∀ j, index[k]? = some j → j = i) :
    Indexes key (records.insert i r') (add key i r' (drop key r index)) := by
  have herase : (records.erase i).insert i r' = records.insert i r' := by
    refine ExtTreeMap.ext_getElem? fun j => ?_
    rw [ExtTreeMap.getElem?_insert, ExtTreeMap.getElem?_insert,
      ExtTreeMap.getElem?_erase]
    split <;> rfl
  rw [← herase]
  exact (h.erase hi).insert ExtTreeMap.getElem?_erase_self fun k hk j hindex =>
    hfree k hk j (getElem?_drop.mp hindex).2

omit [Std.LawfulEqOrd κ] in
/-- A replacement that keeps its key leaves the index as it is. -/
theorem Indexes.keep (h : Indexes key records index) (hi : records[i]? = some r)
    (hkey : key r' = key r) : Indexes key (records.insert i r') index := by
  intro k j
  rw [h k j]
  simp only [OrdMap.getElem?_insert_cases]
  constructor
  · rintro ⟨r₀, hj, hk⟩
    by_cases hij : i = j
    · rw [← hij, hi] at hj
      cases hj
      exact ⟨r', .inl ⟨hij, rfl⟩, hkey.trans hk⟩
    · exact ⟨r₀, .inr ⟨hij, hj⟩, hk⟩
  · rintro ⟨r₀, ⟨rfl, rfl⟩ | ⟨-, hj⟩, hk⟩
    · exact ⟨r, hi, hkey.symm.trans hk⟩
    · exact ⟨r₀, hj, hk⟩

end Lawful

end KeyIndex
