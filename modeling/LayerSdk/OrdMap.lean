import Mathlib.Tactic.Common
import Mathlib.Data.List.TakeWhile

/-!
# Ordered maps and their entry lists

An ordered map is determined by its lookups, and its entry list is the one
strictly ascending list with those entries (`eq_toList`). Two ways to change
a map in bulk are shown to agree with changing it entry by entry:

- `applyAll`, the fold of a change list over the map;
- `mergeUpdates`, the single pass over two ascending lists (current entries
  and pending updates) that never builds the new map.
-/

set_option linter.unusedSectionVars false

namespace OrdMap

open Std

variable {κ β γ : Type} [Ord κ] [Std.TransOrd κ] [Std.LawfulEqOrd κ]

/-- Strictly ascending by key. -/
def Ascending (l : List (κ × β)) : Prop :=
  l.Pairwise fun a b => compare a.1 b.1 = .lt

theorem ascending_toList (m : ExtTreeMap κ β) : Ascending m.toList :=
  ExtTreeMap.ordered_keys_toList

variable {a k : κ} {l : List (κ × β)} {b : β} {m : ExtTreeMap κ β}

theorem mem_of_getElem? (h : m[k]? = some b) : k ∈ m :=
  ExtTreeMap.mem_iff_isSome_getElem?.mpr (Option.isSome_of_eq_some h)

theorem mem_of_mem_toList {x : κ × β} (h : x ∈ m.toList) : x.1 ∈ m :=
  mem_of_getElem? (ExtTreeMap.mem_toList_iff_getElem?_eq_some.mp h)

theorem not_mem_of_getElem? (h : m[k]? = none) : k ∉ m := by
  rw [ExtTreeMap.mem_iff_isSome_getElem?, h]
  nofun

theorem getElem?_insert_of_ne (h : a ≠ k) : (m.insert a b)[k]? = m[k]? := by
  rw [ExtTreeMap.getElem?_insert, if_neg fun hc => h (Std.LawfulEqOrd.eq_of_compare hc)]

theorem getElem?_erase_of_ne (h : a ≠ k) : (m.erase a)[k]? = m[k]? := by
  rw [ExtTreeMap.getElem?_erase, if_neg fun hc => h (Std.LawfulEqOrd.eq_of_compare hc)]

theorem getElem?_insert_cases {b' : β} :
    (m.insert a b)[k]? = some b' ↔ (a = k ∧ b = b') ∨ (a ≠ k ∧ m[k]? = some b') := by
  rw [ExtTreeMap.getElem?_insert]
  by_cases hak : a = k <;> simp [hak]

theorem ne_of_lt {b : κ} (h : compare a b = .lt) : a ≠ b := by
  rintro rfl
  simp at h

theorem lt_asymm {b : κ} (h : compare a b = .lt) : compare b a ≠ .lt := by
  rw [Std.OrientedOrd.eq_swap (a := b), h]
  simp

theorem Ascending.keys_nodup (h : Ascending l) : (l.map Prod.fst).Nodup := by
  rw [List.nodup_iff_pairwise_ne, List.pairwise_map]
  exact h.imp fun hab => ne_of_lt hab

theorem lookup_eq_none [BEq κ] [LawfulBEq κ] (h : ∀ b, (k, b) ∉ l) : l.lookup k = none := by
  rw [List.lookup_eq_none_iff]
  intro e he
  simp only [bne_iff_ne, ne_eq]
  rintro rfl
  exact h e.2 he

theorem Ascending.lookup_eq_some [BEq κ] [LawfulBEq κ] :
    ∀ {l : List (κ × β)}, Ascending l → (k, b) ∈ l → l.lookup k = some b
  | (k', b') :: rest, hasc, hmem => by
    obtain ⟨hhead, hrest⟩ := List.pairwise_cons.mp hasc
    rw [List.lookup_cons]
    rcases List.mem_cons.mp hmem with heq | hmem'
    · cases heq
      simp
    · have hne : (k == k') = false := by
        simpa using (ne_of_lt (hhead _ hmem')).symm
      rw [hne]
      exact Ascending.lookup_eq_some hrest hmem'

theorem lookup_toList [BEq κ] [LawfulBEq κ] (m : ExtTreeMap κ β) (k : κ) :
    m.toList.lookup k = m[k]? := by
  cases hm : m[k]? with
  | none =>
    refine lookup_eq_none fun b hb => ?_
    rw [ExtTreeMap.mem_toList_iff_getElem?_eq_some.mp hb] at hm
    cases hm
  | some v =>
    exact (ascending_toList m).lookup_eq_some
      (ExtTreeMap.mem_toList_iff_getElem?_eq_some.mpr hm)

theorem Ascending.nodup (h : Ascending l) : l.Nodup :=
  h.imp fun hab heq => ne_of_lt hab (congrArg Prod.fst heq)

/-- Ascending lists with the same members are equal. -/
theorem Ascending.eq_of_mem_iff {l' : List (κ × β)} (h : Ascending l) (h' : Ascending l')
    (hmem : ∀ x, x ∈ l ↔ x ∈ l') : l = l' := by
  have hperm : l.Perm l' := (List.perm_ext_iff_of_nodup h.nodup h'.nodup).mpr hmem
  exact hperm.eq_of_pairwise (fun a b _ _ hab hba => absurd hba (lt_asymm hab)) h h'

/-- The entry list of a map is the one ascending list of its entries. -/
theorem Ascending.eq_toList (h : Ascending l) (m : ExtTreeMap κ β)
    (hmem : ∀ k b, (k, b) ∈ l ↔ m[k]? = some b) : l = m.toList := by
  refine h.eq_of_mem_iff (ascending_toList m) fun x => ?_
  rw [ExtTreeMap.mem_toList_iff_getElem?_eq_some]
  exact hmem x.1 x.2

@[simp] theorem toList_empty : (∅ : ExtTreeMap κ β).toList = [] :=
  List.length_eq_zero_iff.mp (ExtTreeMap.length_toList.trans ExtTreeMap.size_empty)

/-- A new entry joins the entry list. -/
theorem toList_insert_perm (hk : m[k]? = none) (v : β) :
    (m.insert k v).toList.Perm ((k, v) :: m.toList) := by
  have hnew : (k, v) ∉ m.toList := by
    rw [ExtTreeMap.mem_toList_iff_getElem?_eq_some, hk]
    rintro ⟨⟩
  refine (List.perm_ext_iff_of_nodup (ascending_toList _).nodup
    (List.nodup_cons.mpr ⟨hnew, (ascending_toList m).nodup⟩)).mpr fun ⟨k', v'⟩ => ?_
  rw [List.mem_cons, ExtTreeMap.mem_toList_iff_getElem?_eq_some,
    ExtTreeMap.mem_toList_iff_getElem?_eq_some, ExtTreeMap.getElem?_insert, Prod.mk.injEq]
  split
  · rename_i heq
    obtain rfl := Std.LawfulEqOrd.eq_of_compare heq
    simp [hk, eq_comm]
  · rename_i hne
    have hne' : k' ≠ k := by
      rintro rfl
      exact hne Std.ReflOrd.compare_self
    simp [hne']

/-- An erased entry leaves the entry list. -/
theorem toList_perm_erase {v : β} (hk : m[k]? = some v) :
    m.toList.Perm ((k, v) :: (m.erase k).toList) := by
  have hinsert : (m.erase k).insert k v = m := by
    refine ExtTreeMap.ext_getElem? fun k' => ?_
    rw [ExtTreeMap.getElem?_insert, ExtTreeMap.getElem?_erase]
    split
    · rename_i heq
      rw [← Std.LawfulEqOrd.eq_of_compare heq, hk]
    · rfl
  have hperm := toList_insert_perm (m := m.erase k) ExtTreeMap.getElem?_erase_self v
  rwa [hinsert] at hperm

/-- Two filters of a list, one after the other, are one filter if nothing the
first keeps comes after something the second keeps. -/
theorem filter_append_filter {α : Type} {p q : α → Bool} : ∀ {l : List α},
    l.Pairwise (fun a b => q a = true → p b = false) → (∀ a ∈ l, p a = true → q a = false) →
      l.filter p ++ l.filter q = l.filter fun a => p a || q a
  | [], _, _ => rfl
  | a :: rest, hpair, hdisj => by
    obtain ⟨hhead, hrest⟩ := List.pairwise_cons.mp hpair
    have ih := filter_append_filter hrest fun b hb => hdisj b (List.mem_cons_of_mem _ hb)
    cases hp : p a with
    | true =>
      have hq := hdisj a (List.mem_cons_self) hp
      simp only [List.filter_cons, hp, hq, Bool.true_or, if_true, List.cons_append]
      rw [← ih]
      simp
    | false =>
      cases hq : q a with
      | false => simpa [List.filter_cons, hp, hq] using ih
      | true =>
        have hnil : rest.filter p = [] :=
          List.filter_eq_nil_iff.mpr fun b hb => by simp [hhead b hb hq]
        rw [hnil, List.nil_append] at ih
        simp [hp, hq, hnil, ih]

/-! ## Changing a map in bulk -/

/-- Set or remove one key. -/
def update (m : ExtTreeMap κ β) (k : κ) : Option β → ExtTreeMap κ β
  | some b => m.insert k b
  | none => m.erase k

theorem getElem?_update [DecidableEq κ] (m : ExtTreeMap κ β) (k k' : κ) (o : Option β) :
    (update m k o)[k']? = if k = k' then o else m[k']? := by
  cases o with
  | none => simp [update, ExtTreeMap.getElem?_erase]
  | some b => simp [update, ExtTreeMap.getElem?_insert]

theorem update_eq_self [DecidableEq κ] {o : Option β} (h : m[k]? = o) : update m k o = m := by
  refine ExtTreeMap.ext_getElem? fun k' => ?_
  rw [getElem?_update]
  split
  · next hk => rw [← hk, h]
  · rfl

/-- Apply a list of changes, `f` reading off what a change does to its key. -/
def applyAll (f : κ → γ → Option β) (m : ExtTreeMap κ β) (l : List (κ × γ)) :
    ExtTreeMap κ β :=
  l.foldl (fun m e => update m e.1 (f e.1 e.2)) m

/-- With distinct keys, the change of a key decides it. -/
theorem getElem?_applyAll_list [BEq κ] [LawfulBEq κ] [DecidableEq κ] (f : κ → γ → Option β)
    (k : κ) : ∀ (l : List (κ × γ)) (m : ExtTreeMap κ β), (l.map Prod.fst).Nodup →
      (applyAll f m l)[k]? = match l.lookup k with
        | some c => f k c
        | none => m[k]?
  | [], m, _ => rfl
  | (key, c) :: rest, m, hnd => by
    rw [List.map_cons, List.nodup_cons] at hnd
    change (applyAll f (update m key (f key c)) rest)[k]? = _
    rw [getElem?_applyAll_list f k rest _ hnd.2, getElem?_update, List.lookup_cons]
    by_cases hk : key = k
    · subst hk
      have hnone : rest.lookup key = none :=
        lookup_eq_none fun b hb => hnd.1 (List.mem_map.mpr ⟨_, hb, rfl⟩)
      simp [hnone]
    · have hk' : (k == key) = false := by simpa using fun h => hk h.symm
      simp only [if_neg hk, hk']

theorem getElem?_applyAll [BEq κ] [LawfulBEq κ] [DecidableEq κ] (f : κ → γ → Option β) (k : κ)
    (m : ExtTreeMap κ β) (changes : ExtTreeMap κ γ) :
    (applyAll f m changes.toList)[k]? = match changes[k]? with
      | some c => f k c
      | none => m[k]? := by
  rw [getElem?_applyAll_list f k _ _ (ascending_toList changes).keys_nodup, lookup_toList]

/-! ## One pass over entries and updates -/

/-- What an update leaves in the list. -/
def emit (f : κ → γ → Option β) (e : κ × γ) : List (κ × β) :=
  match f e.1 e.2 with
  | some b => [(e.1, b)]
  | none => []

/-- For each entry: first the updates with smaller keys, then the update of
the entry's own key in its place, or the entry. -/
def mergeUpdates (f : κ → γ → Option β) : List (κ × β) → List (κ × γ) → List (κ × β)
  | [], pending => pending.flatMap (emit f)
  | (k, b) :: entries, pending =>
    (pending.takeWhile fun e => (compare e.1 k).isLT).flatMap (emit f) ++
      match pending.dropWhile fun e => (compare e.1 k).isLT with
      | [] => (k, b) :: mergeUpdates f entries []
      | e :: rest =>
        if (compare e.1 k).isEq then emit f e ++ mergeUpdates f entries rest
        else (k, b) :: mergeUpdates f entries (e :: rest)

theorem mem_emit {f : κ → γ → Option β} {e : κ × γ} :
    (k, b) ∈ emit f e ↔ k = e.1 ∧ f e.1 e.2 = some b := by
  unfold emit
  cases f e.1 e.2 with
  | none => simp
  | some b' =>
    simp only [List.mem_singleton, Prod.mk.injEq, Option.some.injEq, eq_comm (a := b)]

theorem mem_flatMap_emit {f : κ → γ → Option β} {l : List (κ × γ)} :
    (k, b) ∈ l.flatMap (emit f) ↔ ∃ c, (k, c) ∈ l ∧ f k c = some b := by
  simp only [List.mem_flatMap, mem_emit]
  constructor
  · rintro ⟨⟨k', c⟩, hmem, rfl, hf⟩
    exact ⟨c, hmem, hf⟩
  · rintro ⟨c, hmem, hf⟩
    exact ⟨(k, c), hmem, rfl, hf⟩

theorem Ascending.flatMap_emit (f : κ → γ → Option β) : ∀ {l : List (κ × γ)},
    Ascending l → Ascending (l.flatMap (emit f))
  | [], _ => List.Pairwise.nil
  | e :: rest, h => by
    obtain ⟨hhead, hrest⟩ := List.pairwise_cons.mp h
    rw [List.flatMap_cons]
    refine List.pairwise_append.mpr ⟨?_, Ascending.flatMap_emit f hrest, ?_⟩
    · unfold emit
      cases f e.1 e.2 <;> simp
    · rintro ⟨k, b⟩ hx ⟨k', b'⟩ hy
      obtain ⟨rfl, -⟩ := mem_emit.mp hx
      obtain ⟨c, hc, -⟩ := mem_flatMap_emit.mp hy
      exact hhead _ hc

/-- An ascending list splits at a bound into what is below it and the rest. -/
theorem Ascending.split {l : List (κ × γ)} (h : Ascending l) (k : κ) :
    (∀ e ∈ l.takeWhile fun e => (compare e.1 k).isLT, compare e.1 k = .lt) ∧
    (∀ e ∈ l.dropWhile fun e => (compare e.1 k).isLT, compare e.1 k ≠ .lt) := by
  refine ⟨fun e he => by simpa using List.mem_takeWhile_imp he, ?_⟩
  induction l with
  | nil => simp
  | cons x rest ih =>
    obtain ⟨hhead, hrest⟩ := List.pairwise_cons.mp h
    rw [List.dropWhile_cons]
    split
    · exact ih hrest
    · rename_i hx
      intro e he
      have hx' : compare x.1 k ≠ .lt := by simpa using hx
      rcases List.mem_cons.mp he with rfl | he
      · exact hx'
      · exact fun hlt => hx' (Std.TransCmp.lt_trans (hhead e he) hlt)

theorem lt_of_not_lt_of_ne {b : κ} (h : compare a b ≠ .lt) (hne : a ≠ b) : compare b a = .lt := by
  have hne' : compare a b ≠ .eq := fun heq => hne (Std.LawfulEqCmp.eq_of_compare heq)
  rw [Std.OrientedOrd.eq_swap (a := b)]
  revert h hne'
  cases compare a b <;> simp

/-- One entry of the pass: the updates below its key, then its own update or the entry, then
the pass over the rest, which is all above the key. -/
theorem exists_mergeUpdates (f : κ → γ → Option β) (key : κ) (v : β) (entries : List (κ × β))
    {pending : List (κ × γ)} (hP : Ascending pending) : ∃ lo own rest mid,
      pending = lo ++ (own ++ rest) ∧ (∀ e ∈ lo, compare e.1 key = .lt) ∧
      (∀ e ∈ rest, compare key e.1 = .lt) ∧
      mergeUpdates f ((key, v) :: entries) pending =
        lo.flatMap (emit f) ++ (mid ++ mergeUpdates f entries rest) ∧
      (own = [] ∧ mid = [(key, v)] ∨ ∃ c, own = [(key, c)] ∧ mid = emit f (key, c)) := by
  obtain ⟨hlo, hhi⟩ := hP.split key
  rw [mergeUpdates]
  have hsplit := List.takeWhile_append_dropWhile
    (p := fun e : κ × γ => (compare e.1 key).isLT) (l := pending)
  generalize pending.takeWhile (fun e => (compare e.1 key).isLT) = lo at hlo hsplit ⊢
  generalize pending.dropWhile (fun e => (compare e.1 key).isLT) = hi at hhi hsplit ⊢
  subst hsplit
  cases hi with
  | nil => exact ⟨lo, [], [], [(key, v)], rfl, hlo, nofun, rfl, .inl ⟨rfl, rfl⟩⟩
  | cons e rest =>
    obtain ⟨ek, c⟩ := e
    obtain ⟨hrest, -⟩ := List.pairwise_cons.mp (List.pairwise_append.mp hP).2.1
    simp only
    split
    · rename_i heq
      obtain rfl : ek = key := by simpa using heq
      exact ⟨lo, [(ek, c)], rest, _, rfl, hlo, hrest, rfl, .inr ⟨c, rfl, rfl⟩⟩
    · rename_i hne
      have hgt : compare key ek = .lt := by
        refine lt_of_not_lt_of_ne (hhi _ (List.mem_cons_self)) fun heq => hne ?_
        simp [heq]
      refine ⟨lo, [], (ek, c) :: rest, [(key, v)], rfl, hlo, ?_, rfl, .inl ⟨rfl, rfl⟩⟩
      exact List.forall_mem_cons.mpr ⟨hgt, fun x hx => Std.TransCmp.lt_trans hgt (hrest x hx)⟩

/-- An update decides its key; without one the entry stays. -/
theorem mem_mergeUpdates (f : κ → γ → Option β) :
    ∀ {entries : List (κ × β)} {pending : List (κ × γ)}, Ascending entries → Ascending pending →
      ((k, b) ∈ mergeUpdates f entries pending ↔
        (∃ c, (k, c) ∈ pending ∧ f k c = some b) ∨ ((k, b) ∈ entries ∧ ∀ c, (k, c) ∉ pending))
  | [], pending, _, _ => by
    rw [mergeUpdates, mem_flatMap_emit]
    simp
  | (key, v) :: entries, pending, hE, hP => by
    obtain ⟨hhead, hE'⟩ := List.pairwise_cons.mp hE
    obtain ⟨lo, own, rest, mid, rfl, hlo, hrest, hmerge, hmid⟩ :=
      exists_mergeUpdates f key v entries hP
    have hrestP : Ascending rest :=
      (List.pairwise_append.mp (List.pairwise_append.mp hP).2.1).2.1
    have hmidKey : ∀ x ∈ mid, x.1 = key := by
      rcases hmid with ⟨-, rfl⟩ | ⟨c, -, rfl⟩
      · simp
      · exact fun x hx => (mem_emit.mp hx).1
    rw [hmerge, List.mem_append, List.mem_append, mem_flatMap_emit, mem_mergeUpdates f hE' hrestP]
    by_cases hk : k = key
    · -- the key of the entry is nowhere else
      subst hk
      have hlo' : ∀ c, (k, c) ∉ lo := fun c hc => ne_of_lt (hlo _ hc) rfl
      have hrest' : ∀ c, (k, c) ∉ rest := fun c hc => ne_of_lt (hrest _ hc) rfl
      have hentries : ∀ b, (k, b) ∉ entries := fun b hb => ne_of_lt (hhead _ hb) rfl
      rcases hmid with ⟨rfl, rfl⟩ | ⟨c₀, rfl, rfl⟩
      · simp [hlo', hrest', hentries]
      · simp [hlo', hrest', hentries, mem_emit]
    · have hmid' : (k, b) ∉ mid := fun h => hk (hmidKey _ h)
      have hown : ∀ c, (k, c) ∉ own := by
        rcases hmid with ⟨rfl, -⟩ | ⟨c₀, rfl, -⟩ <;> simp [hk]
      -- entries after the head lie above everything that was drained
      have habove : (k, b) ∈ entries → ∀ c, (k, c) ∉ lo := fun hb c hc =>
        lt_asymm (hhead _ hb) (hlo _ hc)
      have hstays : ((k, b) ∈ entries ∧ ∀ c, (k, c) ∉ rest) ↔
          (k, b) ∈ entries ∧ ∀ c, (k, c) ∉ lo ∧ (k, c) ∉ rest :=
        and_congr_right fun hb => forall_congr' fun c => (and_iff_right (habove hb c)).symm
      simp [hk, hmid', hown, hstays, or_and_right, exists_or, or_assoc]

theorem Ascending.mergeUpdates (f : κ → γ → Option β) :
    ∀ {entries : List (κ × β)} {pending : List (κ × γ)}, Ascending entries → Ascending pending →
      Ascending (mergeUpdates f entries pending)
  | [], pending, _, hP => hP.flatMap_emit f
  | (key, v) :: entries, pending, hE, hP => by
    obtain ⟨hhead, hE'⟩ := List.pairwise_cons.mp hE
    obtain ⟨lo, own, rest, mid, rfl, hlo, hrest, hmerge, hmid⟩ :=
      exists_mergeUpdates f key v entries hP
    obtain ⟨hloP, hhiP, -⟩ := List.pairwise_append.mp hP
    have hrestP : Ascending rest := (List.pairwise_append.mp hhiP).2.1
    have hbelow : ∀ x ∈ lo.flatMap (emit f), compare x.1 key = .lt := by
      rintro ⟨k, b⟩ hx
      obtain ⟨c, hc, -⟩ := mem_flatMap_emit.mp hx
      exact hlo _ hc
    have habove : ∀ x ∈ OrdMap.mergeUpdates f entries rest, compare key x.1 = .lt := by
      rintro ⟨k, b⟩ hx
      rcases (mem_mergeUpdates f hE' hrestP).mp hx with ⟨c, h, -⟩ | ⟨h, -⟩
      · exact hrest (k, c) h
      · exact hhead (k, b) h
    have hmidKey : Ascending mid ∧ ∀ x ∈ mid, x.1 = key := by
      rcases hmid with ⟨-, rfl⟩ | ⟨c, -, rfl⟩
      · simp [Ascending]
      · unfold emit
        cases f key c <;> simp [Ascending]
    rw [hmerge]
    refine List.pairwise_append.mpr ⟨Ascending.flatMap_emit f hloP,
      List.pairwise_append.mpr ⟨hmidKey.1, Ascending.mergeUpdates f hE' hrestP, ?_⟩, ?_⟩
    · intro x hx y hy
      rw [hmidKey.2 x hx]
      exact habove y hy
    · intro x hx y hy
      rcases List.mem_append.mp hy with hy | hy
      · rw [hmidKey.2 y hy]
        exact hbelow x hx
      · exact Std.TransCmp.lt_trans (hbelow x hx) (habove y hy)

/-- The single pass yields exactly the entries of the map changed entry by entry. -/
theorem mergeUpdates_toList [BEq κ] [LawfulBEq κ] [DecidableEq κ] (f : κ → γ → Option β)
    (m : ExtTreeMap κ β) (pending : ExtTreeMap κ γ) :
    mergeUpdates f m.toList pending.toList = (applyAll f m pending.toList).toList := by
  have hm := ascending_toList m
  have hp := ascending_toList pending
  refine (hm.mergeUpdates f hp).eq_toList _ fun k b => ?_
  rw [mem_mergeUpdates f hm hp, getElem?_applyAll]
  simp only [ExtTreeMap.mem_toList_iff_getElem?_eq_some]
  cases pending[k]? with
  | none | some c => simp

/-! ## Folds over other lists -/

section Folds

variable {α : Type} [DecidableEq κ]

theorem getElem?_foldl_erase (f : α → κ) (k : κ) : ∀ (l : List α) (m : ExtTreeMap κ β),
    (l.foldl (fun m x => m.erase (f x)) m)[k]? = if k ∈ l.map f then none else m[k]?
  | [], m => by simp
  | x :: l, m => by
    rw [List.foldl_cons, getElem?_foldl_erase f k l, ExtTreeMap.getElem?_erase, List.map_cons]
    by_cases hx : f x = k
    · simp [hx]
    · have hmem : k ∈ f x :: l.map f ↔ k ∈ l.map f := by
        rw [List.mem_cons]
        exact or_iff_right (Ne.symm hx)
      simp only [hmem, Std.LawfulEqOrd.compare_eq_iff_eq, hx, if_false]

/-- The last of the entries inserted under a key is the one that stays. -/
theorem getElem?_foldl_insert (f : α → κ) (g : α → β) (k : κ) :
    ∀ (l : List α) (m : ExtTreeMap κ β), (l.foldl (fun m x => m.insert (f x) (g x)) m)[k]? =
      ((l.reverse.find? fun x => decide (f x = k)).map g).or m[k]?
  | [], m => by simp
  | x :: l, m => by
    rw [List.foldl_cons, getElem?_foldl_insert f g k l, ExtTreeMap.getElem?_insert,
      List.reverse_cons, List.find?_append]
    by_cases hx : f x = k
    · cases l.reverse.find? fun x => decide (f x = k) <;> simp [hx]
    · cases l.reverse.find? fun x => decide (f x = k) <;> simp [hx]

end Folds

end OrdMap
