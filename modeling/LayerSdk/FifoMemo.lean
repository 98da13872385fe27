import Mathlib.Data.Finset.Card
import LayerSdk.OrdMap

/-!
# A bounded memo

A table that forgets its oldest entry when it has more than `cap`. A key that
is there already keeps its place. `Has m k v D` says that the entry of `k` is
`v` and that only keys of `D` came after it: as long as `D` has fewer than `cap`
keys, remembering another one does not push it out (`Has.remember`).
-/

namespace FifoMemo

open Std

variable {κ β : Type} [Ord κ]

structure Memo (κ β : Type) [Ord κ] where
  table : ExtTreeMap κ β
  order : List κ

namespace Memo

def empty [Std.TransOrd κ] : Memo κ β := ⟨∅, []⟩

variable [Std.TransOrd κ]

/-- Forget from the front while there are too many. -/
def evict (cap : Nat) : List κ → ExtTreeMap κ β → Memo κ β
  | [], table => ⟨table, []⟩
  | old :: rest, table =>
    if cap < (old :: rest).length then evict cap rest (table.erase old) else ⟨table, old :: rest⟩

def remember (cap : Nat) (m : Memo κ β) (k : κ) (v : β) : Memo κ β :=
  evict cap (if m.table.contains k then m.order else m.order ++ [k]) (m.table.insert k v)

/-- Everything remembered, oldest first; `none` if an entry is missing. -/
def entries (m : Memo κ β) : Option (List (κ × β)) :=
  m.order.mapM fun k => m.table[k]?.map fun v => (k, v)

def replay (cap : Nat) (records : List (κ × β)) : Memo κ β :=
  records.foldl (fun m r => m.remember cap r.1 r.2) empty

/-! ## Well-formed memos -/

structure Wf (cap : Nat) (m : Memo κ β) : Prop where
  nodup : m.order.Nodup
  mem : ∀ k, k ∈ m.order ↔ k ∈ m.table
  bounded : m.order.length ≤ cap

variable {cap : Nat} {m : Memo κ β} {k x : κ} {v w : β}

variable {table : ExtTreeMap κ β} {j : κ} {D : Finset κ}

theorem evict_of_le {order : List κ} (h : order.length ≤ cap) :
    evict cap order table = ⟨table, order⟩ := by
  cases order with
  | nil => rfl
  | cons old rest => rw [evict, if_neg (Nat.not_lt.mpr h)]

theorem evict_cons {old : κ} {rest : List κ} (h : rest.length = cap) :
    evict cap (old :: rest) table = ⟨table.erase old, rest⟩ := by
  rw [evict, if_pos (by rw [List.length_cons]; omega), evict_of_le (Nat.le_of_eq h)]

/-- A key that is there keeps its place. -/
theorem Wf.remember_mem (h : m.Wf cap) (hk : k ∈ m.table) :
    m.remember cap k v = ⟨m.table.insert k v, m.order⟩ := by
  rw [remember, if_pos (ExtTreeMap.contains_iff_mem.mpr hk), evict_of_le h.bounded]

theorem Wf.remember_fresh (h : m.Wf cap) (hk : k ∉ m.table) :
    (m.order.length < cap ∧ m.remember cap k v = ⟨m.table.insert k v, m.order ++ [k]⟩) ∨
      (m.order.length = cap ∧ ∃ old rest, m.order ++ [k] = old :: rest ∧
        m.remember cap k v = ⟨(m.table.insert k v).erase old, rest⟩) := by
  rw [remember, if_neg fun hc => hk (ExtTreeMap.contains_iff_mem.mp hc)]
  rcases Nat.lt_or_eq_of_le h.bounded with hlt | heq
  · refine .inl ⟨hlt, evict_of_le ?_⟩
    rw [List.length_append, List.length_singleton]
    exact hlt
  · refine .inr ⟨heq, ?_⟩
    have hlen : (m.order ++ [k]).length = cap + 1 := by
      rw [List.length_append, List.length_singleton, heq]
    cases ho : m.order ++ [k] with
    | nil =>
      rw [ho] at hlen
      cases hlen
    | cons old rest =>
      rw [ho, List.length_cons] at hlen
      exact ⟨old, rest, rfl, evict_cons (Nat.succ.inj hlen)⟩

theorem Wf.empty : (Memo.empty : Memo κ β).Wf cap :=
  ⟨List.nodup_nil, fun k => by simp [Memo.empty], Nat.zero_le _⟩

theorem mem_insert_iff [Std.LawfulEqOrd κ] : j ∈ table.insert k v ↔ j = k ∨ j ∈ table := by
  rw [ExtTreeMap.mem_insert, Std.LawfulEqCmp.compare_eq_iff_eq, eq_comm]

theorem Wf.nodup_append (h : m.Wf cap) (hk : k ∉ m.table) : (m.order ++ [k]).Nodup := by
  refine List.nodup_append.mpr ⟨h.nodup, List.nodup_singleton k, fun a ha b hb => ?_⟩
  rintro rfl
  rw [List.mem_singleton.mp hb] at ha
  exact hk ((h.mem k).mp ha)

theorem Wf.remember [Std.LawfulEqOrd κ] (h : m.Wf cap) (k : κ) (v : β) :
    (m.remember cap k v).Wf cap := by
  by_cases hk : k ∈ m.table
  · rw [h.remember_mem hk]
    refine ⟨h.nodup, fun j => ?_, h.bounded⟩
    rw [mem_insert_iff, h.mem]
    constructor
    · exact .inr
    · rintro (rfl | hj)
      · exact hk
      · exact hj
  · have hnodup := h.nodup_append hk
    have hmem : ∀ j, j ∈ m.order ++ [k] ↔ j ∈ m.table.insert k v := fun j => by
      rw [mem_insert_iff, List.mem_append, List.mem_singleton, h.mem, or_comm]
    rcases h.remember_fresh (v := v) hk with ⟨hlt, heq⟩ | ⟨hlen, old, rest, ho, heq⟩
    · rw [heq]
      refine ⟨hnodup, hmem, ?_⟩
      rw [List.length_append, List.length_singleton]
      exact hlt
    · rw [heq]
      rw [ho] at hnodup hmem
      obtain ⟨hold, hrest⟩ := List.nodup_cons.mp hnodup
      refine ⟨hrest, fun j => ?_, ?_⟩
      · rw [ExtTreeMap.mem_erase, ← hmem, List.mem_cons]
        constructor
        · intro hj
          refine ⟨fun hc => ?_, .inr hj⟩
          rw [Std.LawfulEqCmp.compare_eq_iff_eq] at hc
          exact hold (hc ▸ hj)
        · rintro ⟨hne, rfl | hj⟩
          · exact absurd (Std.LawfulEqCmp.compare_eq_iff_eq.mpr rfl) hne
          · exact hj
      · have := congrArg List.length ho
        rw [List.length_append, List.length_singleton, List.length_cons, hlen] at this
        exact Nat.le_of_eq (Nat.succ.inj this).symm

theorem wf_replay [Std.LawfulEqOrd κ] (cap : Nat) (records : List (κ × β)) :
    (replay cap records).Wf cap := by
  rw [replay]
  induction records using List.reverseRecOn with
  | nil => exact .empty
  | append_singleton rest r ih =>
    rw [List.foldl_append]
    exact ih.remember r.1 r.2

theorem replay_append (records : List (κ × β)) (k : κ) (v : β) :
    replay cap (records ++ [(k, v)]) = (replay cap records).remember cap k v := by
  rw [replay, List.foldl_append]
  rfl

theorem Wf.mem_remember [Std.LawfulEqOrd κ] (h : m.Wf cap) (hj : j ∈ (m.remember cap k v).table) :
    j = k ∨ j ∈ m.table := by
  by_cases hk : k ∈ m.table
  · rw [h.remember_mem hk] at hj
    exact mem_insert_iff.mp hj
  · rcases h.remember_fresh (v := v) hk with ⟨-, heq⟩ | ⟨-, old, rest, -, heq⟩
    · rw [heq] at hj
      exact mem_insert_iff.mp hj
    · rw [heq] at hj
      exact mem_insert_iff.mp (ExtTreeMap.mem_of_mem_erase hj)

theorem mem_replay [Std.LawfulEqOrd κ] {records : List (κ × β)}
    (hk : k ∈ (replay cap records).table) :
    k ∈ records.map Prod.fst := by
  induction records using List.reverseRecOn with
  | nil => simp [replay, Memo.empty] at hk
  | append_singleton rest r ih =>
    rw [replay_append] at hk
    rw [List.map_append, List.mem_append]
    rcases (wf_replay cap rest).mem_remember hk with rfl | hk
    · exact .inr (List.mem_singleton.mpr rfl)
    · exact .inl (ih hk)

theorem Wf.getElem?_remember_self [Std.LawfulEqOrd κ] (h : m.Wf cap)
    (hk : k ∉ m.table) (hcap : 0 < cap) :
    (m.remember cap k v).table[k]? = some v := by
  rcases h.remember_fresh (v := v) hk with ⟨-, heq⟩ | ⟨hlen, old, rest, hrest, heq⟩
  · rw [heq, ExtTreeMap.getElem?_insert_self]
  · have hold : old ∈ m.order := by
      cases ho : m.order with
      | nil =>
        rw [ho] at hlen
        exact absurd hlen (Nat.ne_of_lt hcap)
      | cons a l =>
        rw [ho, List.cons_append] at hrest
        rw [(List.cons.inj hrest).1]
        exact List.mem_cons_self
    have hne : old ≠ k := fun heq => hk ((h.mem k).mp (heq ▸ hold))
    rw [heq]
    rw [OrdMap.getElem?_erase_of_ne hne, ExtTreeMap.getElem?_insert_self]

theorem Wf.getElem?_of_remember [Std.LawfulEqOrd κ] (h : m.Wf cap) {u : β} (hj : j ≠ k)
    (hu : (m.remember cap k v).table[j]? = some u) : m.table[j]? = some u := by
  have hins : (m.table.insert k v)[j]? = some u → m.table[j]? = some u := fun hi => by
    rwa [OrdMap.getElem?_insert_of_ne hj.symm] at hi
  by_cases hk : k ∈ m.table
  · rw [h.remember_mem hk] at hu
    exact hins hu
  · rcases h.remember_fresh (v := v) hk with ⟨-, heq⟩ | ⟨-, old, rest, -, heq⟩
    · rw [heq] at hu
      exact hins hu
    · rw [heq] at hu
      rw [ExtTreeMap.getElem?_erase] at hu
      split at hu
      · cases hu
      · exact hins hu

/-! ## What stays -/

omit [Ord κ] [Std.TransOrd κ] in
theorem split_concat {l older newer : List κ} (h : l ++ [x] = older ++ k :: newer) (hx : x ≠ k) :
    ∃ newer', newer = newer' ++ [x] ∧ l = older ++ k :: newer' := by
  rcases List.eq_nil_or_concat' newer with rfl | ⟨newer', y, rfl⟩
  · obtain ⟨-, hlast⟩ := List.append_inj' h rfl
    exact absurd (List.singleton_inj.mp hlast) hx
  · rw [← List.cons_append, ← List.append_assoc] at h
    obtain ⟨hl, hlast⟩ := List.append_inj' h rfl
    obtain rfl := List.singleton_inj.mp hlast
    exact ⟨newer', rfl, hl⟩

/-- The order after `x` has been remembered, for a key other than `x`. -/
theorem Wf.order_remember (h : m.Wf cap) (hx : x ≠ k) {older newer : List κ}
    (ho : (m.remember cap x w).order = older ++ k :: newer) :
    ∃ older' newer', m.order = older' ++ k :: newer' ∧ ∀ j ∈ newer, j = x ∨ j ∈ newer' := by
  have hlast : ∀ older₁, m.order ++ [x] = older₁ ++ k :: newer →
      ∃ older' newer', m.order = older' ++ k :: newer' ∧ ∀ j ∈ newer, j = x ∨ j ∈ newer' := by
    intro older₁ h₁
    obtain ⟨newer', rfl, ho'⟩ := split_concat h₁ hx
    refine ⟨older₁, newer', ho', fun j hj => ?_⟩
    rw [List.mem_append, List.mem_singleton] at hj
    exact hj.symm
  by_cases hmem : x ∈ m.table
  · rw [h.remember_mem hmem] at ho
    exact ⟨older, newer, ho, fun j hj => .inr hj⟩
  · rcases h.remember_fresh (v := w) hmem with ⟨-, heq⟩ | ⟨-, old, rest, hrest, heq⟩
    · rw [heq] at ho
      exact hlast older ho
    · rw [heq] at ho
      change rest = _ at ho
      exact hlast (old :: older) (by rw [hrest, ho, List.cons_append])

/-- Only keys of `D` came after `k`. -/
def Behind (m : Memo κ β) (k : κ) (D : Finset κ) : Prop :=
  ∀ older newer, m.order = older ++ k :: newer → ∀ j ∈ newer, j ∈ D

/-- The entry of `k` is `v`, and only keys of `D` came after it. -/
structure Has (m : Memo κ β) (k : κ) (v : β) (D : Finset κ) : Prop where
  entry : m.table[k]? = some v
  behind : m.Behind k D

omit [Std.TransOrd κ] in
theorem Behind.mono {D' : Finset κ} (h : m.Behind k D) (hD : D ⊆ D') : m.Behind k D' :=
  fun older newer ho j hj => hD (h older newer ho j hj)

theorem Has.mono {D' : Finset κ} (h : m.Has k v D) (hD : D ⊆ D') : m.Has k v D' :=
  ⟨h.entry, h.behind.mono hD⟩

theorem Behind.remember [DecidableEq κ] (h : m.Wf cap) (hb : m.Behind k D) (hx : x ≠ k) :
    (m.remember cap x w).Behind k (insert x D) := by
  intro older newer ho j hj
  obtain ⟨older', newer', ho', hnewer⟩ := h.order_remember hx ho
  rcases hnewer j hj with rfl | hj
  · exact Finset.mem_insert_self ..
  · exact Finset.mem_insert_of_mem (hb older' newer' ho' j hj)

theorem Wf.behind_of_notMem (h : m.Wf cap) (hk : k ∉ m.table) (D : Finset κ) : m.Behind k D := by
  intro older newer ho
  refine absurd ((h.mem k).mp ?_) hk
  rw [ho]
  exact List.mem_append_right _ (List.mem_cons_self)

/-- A key that was not there is the newest. -/
theorem Wf.behind_self (h : m.Wf cap) (hk : k ∉ m.table) : (m.remember cap k v).Behind k ∅ := by
  intro older newer ho j hj
  -- the key at the end of the order is the only one
  have hlast : ∀ older₁, m.order ++ [k] = older₁ ++ k :: newer → newer = [] := by
    intro older₁ h₁
    rcases List.eq_nil_or_concat' newer with hnil | ⟨newer', y, rfl⟩
    · exact hnil
    · rw [← List.cons_append, ← List.append_assoc] at h₁
      obtain ⟨hl, -⟩ := List.append_inj' h₁ rfl
      refine absurd ((h.mem k).mp ?_) hk
      rw [hl]
      exact List.mem_append_right _ (List.mem_cons_self)
  have hnil : newer = [] := by
    rcases h.remember_fresh (v := v) hk with ⟨-, heq⟩ | ⟨-, old, rest, hrest, heq⟩
    · rw [heq] at ho
      exact hlast older ho
    · rw [heq] at ho
      change rest = _ at ho
      exact hlast (old :: older) (by rw [hrest, ho, List.cons_append])
  rw [hnil] at hj
  cases hj

/-- Fewer than `cap` keys after it do not push an entry out. -/
theorem Has.remember [Std.LawfulEqOrd κ] [DecidableEq κ] (h : m.Wf cap) (hhas : m.Has k v D)
    (hx : x ≠ k) (hcard : (insert x D).card < cap) : (m.remember cap x w).Has k v (insert x D) := by
  refine ⟨?_, hhas.behind.remember h hx⟩
  have hget : (m.table.insert x w)[k]? = some v := by
    rw [OrdMap.getElem?_insert_of_ne hx]
    exact hhas.entry
  by_cases hmem : x ∈ m.table
  · rw [h.remember_mem hmem]
    exact hget
  · rcases h.remember_fresh (v := w) hmem with ⟨-, heq⟩ | ⟨hlen, old, rest, hrest, heq⟩
    · rw [heq]
      exact hget
    · rw [heq]
      rw [OrdMap.getElem?_erase_of_ne]
      · exact hget
      · -- the oldest is `k` itself only if all others are in `D`
        rintro rfl
        obtain ⟨newer, hnewer, ho⟩ := split_concat (show _ = [] ++ _ from hrest) hx
        have hnodup : (newer ++ [x]).Nodup := by
          rw [← hnewer]
          exact (List.nodup_cons.mp (hrest ▸ h.nodup_append hmem)).2
        have hsub : (newer ++ [x]).toFinset ⊆ insert x D := by
          intro j hj
          rw [List.mem_toFinset, List.mem_append, List.mem_singleton] at hj
          rcases hj with hj | rfl
          · exact Finset.mem_insert_of_mem (hhas.behind [] newer ho j hj)
          · exact Finset.mem_insert_self ..
        have hle := Finset.card_le_card hsub
        rw [List.toFinset_card_of_nodup hnodup, List.length_append, List.length_singleton] at hle
        rw [ho] at hlen
        simp only [List.nil_append, List.length_cons] at hlen
        omega

/-! ## What is written is read back -/

/-- New keys that fit are all kept. -/
theorem replay_fits [Std.LawfulEqOrd κ] : ∀ {records : List (κ × β)} {m : Memo κ β}, m.Wf cap →
    (records.map Prod.fst).Nodup → (∀ r ∈ records, r.1 ∉ m.table) →
    m.order.length + records.length ≤ cap →
    (records.foldl (fun m r => m.remember cap r.1 r.2) m).order =
        m.order ++ records.map Prod.fst ∧
      (∀ r ∈ records,
        (records.foldl (fun m r => m.remember cap r.1 r.2) m).table[r.1]? = some r.2) ∧
      ∀ k, k ∉ records.map Prod.fst →
        (records.foldl (fun m r => m.remember cap r.1 r.2) m).table[k]? = m.table[k]?
  | [], m, _, _, _, _ => ⟨(List.append_nil _).symm, nofun, fun _ _ => rfl⟩
  | (j, u) :: rest, m, h, hnodup, hnew, hfits => by
    rw [List.length_cons] at hfits
    obtain ⟨hj, hrest⟩ := List.nodup_cons.mp hnodup
    have hstep : m.remember cap j u = ⟨m.table.insert j u, m.order ++ [j]⟩ := by
      rcases h.remember_fresh (v := u) (hnew (j, u) (List.mem_cons_self)) with
        ⟨-, heq⟩ | ⟨hlen, -⟩
      · exact heq
      · omega
    have hget : ∀ k, k ≠ j → (m.remember cap j u).table[k]? = m.table[k]? := fun k hk => by
      rw [hstep, OrdMap.getElem?_insert_of_ne hk.symm]
    obtain ⟨horder, hkept, hothers⟩ := replay_fits (h.remember j u) hrest
      (fun r hr => by
        have hfst : r.1 ∈ rest.map Prod.fst := List.mem_map_of_mem hr
        have hne : r.1 ≠ j := fun he => hj (he ▸ hfst)
        rw [hstep, mem_insert_iff]
        exact not_or.mpr ⟨hne, hnew r (List.mem_cons_of_mem _ hr)⟩)
      (by rw [hstep, List.length_append, List.length_singleton]; omega)
    refine ⟨?_, fun r hr => ?_, fun k hk => ?_⟩
    · rw [List.foldl_cons, horder, hstep, List.append_assoc, List.map_cons]
      rfl
    · rcases List.mem_cons.mp hr with rfl | hr
      · rw [List.foldl_cons, hothers j hj, hstep, ExtTreeMap.getElem?_insert_self]
      · exact hkept r hr
    · rw [List.map_cons, List.mem_cons, not_or] at hk
      rw [List.foldl_cons, hothers k hk.2, hget k hk.1]

/-- Replaying the entries of a memo gives the memo. -/
theorem Wf.replay_entries [Std.LawfulEqOrd κ] (h : m.Wf cap) : ∃ records, m.entries = some records ∧
    records.map Prod.fst = m.order ∧ replay cap records = m := by
  have hget : ∀ k ∈ m.order, ∃ v, m.table[k]? = some v := fun k hk =>
    Option.isSome_iff_exists.mp (ExtTreeMap.mem_iff_isSome_getElem?.mp ((h.mem k).mp hk))
  obtain ⟨records, hentries, hfst, hrecords⟩ : ∃ records, m.entries = some records ∧
      records.map Prod.fst = m.order ∧ ∀ r ∈ records, m.table[r.1]? = some r.2 := by
    rw [entries]
    generalize m.order = order at hget
    induction order with
    | nil => exact ⟨[], rfl, rfl, nofun⟩
    | cons k rest ih =>
      obtain ⟨v, hv⟩ := hget k (List.mem_cons_self)
      obtain ⟨records, hrest, hfst, hall⟩ := ih fun j hj => hget j (List.mem_cons_of_mem _ hj)
      refine ⟨(k, v) :: records, ?_, ?_, ?_⟩
      · rw [List.mapM_cons, hv, hrest]
        rfl
      · rw [List.map_cons, hfst]
      · exact List.forall_mem_cons.mpr ⟨hv, hall⟩
  have hlen : records.length = m.order.length := by rw [← hfst, List.length_map]
  obtain ⟨horder, hkept, hothers⟩ := replay_fits (Wf.empty : (Memo.empty : Memo κ β).Wf cap)
    (hfst ▸ h.nodup) (fun r _ => by simp [Memo.empty])
    (by rw [hlen]; exact (Nat.zero_add _).symm ▸ h.bounded)
  refine ⟨records, hentries, hfst, ?_⟩
  have htable : (replay cap records).table = m.table := by
    refine ExtTreeMap.ext_getElem? fun k => ?_
    by_cases hk : k ∈ records.map Prod.fst
    · obtain ⟨r, hr, rfl⟩ := List.mem_map.mp hk
      rw [hrecords r hr]
      exact hkept r hr
    · have hnone : m.table[k]? = none := by
        rw [hfst, h.mem] at hk
        exact ExtTreeMap.getElem?_eq_none hk
      rw [hnone]
      exact (hothers k hk).trans (by simp [Memo.empty])
  have horder' : (replay cap records).order = m.order := horder.trans (by rw [hfst]; rfl)
  cases hm : replay cap records with
  | mk table order =>
    rw [hm] at htable horder'
    cases m
    cases htable
    cases horder'
    rfl

end Memo

end FifoMemo
