import Mathlib.Data.List.Perm.Basic
import Mathlib.Data.List.Sort
import LayerSdk.Codec
import LayerSdk.Greedy
import LayerSdk.Mempool

/-!
# Selecting a proposal's transactions

`peek_batch` sorts the pending transactions into one queue per sender, by
sequence, and merges the queues by the arrival of their heads. The order of
the merge (`turnOrder`) does not depend on the limits; the limits only decide
who of those whose turn comes gets in, and that is a greedy selection
(`peekBatch_eq`).

A transaction that is over the byte budget at its turn is passed over. The
next one of its sender is not, so a batch can hold a sequence whose
predecessor it skipped: `peekBatch_prefix_iff` says exactly when.
-/

namespace LayerSdk

open Std

namespace Mempool

abbrev Entry := Nat × Bytes × Bytes

/-- Sender to its `(sequence, arrival)` pairs. -/
abbrev Queues := ExtTreeMap String (List (Nat × Nat))

/-- Arrival of a queue's head to its key: the ordered set of pairs, whose
first components are distinct. -/
abbrev Heads := ExtTreeMap Nat String

variable (pool : Mempool)

/-- The queue of an entry and its sequence there. An entry without metadata
has a queue of its own. -/
def queueKey (e : Entry) : String × Nat :=
  match pool.metas[e.2.1]? with
  | some m => (m.sender, m.sequence)
  | none => (hexEncode e.2.1, 2 ^ 64 - 1)

def pushBack (queues : Queues) (e : Entry) : Queues :=
  queues.insert (pool.queueKey e).1
    (queues[(pool.queueKey e).1]?.getD [] ++ [((pool.queueKey e).2, e.1)])

/-- The order on pairs. -/
def PairLe (a b : Nat × Nat) : Prop := a.1 < b.1 ∨ a.1 = b.1 ∧ a.2 ≤ b.2

instance : DecidableRel PairLe := fun _ _ => inferInstanceAs (Decidable (_ ∨ _))

def queues : Queues :=
  (pool.order.toList.foldl pool.pushBack ∅).map fun _ q => q.insertionSort PairLe

def headOf (heads : Heads) (q : String × List (Nat × Nat)) : Heads :=
  match q.2 with
  | [] => heads
  | (_, arrival) :: _ => heads.insert arrival q.1

def heads (queues : Queues) : Heads := queues.toList.foldl headOf ∅

/-- The head with the smallest arrival leaves its queue. -/
def nextTurn (heads : Heads) (queues : Queues) : Option (Nat × Heads × Queues) :=
  match heads.toList.head? with
  | none => none
  | some (headArrival, key) =>
    let heads := heads.erase headArrival
    match queues[key]? with
    -- every head has its queue
    | none => none
    | some [] => none
    | some ((_, arrival) :: queue) => some (arrival, headOf heads (key, queue),
        queues.insert key queue)

/-- The merge loop. -/
def peekLoop (maxTxs maxBytes : Nat) : Nat → Heads → Queues → List Bytes → Nat → List Bytes
  | 0, _, _, out, _ => out
  | n + 1, heads, queues, out, bytes =>
    if out.length < maxTxs then
      match nextTurn heads queues with
      | none => out
      | some (arrival, heads, queues) =>
        match pool.order[arrival]? with
        | none => out
        | some (_, tx) =>
          if maxBytes < bytes + tx.length then peekLoop maxTxs maxBytes n heads queues out bytes
          else peekLoop maxTxs maxBytes n heads queues (out ++ [tx]) (bytes + tx.length)
    else out

/-- `peek_batch`; each pass takes one transaction out of its queue. -/
def peekBatch (maxTxs maxBytes : Nat) : List Bytes :=
  pool.peekLoop maxTxs maxBytes pool.order.size (heads pool.queues) pool.queues [] 0

/-! ## The merge -/

/-- All arrivals that wait in queues. -/
def arrivals (queues : Queues) : List Nat := queues.toList.flatMap fun q => q.2.map Prod.snd

/-- The order in which turns come. -/
def turns : Nat → Heads → Queues → List Nat
  | 0, _, _ => []
  | n + 1, heads, queues =>
    match nextTurn heads queues with
    | none => []
    | some (arrival, heads, queues) => arrival :: turns n heads queues

/-- Heads are the fronts of the queues, and nothing waits twice. -/
structure Ready (heads : Heads) (queues : Queues) : Prop where
  nodup : (arrivals queues).Nodup
  fronts : ∀ (a : Nat) (k : String), heads[a]? = some k ↔
    ∃ s rest, queues[k]? = some ((s, a) :: rest)

variable {pool} {heads : Heads} {queues : Queues}

theorem arrivals_insert (key : String) (q : List (Nat × Nat)) :
    (arrivals (queues.insert key q)).Perm (q.map Prod.snd ++ arrivals (queues.erase key)) := by
  have hinsert : queues.insert key q = (queues.erase key).insert key q := by
    refine ExtTreeMap.ext_getElem? fun k => ?_
    rw [ExtTreeMap.getElem?_insert, ExtTreeMap.getElem?_insert,
      ExtTreeMap.getElem?_erase]
    split <;> rfl
  rw [hinsert]
  exact (OrdMap.toList_insert_perm ExtTreeMap.getElem?_erase_self q).flatMap_right _

variable {key : String} {q : List (Nat × Nat)} {a : Nat}

theorem arrivals_of_getElem? (h : queues[key]? = some q) :
    (arrivals queues).Perm (q.map Prod.snd ++ arrivals (queues.erase key)) :=
  (OrdMap.toList_perm_erase h).flatMap_right _

theorem mem_arrivals : a ∈ arrivals queues ↔ ∃ (k : String) (q : List (Nat × Nat)) (s : Nat),
      queues[k]? = some q ∧ (s, a) ∈ q := by
  simp only [arrivals, List.mem_flatMap, List.mem_map, Prod.exists,
    ExtTreeMap.mem_toList_iff_getElem?_eq_some]
  constructor
  · rintro ⟨k, q, hq, s, a', hmem, rfl⟩
    exact ⟨k, q, s, hq, hmem⟩
  · rintro ⟨k, q, s, hq, hmem⟩
    exact ⟨k, q, hq, s, a, hmem, rfl⟩

/-- An arrival waits in one queue only. -/
theorem queue_unique (h : (arrivals queues).Nodup) {k k' : String} {q' : List (Nat × Nat)}
    {s s' : Nat} (hq : queues[k]? = some q) (hq' : queues[k']? = some q') (ha : (s, a) ∈ q)
    (ha' : (s', a) ∈ q') : k = k' := by
  by_contra hne
  have hnodup := (arrivals_of_getElem? hq).nodup_iff.mp h
  have hother : a ∈ arrivals (queues.erase k) := by
    refine mem_arrivals.mpr ⟨k', q', s', ?_, ha'⟩
    rw [ExtTreeMap.getElem?_erase, if_neg (by simpa using hne), hq']
  exact (List.nodup_append.mp hnodup).2.2 a (List.mem_map.mpr ⟨(s, a), ha, rfl⟩) a hother rfl

theorem getElem?_headOf {k : String} : (headOf heads (key, q))[a]? = some k ↔
      (∃ s rest, q = (s, a) :: rest ∧ k = key) ∨
        (∀ s rest, q ≠ (s, a) :: rest) ∧ heads[a]? = some k := by
  cases q with
  | nil => simp [headOf]
  | cons x rest =>
    obtain ⟨s, a'⟩ := x
    rw [headOf, ExtTreeMap.getElem?_insert]
    by_cases ha : a' = a
    · subst ha
      simp [eq_comm]
    · simp [ha]

/-- The front of one queue leaves it: what becomes of the heads. -/
theorem Ready.pop (h : Ready heads queues) {s : Nat} {rest : List (Nat × Nat)}
    (hq : queues[key]? = some ((s, a) :: rest)) :
    Ready (headOf (heads.erase a) (key, rest)) (queues.insert key rest) := by
  have hnodup := (arrivals_of_getElem? hq).nodup_iff.mp h.nodup
  refine ⟨?_, fun b k => ?_⟩
  · rw [(arrivals_insert key rest).nodup_iff]
    exact (List.nodup_cons.mp hnodup).2
  rw [getElem?_headOf, ExtTreeMap.getElem?_insert, ExtTreeMap.getElem?_erase]
  by_cases hk : key = k
  · subst hk
    have hother : ¬ (¬ a = b ∧ heads[b]? = some key) := by
      rintro ⟨hne, hb⟩
      obtain ⟨s', rest', hq'⟩ := (h.fronts b key).mp hb
      rw [hq] at hq'
      exact hne (congrArg Prod.snd (List.cons.inj (Option.some.inj hq')).1)
    by_cases hab : a = b
    · simp [hab]
    · simp only [hab, not_false_eq_true, true_and] at hother
      simp [hab, hother]
  · have hheads : (∃ s' rest', queues[k]? = some ((s', b) :: rest')) → a ≠ b := by
      rintro ⟨s', rest', hq'⟩ rfl
      exact hk (queue_unique h.nodup hq hq' (List.mem_cons_self) (List.mem_cons_self))
    have hrest : (∃ s' rest', queues[k]? = some ((s', b) :: rest')) →
        ∀ s'' rest'', rest ≠ (s'', b) :: rest'' := by
      rintro ⟨s', rest', hq'⟩ s'' rest'' rfl
      exact hk (queue_unique h.nodup hq hq' (List.mem_cons_of_mem _ (List.mem_cons_self))
        (List.mem_cons_self))
    have hkey : compare key k ≠ .eq := fun heq => hk (Std.LawfulEqOrd.eq_of_compare heq)
    rw [if_neg hkey]
    constructor
    · rintro (⟨-, -, -, rfl⟩ | ⟨-, hb⟩)
      · exact absurd rfl hk
      · split at hb
        · cases hb
        · exact (h.fronts b k).mp hb
    · intro hb
      refine .inr ⟨hrest hb, ?_⟩
      rw [if_neg fun heq => hheads hb (Std.LawfulEqOrd.eq_of_compare heq)]
      exact (h.fronts b k).mpr hb

/-- One turn: nothing waits any more, or the front of one queue leaves it. -/
theorem nextTurn_cases (h : Ready heads queues) :
    (nextTurn heads queues = none ∧ arrivals queues = []) ∨
      ∃ key s a rest heads', nextTurn heads queues = some (a, heads', queues.insert key rest) ∧
        queues[key]? = some ((s, a) :: rest) ∧ Ready heads' (queues.insert key rest) := by
  unfold nextTurn
  cases hhead : heads.toList.head? with
  | none =>
    refine .inl ⟨rfl, List.eq_nil_iff_forall_not_mem.mpr fun a ha => ?_⟩
    obtain ⟨k, q, s, hq, hmem⟩ := mem_arrivals.mp ha
    cases q with
    | nil => cases hmem
    | cons x rest =>
      have hfront := (h.fronts x.2 k).mpr ⟨x.1, rest, hq⟩
      rw [← ExtTreeMap.mem_toList_iff_getElem?_eq_some,
        List.head?_eq_none_iff.mp hhead] at hfront
      cases hfront
  | some e =>
    obtain ⟨a, key⟩ := e
    have hfront := ExtTreeMap.mem_toList_iff_getElem?_eq_some.mp
      (List.mem_of_mem_head? hhead)
    obtain ⟨s, rest, hq⟩ := (h.fronts a key).mp hfront
    dsimp only
    rw [hq]
    exact .inr ⟨key, s, a, rest, _, rfl, hq, h.pop hq⟩

/-- What waits is the front and what waits once it has left. -/
theorem arrivals_pop {s a : Nat} {rest : List (Nat × Nat)}
    (hq : queues[key]? = some ((s, a) :: rest)) :
    (arrivals queues).Perm (a :: arrivals (queues.insert key rest)) ∧
      (arrivals queues).length = (arrivals (queues.insert key rest)).length + 1 := by
  have hperm := (arrivals_of_getElem? hq).trans ((arrivals_insert key rest).symm.cons a)
  exact ⟨hperm, hperm.length_eq⟩

/-- Every arrival that waits gets one turn. -/
theorem turns_perm : ∀ (n : Nat) {heads : Heads} {queues : Queues}, Ready heads queues →
    (arrivals queues).length ≤ n → (turns n heads queues).Perm (arrivals queues)
  | 0, heads, queues, _, hn => by
    rw [List.length_eq_zero_iff.mp (Nat.le_zero.mp hn)]
    exact .refl _
  | n + 1, heads, queues, h, hn => by
    rw [turns]
    rcases nextTurn_cases h with ⟨hnone, hempty⟩ | ⟨key, s, a, rest, heads', hnext, hq, hready⟩
    · rw [hnone, hempty]
    · rw [hnext]
      obtain ⟨hperm, hlen⟩ := arrivals_pop hq
      exact ((turns_perm n hready (by omega)).cons a).trans hperm.symm

/-- Each queue is in order, and holds what is keyed to it. -/
def Sorted (owner : Nat → String × Nat) (queues : Queues) : Prop :=
  ∀ (k : String) (q : List (Nat × Nat)), queues[k]? = some q →
    q.Pairwise PairLe ∧ ∀ x ∈ q, owner x.2 = (k, x.1)

theorem Sorted.pop {owner : Nat → String × Nat} (h : Sorted owner queues) {x : Nat × Nat}
    {rest : List (Nat × Nat)} (hq : queues[key]? = some (x :: rest)) :
    Sorted owner (queues.insert key rest) := by
  intro k q hk
  rcases OrdMap.getElem?_insert_cases.mp hk with ⟨rfl, rfl⟩ | ⟨-, hk⟩
  · obtain ⟨hsorted, howner⟩ := h key _ hq
    exact ⟨(List.pairwise_cons.mp hsorted).2, fun y hy => howner y (List.mem_cons_of_mem _ hy)⟩
  · exact h k q hk

/-- Turns within one queue come in its order. -/
theorem turns_pairwise {owner : Nat → String × Nat} : ∀ (n : Nat) {heads : Heads}
    {queues : Queues}, Ready heads queues → Sorted owner queues → (arrivals queues).length ≤ n →
      (turns n heads queues).Pairwise fun a b =>
        (owner a).1 = (owner b).1 → PairLe ((owner a).2, a) ((owner b).2, b)
  | 0, _, _, _, _, _ => List.Pairwise.nil
  | n + 1, heads, queues, h, hsorted, hn => by
    rw [turns]
    rcases nextTurn_cases h with ⟨hnone, -⟩ | ⟨key, s, a, rest, heads', hnext, hq, hready⟩
    · rw [hnone]
      exact List.Pairwise.nil
    · rw [hnext]
      have hlen := (arrivals_pop hq).2
      have hsorted' := hsorted.pop hq
      refine List.pairwise_cons.mpr ⟨fun b hb hkey => ?_,
        turns_pairwise n hready hsorted' (by omega)⟩
      obtain ⟨k, q, s', hq', hmem⟩ :=
        mem_arrivals.mp ((turns_perm n hready (by omega)).mem_iff.mp hb)
      obtain ⟨hpair, howner⟩ := hsorted key _ hq
      have ha : owner a = (key, s) := howner (s, a) (List.mem_cons_self)
      have hb' : owner b = (k, s') := (hsorted' k q hq').2 (s', b) hmem
      rw [ha, hb'] at hkey
      obtain rfl : key = k := hkey
      rw [ExtTreeMap.getElem?_insert_self] at hq'
      cases hq'
      rw [ha, hb']
      exact (List.pairwise_cons.mp hpair).1 (s', b) hmem

/-! ## The queues of a pool -/

variable (pool)

/-- Queue and sequence of what arrived at `a`. -/
def owner (a : Nat) : String × Nat :=
  match pool.order[a]? with
  | some e => pool.queueKey (a, e)
  | none => ("", 0)

variable {pool}

theorem owner_of_mem {e : Entry} (he : e ∈ pool.order.toList) :
    pool.owner e.1 = pool.queueKey e := by
  rw [owner, ExtTreeMap.mem_toList_iff_getElem?_eq_some.mp he]

theorem arrivals_getD (key : String) :
    (arrivals queues).Perm
      ((queues[key]?.getD []).map Prod.snd ++ arrivals (queues.erase key)) := by
  cases hq : queues[key]? with
  | some q => exact arrivals_of_getElem? hq
  | none =>
    have herase : queues.erase key = queues := by
      refine ExtTreeMap.ext_getElem? fun k => ?_
      by_cases hk : key = k
      · rw [← hk, ExtTreeMap.getElem?_erase_self, hq]
      · exact OrdMap.getElem?_erase_of_ne hk
    rw [herase]
    exact .refl _

theorem arrivals_pushBack (e : Entry) :
    (arrivals (pool.pushBack queues e)).Perm (e.1 :: arrivals queues) := by
  refine (arrivals_insert _ _).trans ?_
  rw [List.map_append, List.append_assoc]
  refine List.perm_middle.trans (List.Perm.cons _ ?_)
  exact (arrivals_getD _).symm

theorem arrivals_foldl_pushBack : ∀ (l : List Entry) (queues : Queues),
    (arrivals (l.foldl pool.pushBack queues)).Perm (l.map Prod.fst ++ arrivals queues)
  | [], _ => .refl _
  | e :: l, queues =>
    (arrivals_foldl_pushBack l (pool.pushBack queues e)).trans
      (((arrivals_pushBack e).append_left _).trans List.perm_middle)

theorem keyed_foldl_pushBack : ∀ (l : List Entry) (queues : Queues),
    (∀ e ∈ l, e ∈ pool.order.toList) →
    (∀ (k : String) (q : List (Nat × Nat)), queues[k]? = some q →
      ∀ x ∈ q, pool.owner x.2 = (k, x.1)) →
    ∀ (k : String) (q : List (Nat × Nat)), (l.foldl pool.pushBack queues)[k]? = some q →
      ∀ x ∈ q, pool.owner x.2 = (k, x.1)
  | [], _, _, h => h
  | e :: l, queues, hl, h => by
    refine keyed_foldl_pushBack l _ (fun e' he' => hl e' (List.mem_cons_of_mem _ he')) ?_
    intro k q hq x hx
    rw [pushBack] at hq
    rcases OrdMap.getElem?_insert_cases.mp hq with ⟨rfl, rfl⟩ | ⟨-, hq⟩
    · rcases List.mem_append.mp hx with hx | hx
      · cases hq' : queues[(pool.queueKey e).1]? with
        | none =>
          rw [hq'] at hx
          cases hx
        | some q' =>
          rw [hq'] at hx
          exact h _ q' hq' x hx
      · obtain rfl := List.mem_singleton.mp hx
        exact owner_of_mem (hl e (List.mem_cons_self))
    · exact h k q hq x hx

theorem arrivals_map_sort (queues : Queues) :
    (arrivals (queues.map fun _ q => q.insertionSort PairLe)).Perm (arrivals queues) := by
  rw [arrivals, ExtTreeMap.toList_map, List.flatMap_map]
  exact List.Perm.flatMap_left _ fun e _ => (List.perm_insertionSort PairLe e.2).map _

/-- Every pending transaction waits in one queue. -/
theorem arrivals_queues : (arrivals pool.queues).Perm (pool.order.toList.map Prod.fst) := by
  refine (arrivals_map_sort _).trans ((arrivals_foldl_pushBack _ ∅).trans ?_)
  have hempty : arrivals (∅ : Queues) = [] := by
    rw [arrivals, OrdMap.toList_empty]
    rfl
  rw [hempty, List.append_nil]

instance : Std.Total PairLe where
  total a b := by
    unfold PairLe
    omega

instance : IsTrans (Nat × Nat) PairLe where
  trans a b c hab hbc := by
    unfold PairLe at *
    omega

theorem sorted_queues : Sorted pool.owner pool.queues := by
  intro k q hq
  rw [Mempool.queues, ExtTreeMap.getElem?_map] at hq
  obtain ⟨q', hq', rfl⟩ := Option.map_eq_some_iff.mp hq
  refine ⟨List.pairwise_insertionSort PairLe q', fun x hx => ?_⟩
  have hnone : ∀ (k : String) (q : List (Nat × Nat)), (∅ : Queues)[k]? = some q →
      ∀ x ∈ q, pool.owner x.2 = (k, x.1) := by
    intro k q h
    rw [ExtTreeMap.getElem?_empty] at h
    cases h
  exact keyed_foldl_pushBack _ ∅ (fun _ he => he) hnone k q' hq' x
    ((List.perm_insertionSort PairLe q').mem_iff.mp hx)

/-- The front of a queue: its arrival and the key. -/
def front (e : String × List (Nat × Nat)) : Option (Nat × String) :=
  e.2.head?.map fun x => (x.2, e.1)

theorem foldl_headOf (l : List (String × List (Nat × Nat))) (heads : Heads) :
    l.foldl headOf heads =
      (l.filterMap front).foldl (fun heads x => heads.insert x.1 x.2) heads := by
  rw [List.foldl_filterMap]
  congr 1
  funext heads ⟨key, q⟩
  cases q <;> rfl

/-- Queues without a common front are found under their fronts. -/
theorem ready_heads (hnodup : (arrivals queues).Nodup) : Ready (Mempool.heads queues) queues := by
  refine ⟨hnodup, fun a k => ?_⟩
  have hmem (k : String) : (a, k) ∈ (queues.toList.filterMap front).reverse ↔
      ∃ s rest, queues[k]? = some ((s, a) :: rest) := by
    simp [front, ExtTreeMap.mem_toList_iff_getElem?_eq_some, List.head?_eq_some_iff]
  rw [Mempool.heads, foldl_headOf, OrdMap.getElem?_foldl_insert, ExtTreeMap.getElem?_empty,
    Option.or_none, Option.map_eq_some_iff, ← hmem]
  constructor
  · rintro ⟨⟨a', k'⟩, hfind, rfl⟩
    obtain rfl : a' = a := by simpa using List.find?_some hfind
    exact List.mem_of_find?_eq_some hfind
  · intro hk
    obtain ⟨⟨a', k'⟩, hfind⟩ := Option.isSome_iff_exists.mp
      (List.find?_isSome (p := fun x => decide (x.1 = a)).mpr ⟨(a, k), hk, decide_eq_true rfl⟩)
    obtain rfl : a' = a := by simpa using List.find?_some hfind
    obtain ⟨s, rest, hq⟩ := (hmem k).mp hk
    obtain ⟨s', rest', hq'⟩ := (hmem k').mp (List.mem_of_find?_eq_some hfind)
    exact ⟨_, hfind, queue_unique hnodup hq' hq List.mem_cons_self List.mem_cons_self⟩

theorem ready_queues : Ready (Mempool.heads pool.queues) pool.queues :=
  ready_heads (arrivals_queues.nodup_iff.mpr (OrdMap.ascending_toList pool.order).keys_nodup)

/-! ## Whose turn comes when -/

variable (pool)

def entryAt (a : Nat) : Option Entry := pool.order[a]?.map (a, ·)

/-- The pending entries in the order of their turns. -/
def turnOrder : List Entry :=
  (turns pool.order.size (Mempool.heads pool.queues) pool.queues).filterMap pool.entryAt

variable {pool}

theorem entryAt_eq_some {e : Entry} :
    pool.entryAt a = some e ↔ e ∈ pool.order.toList ∧ e.1 = a := by
  rw [entryAt, Option.map_eq_some_iff]
  constructor
  · rintro ⟨x, hx, rfl⟩
    exact ⟨ExtTreeMap.mem_toList_iff_getElem?_eq_some.mpr hx, rfl⟩
  · rintro ⟨he, rfl⟩
    exact ⟨e.2, ExtTreeMap.mem_toList_iff_getElem?_eq_some.mp he, rfl⟩

theorem length_arrivals : (arrivals pool.queues).length ≤ pool.order.size := by
  rw [arrivals_queues.length_eq, List.length_map, ExtTreeMap.length_toList]

theorem filterMap_entryAt : ∀ {l : List Entry}, (∀ e ∈ l, e ∈ pool.order.toList) →
    (l.map Prod.fst).filterMap pool.entryAt = l
  | [], _ => rfl
  | e :: l, h => by
    have he : pool.entryAt e.1 = some e := entryAt_eq_some.mpr ⟨h e (List.mem_cons_self), rfl⟩
    rw [List.map_cons, List.filterMap_cons_some he,
      filterMap_entryAt fun e' he' => h e' (List.mem_cons_of_mem _ he')]

theorem turns_queues : (turns pool.order.size (Mempool.heads pool.queues) pool.queues).Perm
    (pool.order.toList.map Prod.fst) :=
  (turns_perm _ ready_queues length_arrivals).trans arrivals_queues

/-- Every pending entry has one turn. -/
theorem turnOrder_perm : pool.turnOrder.Perm pool.order.toList := by
  have hperm : pool.turnOrder.Perm ((pool.order.toList.map Prod.fst).filterMap pool.entryAt) :=
    turns_queues.filterMap _
  rwa [filterMap_entryAt fun _ he => he] at hperm

/-- One sender's turns come by sequence. -/
theorem turnOrder_pairwise : pool.turnOrder.Pairwise fun e e' =>
    (pool.queueKey e).1 = (pool.queueKey e').1 → (pool.queueKey e).2 ≤ (pool.queueKey e').2 := by
  refine List.pairwise_filterMap.mpr ?_
  refine (turns_pairwise _ ready_queues sorted_queues length_arrivals).imp ?_
  intro a a' hle e he e' he' hkey
  obtain ⟨hmem, rfl⟩ := entryAt_eq_some.mp he
  obtain ⟨hmem', rfl⟩ := entryAt_eq_some.mp he'
  rw [owner_of_mem hmem, owner_of_mem hmem'] at hle
  rcases hle hkey with hlt | ⟨heq, -⟩
  · exact hlt.le
  · exact heq.le

/-! ## The batch -/

def txSize (e : Entry) : Nat := e.2.2.length

/-- The entries that get in of those whose turns come first. -/
def chosen (maxTxs maxBytes : Nat) (before : List Entry) : List Entry :=
  Greedy.select txSize maxTxs maxBytes before

theorem peekLoop_eq (maxTxs maxBytes : Nat) : ∀ (n : Nat) (heads : Heads) (queues : Queues)
    (out : List Bytes) (bytes : Nat), bytes ≤ maxBytes →
    (∀ a ∈ turns n heads queues, ∃ e, pool.entryAt a = some e) →
    pool.peekLoop maxTxs maxBytes n heads queues out bytes =
      out ++ (Greedy.select txSize (maxTxs - out.length) (maxBytes - bytes)
        ((turns n heads queues).filterMap pool.entryAt)).map fun e => e.2.2
  | 0, heads, queues, out, bytes, _, _ => by simp [peekLoop, turns, Greedy.select]
  | n + 1, heads, queues, out, bytes, hbytes, hall => by
    rw [peekLoop]
    split
    · rename_i hroom
      rw [turns] at hall ⊢
      cases hnext : nextTurn heads queues with
      | none => simp [Greedy.select]
      | some r =>
        obtain ⟨arrival, heads', queues'⟩ := r
        rw [hnext] at hall
        dsimp only at hall ⊢
        obtain ⟨e, he⟩ := hall arrival (List.mem_cons_self)
        have ih := fun out bytes hbytes => peekLoop_eq maxTxs maxBytes n heads' queues' out bytes
          hbytes fun a ha => hall a (List.mem_cons_of_mem _ ha)
        obtain ⟨hmem, rfl⟩ := entryAt_eq_some.mp he
        rw [List.filterMap_cons_some he,
          ExtTreeMap.mem_toList_iff_getElem?_eq_some.mp hmem]
        dsimp only
        obtain ⟨p, hp⟩ := Nat.exists_eq_succ_of_ne_zero (Nat.sub_ne_zero_of_lt hroom)
        split
        · rename_i hover
          have hover' : maxBytes - bytes < txSize e := (Nat.sub_lt_iff_lt_add' hbytes).mpr hover
          rw [ih out bytes hbytes, Greedy.select_cons_over hover']
        · rename_i hfits
          have hfits' : ¬ maxBytes - bytes < txSize e :=
            fun h => hfits ((Nat.sub_lt_iff_lt_add' hbytes).mp h)
          have hp' : maxTxs - (out ++ [e.2.2]).length = p := by
            rw [List.length_append, List.length_singleton]
            omega
          have hb' : maxBytes - (bytes + e.2.2.length) = maxBytes - bytes - txSize e :=
            Nat.sub_add_eq ..
          rw [ih _ _ (Nat.not_lt.mp hfits), hp, Greedy.select_cons_fits hfits', hp', hb',
            List.map_cons, List.append_assoc, List.singleton_append]
    · rename_i hfull
      rw [Nat.sub_eq_zero_of_le (Nat.not_lt.mp hfull), Greedy.select_zero]
      simp

/-- **The batch** is the greedy selection in the order of turns. -/
theorem peekBatch_eq (maxTxs maxBytes : Nat) :
    pool.peekBatch maxTxs maxBytes =
      (chosen maxTxs maxBytes pool.turnOrder).map fun e => e.2.2 := by
  have hall : ∀ a ∈ turns pool.order.size (Mempool.heads pool.queues) pool.queues,
      ∃ e, pool.entryAt a = some e := by
    intro a ha
    obtain ⟨e, he, rfl⟩ := List.mem_map.mp (turns_queues.mem_iff.mp ha)
    exact ⟨e, entryAt_eq_some.mpr ⟨he, rfl⟩⟩
  have h := peekLoop_eq maxTxs maxBytes pool.order.size _ _ [] 0 (Nat.zero_le _) hall
  rwa [List.nil_append, List.length_nil, Nat.sub_zero, Nat.sub_zero] at h

/-! ## Senders and sequences -/

def snapshot (pool : Mempool) : List Bytes := pool.order.toList.map fun e => e.2.2

section Sequences

variable (H : Bytes → Digest) (pool)

/-- The sequence of a transaction whose metadata names `sender`. -/
def sequenceOf (sender : String) (tx : Bytes) : Option Nat :=
  match pool.metas[(H tx).bytes]? with
  | some m => if m.sender = sender then some m.sequence else none
  | none => none

def sequences (sender : String) (txs : List Bytes) : List Nat :=
  txs.filterMap (pool.sequenceOf H sender)

/-- A transaction of `sender` with sequence `b` gets in at its turn, after all
those with the smaller sequence `a` were over the byte budget at theirs. -/
structure Leapfrogs (maxTxs maxBytes : Nat) (sender : String) (a b : Nat) : Prop where
  less : a < b
  pending : a ∈ pool.sequences H sender pool.snapshot
  passed : ∀ before e after, pool.turnOrder = before ++ e :: after →
    pool.sequenceOf H sender e.2.2 = some a →
      maxBytes < Greedy.total txSize (chosen maxTxs maxBytes before) + txSize e
  taken : ∃ before e after, pool.turnOrder = before ++ e :: after ∧
    pool.sequenceOf H sender e.2.2 = some b ∧ (chosen maxTxs maxBytes before).length < maxTxs ∧
      Greedy.total txSize (chosen maxTxs maxBytes before) + txSize e ≤ maxBytes

variable {H pool}

variable {e : Entry} {maxTxs maxBytes : Nat}

theorem Valid.queueKey_of_sequenceOf (h : Valid H pool) (he : e ∈ pool.order.toList)
    {sender : String} {n : Nat} (hseq : pool.sequenceOf H sender e.2.2 = some n) :
    pool.queueKey e = (sender, n) := by
  unfold sequenceOf at hseq
  rw [← h.hashed e he] at hseq
  unfold queueKey
  cases hm : pool.metas[e.2.1]? with
  | none =>
    rw [hm] at hseq
    cases hseq
  | some m =>
    rw [hm] at hseq
    dsimp only at hseq ⊢
    split at hseq
    · rename_i hsender
      rw [hsender, Option.some.inj hseq]
    · cases hseq

/-- Pending transactions are told apart by their bytes. -/
theorem Valid.eq_of_tx_eq (h : Valid H pool) {e' : Entry} (he : e ∈ pool.order.toList)
    (he' : e' ∈ pool.order.toList) (htx : e.2.2 = e'.2.2) : e = e' := by
  have hhash : e.2.1 = e'.2.1 := by rw [h.hashed e he, h.hashed e' he', htx]
  have hindex := h.index_of_mem he
  rw [hhash, h.index_of_mem he'] at hindex
  exact Prod.ext (Option.some.inj hindex).symm (Prod.ext hhash htx)

theorem chosen_sublist (maxTxs maxBytes : Nat) (l : List Entry) :
    (chosen maxTxs maxBytes l).Sublist l :=
  Greedy.select_sublist maxTxs maxBytes l

theorem mem_order_of_chosen (he : e ∈ chosen maxTxs maxBytes pool.turnOrder) :
    e ∈ pool.order.toList :=
  turnOrder_perm.mem_iff.mp ((chosen_sublist _ _ _).mem he)

theorem mem_sequences_peekBatch {sender : String} {n : Nat} :
    n ∈ pool.sequences H sender (pool.peekBatch maxTxs maxBytes) ↔
      ∃ e ∈ chosen maxTxs maxBytes pool.turnOrder, pool.sequenceOf H sender e.2.2 = some n := by
  rw [peekBatch_eq, sequences, List.mem_filterMap]
  constructor
  · rintro ⟨tx, htx, hn⟩
    obtain ⟨e, he, rfl⟩ := List.mem_map.mp htx
    exact ⟨e, he, hn⟩
  · rintro ⟨e, he, hn⟩
    exact ⟨e.2.2, List.mem_map.mpr ⟨e, he, rfl⟩, hn⟩

theorem Valid.peekBatch_nodup (h : Valid H pool) (maxTxs maxBytes : Nat) :
    (pool.peekBatch maxTxs maxBytes).Nodup := by
  rw [peekBatch_eq]
  have hnodup : (chosen maxTxs maxBytes pool.turnOrder).Nodup :=
    (chosen_sublist _ _ _).nodup
      (turnOrder_perm.nodup_iff.mpr (OrdMap.ascending_toList pool.order).nodup)
  exact hnodup.map_on fun e he e' he' htx =>
    h.eq_of_tx_eq (mem_order_of_chosen he) (mem_order_of_chosen he') htx

theorem mem_snapshot_of_peekBatch {tx : Bytes} (htx : tx ∈ pool.peekBatch maxTxs maxBytes) :
    tx ∈ pool.snapshot := by
  rw [peekBatch_eq] at htx
  obtain ⟨e, he, rfl⟩ := List.mem_map.mp htx
  exact List.mem_map.mpr ⟨e, mem_order_of_chosen he, rfl⟩

theorem peekBatch_limits (maxTxs maxBytes : Nat) :
    (pool.peekBatch maxTxs maxBytes).length ≤ maxTxs ∧
      ((pool.peekBatch maxTxs maxBytes).map List.length).sum ≤ maxBytes := by
  rw [peekBatch_eq, List.length_map, List.map_map]
  exact ⟨Greedy.length_select_le _ _ _, Greedy.total_select_le _ _ _⟩

theorem Valid.sequences_ascending (h : Valid H pool) (maxTxs maxBytes : Nat) (sender : String) :
    (pool.sequences H sender (pool.peekBatch maxTxs maxBytes)).Pairwise (· ≤ ·) := by
  rw [peekBatch_eq, sequences, List.filterMap_map]
  refine List.pairwise_filterMap.mpr ?_
  refine (turnOrder_pairwise.sublist (chosen_sublist _ _ _)).imp_of_mem fun {e e'} he he' hle n hn n' hn' => ?_
  rw [h.queueKey_of_sequenceOf (mem_order_of_chosen he) hn,
    h.queueKey_of_sequenceOf (mem_order_of_chosen he') hn'] at hle
  exact hle rfl

/-- The batch has no gap in a sender's sequences exactly if nobody leapfrogs a
sequence of theirs that was over the budget. -/
theorem Valid.initial_iff (h : Valid H pool) (maxTxs maxBytes : Nat) :
    (∀ sender, ∀ b ∈ pool.sequences H sender (pool.peekBatch maxTxs maxBytes),
      ∀ a ∈ pool.sequences H sender pool.snapshot, a < b →
        a ∈ pool.sequences H sender (pool.peekBatch maxTxs maxBytes)) ↔
      ∀ sender a b, ¬ pool.Leapfrogs H maxTxs maxBytes sender a b := by
  constructor
  · rintro hinit sender a b ⟨hless, hpending, hover, before, e, after, hsplit, hb, hplace, hfits⟩
    have htaken : b ∈ pool.sequences H sender (pool.peekBatch maxTxs maxBytes) :=
      mem_sequences_peekBatch.mpr
        ⟨e, Greedy.mem_select_iff.mpr ⟨before, after, hsplit, hplace, hfits⟩, hb⟩
    obtain ⟨e', he', ha⟩ := mem_sequences_peekBatch.mp (hinit sender b htaken a hpending hless)
    obtain ⟨before', after', hsplit', -, hfits'⟩ := Greedy.mem_select_iff.mp he'
    exact absurd hfits' (Nat.not_le.mpr (hover before' e' after' hsplit' ha))
  · intro hno sender b hb a ha hless
    by_contra hout
    obtain ⟨e, he, heb⟩ := mem_sequences_peekBatch.mp hb
    obtain ⟨before, after, hsplit, hplace, hfits⟩ := Greedy.mem_select_iff.mp he
    refine hno sender a b ⟨hless, ha, fun before' e' after' hsplit' hea => ?_,
      before, e, after, hsplit, heb, hplace, hfits⟩
    by_contra hfits'
    have hmem : ∀ x ∈ pool.turnOrder, x ∈ pool.order.toList := fun x => turnOrder_perm.mem_iff.mp
    have hkey := h.queueKey_of_sequenceOf (mem_order_of_chosen he) heb
    have hkey' := h.queueKey_of_sequenceOf
      (hmem e' (hsplit' ▸ List.mem_append_right _ (List.mem_cons_self))) hea
    -- the smaller sequence has its turn first: otherwise the turns of one sender are out of order
    have hfirst : ∃ mid, before = before' ++ e' :: mid := by
      have hne : e ≠ e' := by
        rintro rfl
        rw [hkey] at hkey'
        exact hless.ne (congrArg Prod.snd hkey').symm
      have hturns : pool.turnOrder.Pairwise _ := turnOrder_pairwise
      rcases List.append_eq_append_iff.mp (hsplit.symm.trans hsplit') with
        ⟨mid, rfl, hrest⟩ | ⟨mid, hbefore, hrest⟩
      · cases mid with
        | nil => exact absurd (List.cons.inj hrest).1 hne
        | cons x mid =>
          obtain ⟨rfl, rfl⟩ := List.cons.inj hrest
          rw [hsplit] at hturns
          have hle := (List.pairwise_cons.mp (List.pairwise_append.mp hturns).2.1).1 e'
            (List.mem_append_right _ (List.mem_cons_self))
          rw [hkey, hkey'] at hle
          exact absurd (hle rfl) (Nat.not_le.mpr hless)
      · cases mid with
        | nil => exact absurd (List.cons.inj hrest).1.symm hne
        | cons x mid =>
          obtain ⟨rfl, -⟩ := List.cons.inj hrest
          exact ⟨mid, hbefore⟩
    -- and found no place, although the batch is not full at the later turn
    have hfull : maxTxs ≤ (chosen maxTxs maxBytes before').length := by
      by_contra hroom
      exact hout (mem_sequences_peekBatch.mpr ⟨e', Greedy.mem_select_iff.mpr
        ⟨before', after', hsplit', Nat.not_le.mp hroom, Nat.not_lt.mp hfits'⟩, hea⟩)
    obtain ⟨mid, rfl⟩ := hfirst
    have hmono : (chosen maxTxs maxBytes before').length ≤
        (chosen maxTxs maxBytes (before' ++ e' :: mid)).length :=
      Greedy.length_select_append _ _ _ _
    exact absurd (hfull.trans hmono) (Nat.not_le.mpr hplace)

variable (H)

/-- **Proposals.** Of any pool that was filled by calls, a batch holds distinct
pending transactions within the limits, each sender's by ascending sequence;
and it skips no sequence of a sender below one it holds, exactly if nobody
leapfrogs. -/
theorem peekBatch_prefix_iff (maxPending maxTotalBytes maxTxBytes maxPerSender : Nat)
    (calls : List Call) (pool : Mempool)
    (hpool : pool = calls.foldl (call H)
      ((withLimits maxPending maxTotalBytes maxTxBytes).withSenderCap maxPerSender))
    (maxTxs maxBytes : Nat) :
    ((pool.peekBatch maxTxs maxBytes).Nodup ∧
        (∀ tx ∈ pool.peekBatch maxTxs maxBytes, tx ∈ pool.snapshot) ∧
        (pool.peekBatch maxTxs maxBytes).length ≤ maxTxs ∧
        ((pool.peekBatch maxTxs maxBytes).map List.length).sum ≤ maxBytes ∧
        ∀ sender, (pool.sequences H sender (pool.peekBatch maxTxs maxBytes)).Pairwise (· ≤ ·)) ∧
      ((∀ sender, ∀ b ∈ pool.sequences H sender (pool.peekBatch maxTxs maxBytes),
        ∀ a ∈ pool.sequences H sender pool.snapshot, a < b →
          a ∈ pool.sequences H sender (pool.peekBatch maxTxs maxBytes)) ↔
        ∀ sender a b, ¬ pool.Leapfrogs H maxTxs maxBytes sender a b) := by
  have h : Valid H pool := hpool ▸ Valid.calls H calls (Valid.withLimits _ _ _ _)
  obtain ⟨hlen, hbytes⟩ := pool.peekBatch_limits maxTxs maxBytes
  exact ⟨⟨h.peekBatch_nodup maxTxs maxBytes, fun _ => mem_snapshot_of_peekBatch, hlen, hbytes,
    h.sequences_ascending maxTxs maxBytes⟩, h.initial_iff maxTxs maxBytes⟩

/-- Two transactions of one sender; the first does not fit into five bytes. -/
def aliceCalls : List Call :=
  [.submitChecked [1, 1, 1, 1, 1, 1] (some ⟨"alice", 0, false⟩),
    .submitChecked [2, 2] (some ⟨"alice", 1, false⟩)]

def alicePool : Mempool := aliceCalls.foldl (call sha256) ((withLimits 9 99 9).withSenderCap 9)

theorem peekBatch_prefix_iff_alice :
    alicePool.peekBatch 10 99 = alicePool.snapshot ∧
      ∀ sender a b, ¬ alicePool.Leapfrogs sha256 10 99 sender a b := by
  have hall : alicePool.peekBatch 10 99 = alicePool.snapshot := by decide +kernel
  refine ⟨hall, (peekBatch_prefix_iff sha256 9 99 9 9 aliceCalls alicePool rfl 10 99).2.mp ?_⟩
  rw [hall]
  exact fun sender b _ a ha _ => ha

/-- The batch holds sequence 1 and not sequence 0, which is pending. -/
theorem alicePool_skips :
    alicePool.peekBatch 10 5 = [[2, 2]] ∧
      alicePool.sequences sha256 "alice" (alicePool.peekBatch 10 5) = [1] ∧
      alicePool.sequences sha256 "alice" alicePool.snapshot = [0, 1] := by
  refine ⟨?_, ?_, ?_⟩
  all_goals decide +kernel

end Sequences

end Mempool

end LayerSdk
