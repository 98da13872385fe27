import Mathlib.Algebra.GroupWithZero.Nat
import LayerSdk.KeyIndex
import LayerSdk.Sha256

/-!
# The mempool

The pool of one node: transactions in arrival order, an index by hash, and
beside them what the submitter knew of sender and sequence. `submitChecked`
and `remove` are the two ways it changes.

`Valid` is what the four maps and two counters say about each other, and
`valid_run` that it holds after any calls.
-/

namespace LayerSdk

open Std

def defaultMaxTxBytes : Nat := 2 * 1024 * 1024

def maxStoreCodeTxBytes : Nat := 8 * 1024 * 1024

def defaultMaxPoolBytes : Nat := 64 * 1024 * 1024

def defaultMaxPerSender : Nat := 64

inductive SubmitError where
  | duplicate
  | tooLarge
  | full
  | senderFull
deriving DecidableEq, Repr

structure TxMeta where
  sender : String
  sequence : Nat
  storeCode : Bool
deriving DecidableEq, Repr

structure Mempool where
  order : ExtTreeMap Nat (Bytes × Bytes)
  index : ExtTreeMap Bytes Nat
  metas : ExtTreeMap Bytes TxMeta
  senderCounts : ExtTreeMap String Nat
  nextSeq : Nat
  totalBytes : Nat
  maxPending : Nat
  maxTotalBytes : Nat
  maxTxBytes : Nat
  maxPerSender : Nat

/-- How a submission ends. The counters are checked additions: one that
overflows panics. -/
inductive Submitted where
  | accepted (hash : Bytes)
  | rejected (e : SubmitError)
  | panicked
deriving DecidableEq, Repr

namespace Mempool

def withLimits (maxPending maxTotalBytes maxTxBytes : Nat) : Mempool where
  order := ∅
  index := ∅
  metas := ∅
  senderCounts := ∅
  nextSeq := 0
  totalBytes := 0
  maxPending := maxPending
  maxTotalBytes := maxTotalBytes
  maxTxBytes := maxTxBytes
  maxPerSender := defaultMaxPerSender

def withSenderCap (pool : Mempool) (maxPerSender : Nat) : Mempool :=
  { pool with maxPerSender := maxPerSender }

def senderCount (pool : Mempool) (sender : String) : Nat := pool.senderCounts[sender]?.getD 0

/-- The size limit of one transaction. -/
def txCap (pool : Mempool) : Option TxMeta → Nat
  | some m => if m.storeCode then maxStoreCodeTxBytes else pool.maxTxBytes
  | none => pool.maxTxBytes

def senderFull (pool : Mempool) : Option TxMeta → Bool
  | some m => pool.maxPerSender ≤ pool.senderCount m.sender
  | none => false

/-- The metadata part of an accepted submission. -/
def noteMeta (pool : Mempool) (hash : Bytes) : Option TxMeta → Mempool
  | some m =>
    { pool with
      senderCounts := pool.senderCounts.insert m.sender (pool.senderCount m.sender + 1)
      metas := pool.metas.insert hash m }
  | none => pool

variable (H : Bytes → Digest)

def submitChecked (pool : Mempool) (tx : Bytes) (txMeta : Option TxMeta) : Submitted × Mempool :=
  if pool.txCap txMeta < tx.length then (.rejected .tooLarge, pool)
  else
    let hash := (H tx).bytes
    if pool.index.contains hash then (.rejected .duplicate, pool)
    else if pool.senderFull txMeta then (.rejected .senderFull, pool)
    else if pool.maxPending ≤ pool.order.size ∨
        pool.maxTotalBytes < min (pool.totalBytes + tx.length) (2 ^ 64 - 1) then
      (.rejected .full, pool)
    else if 2 ^ 64 ≤ pool.nextSeq + 1 then (.panicked, pool)
    else if 2 ^ 64 ≤ pool.totalBytes + tx.length then
      (.panicked, { pool with nextSeq := pool.nextSeq + 1 })
    else
      (.accepted hash,
        { pool with
          nextSeq := pool.nextSeq + 1
          totalBytes := pool.totalBytes + tx.length
          index := pool.index.insert hash pool.nextSeq
          order := pool.order.insert pool.nextSeq (hash, tx) }.noteMeta hash txMeta)

/-- The metadata part of a removal. -/
def dropMeta (pool : Mempool) (hash : Bytes) : Mempool :=
  match pool.metas[hash]? with
  | none => pool
  | some m =>
    { pool with
      metas := pool.metas.erase hash
      senderCounts :=
        match pool.senderCounts[m.sender]? with
        | none => pool.senderCounts
        | some c =>
          if c - 1 = 0 then pool.senderCounts.erase m.sender
          else pool.senderCounts.insert m.sender (c - 1) }

def remove (pool : Mempool) (hash : Bytes) : Bool × Mempool :=
  match pool.index[hash]? with
  | none => (false, pool)
  | some seq =>
    let pool := { pool with index := pool.index.erase hash }
    let pool :=
      match pool.order[seq]? with
      | none => pool
      | some (_, tx) =>
        { pool with order := pool.order.erase seq, totalBytes := pool.totalBytes - tx.length }
    (true, pool.dropMeta hash)

def removeCommitted (pool : Mempool) : List Bytes → Nat × Mempool
  | [] => (0, pool)
  | hash :: hashes =>
    let (present, pool) := pool.remove hash
    let (n, pool) := pool.removeCommitted hashes
    ((if present then 1 else 0) + n, pool)

/-! ## What the parts of a pool say about each other -/

/-- The metadata of a pending entry. -/
def metaOf (pool : Mempool) (e : Nat × Bytes × Bytes) : Option TxMeta := pool.metas[e.2.1]?

/-- The entry has metadata that names `sender`. -/
def sentBy (pool : Mempool) (sender : String) (e : Nat × Bytes × Bytes) : Bool :=
  (pool.metaOf e).any (·.sender == sender)

structure Valid (pool : Mempool) : Prop where
  -- hash index and queue are inverse
  inverse : KeyIndex.Indexes (fun e => some e.1) pool.order pool.index
  hashed : ∀ e ∈ pool.order.toList, e.2.1 = (H e.2.2).bytes
  arrived : ∀ e ∈ pool.order.toList, e.1 < pool.nextSeq
  -- metadata only for pending hashes
  pending : ∀ (hash : Bytes) (m : TxMeta), pool.metas[hash]? = some m →
    ∃ seq, pool.index[hash]? = some seq
  bytes : pool.totalBytes = (pool.order.toList.map fun e => e.2.2.length).sum
  counts : ∀ s, pool.senderCount s = pool.order.toList.countP (pool.sentBy s)
  -- limits
  size : pool.order.size ≤ pool.maxPending
  room : pool.totalBytes ≤ pool.maxTotalBytes
  caps : ∀ e ∈ pool.order.toList, e.2.2.length ≤ pool.txCap (pool.metaOf e)
  senders : ∀ s, pool.senderCount s ≤ pool.maxPerSender

variable {H} {pool : Mempool}

theorem Valid.withLimits (a b c d : Nat) : Valid H ((withLimits a b c).withSenderCap d) where
  inverse := KeyIndex.Indexes.empty
  hashed e he := by simp [Mempool.withLimits, withSenderCap] at he
  arrived e he := by simp [Mempool.withLimits, withSenderCap] at he
  pending hash m h := by simp [Mempool.withLimits, withSenderCap] at h
  bytes := by simp [Mempool.withLimits, withSenderCap]
  counts s := by simp [Mempool.withLimits, withSenderCap, senderCount]
  size := by simp [Mempool.withLimits, withSenderCap]
  room := Nat.zero_le _
  caps e he := by simp [Mempool.withLimits, withSenderCap] at he
  senders s := by simp [Mempool.withLimits, withSenderCap, senderCount]

/-! ## Submitting -/

/-- An accepted transaction: what was checked, and the pool after it. -/
structure Admits (H : Bytes → Digest) (pool : Mempool) (tx : Bytes) (txMeta : Option TxMeta)
    (pool' : Mempool) : Prop where
  cap : tx.length ≤ pool.txCap txMeta
  absent : pool.index[(H tx).bytes]? = none
  sender : pool.senderFull txMeta = false
  size : pool.order.size < pool.maxPending
  room : pool.totalBytes + tx.length ≤ pool.maxTotalBytes
  after : pool' = { pool with
    nextSeq := pool.nextSeq + 1
    totalBytes := pool.totalBytes + tx.length
    index := pool.index.insert (H tx).bytes pool.nextSeq
    order := pool.order.insert pool.nextSeq ((H tx).bytes, tx) }.noteMeta (H tx).bytes txMeta

/-- What a submission does. -/
theorem submitChecked_cases (H : Bytes → Digest) (pool : Mempool) (tx : Bytes)
    (txMeta : Option TxMeta) :
    (∃ e, submitChecked H pool tx txMeta = (.rejected e, pool)) ∨
      (∃ n ≤ 1, submitChecked H pool tx txMeta =
        (.panicked, { pool with nextSeq := pool.nextSeq + n })) ∨
      ∃ pool', submitChecked H pool tx txMeta = (.accepted (H tx).bytes, pool') ∧
        Admits H pool tx txMeta pool' := by
  unfold submitChecked
  split
  · exact .inl ⟨_, rfl⟩
  rename_i hcap
  dsimp only
  split
  · exact .inl ⟨_, rfl⟩
  rename_i habsent
  split
  · exact .inl ⟨_, rfl⟩
  rename_i hsender
  split
  · exact .inl ⟨_, rfl⟩
  split
  · exact .inr (.inl ⟨0, by omega, rfl⟩)
  split
  · exact .inr (.inl ⟨1, Nat.le_refl 1, rfl⟩)
  refine .inr (.inr ⟨_, rfl, Nat.not_lt.mp hcap, ?_, ?_, ?_, ?_, rfl⟩)
  · rwa [ExtTreeMap.contains_eq_isSome_getElem?, Option.not_isSome_iff_eq_none] at habsent
  · simpa using hsender
  · omega
  · omega

section Meta

variable (pool) (hash : Bytes)

theorem senderCount_noteMeta (txMeta : Option TxMeta) (s : String) :
    (pool.noteMeta hash txMeta).senderCount s =
      pool.senderCount s + if txMeta.any (·.sender == s) then 1 else 0 := by
  cases txMeta with
  | none => simp [noteMeta]
  | some m =>
    by_cases hs : m.sender = s
    · simp [noteMeta, senderCount, hs]
    · simp [noteMeta, senderCount, ExtTreeMap.getElem?_insert, hs]

theorem metas_noteMeta (txMeta : Option TxMeta) (hnone : pool.metas[hash]? = none) (h : Bytes) :
    (pool.noteMeta hash txMeta).metas[h]? = if hash = h then txMeta else pool.metas[h]? := by
  cases txMeta with
  | none =>
    split
    · rename_i heq
      rw [← heq]
      exact hnone
    · rfl
  | some m => simp [noteMeta, ExtTreeMap.getElem?_insert]

theorem senderCount_dropMeta (s : String) :
    (pool.dropMeta hash).senderCount s =
      pool.senderCount s - if (pool.metas[hash]?).any (·.sender == s) then 1 else 0 := by
  unfold dropMeta
  cases hm : pool.metas[hash]? with
  | none => simp
  | some m =>
    cases hc : pool.senderCounts[m.sender]? with
    | none =>
      by_cases hs : m.sender = s
      · simp [senderCount, ← hs, hc]
      · simp [senderCount, hc, hs]
    | some c =>
      by_cases hs : m.sender = s
      · by_cases h0 : c - 1 = 0 <;> simp [senderCount, ← hs, hc, h0]
      · by_cases h0 : c - 1 = 0 <;>
          simp [senderCount, hc, h0, ExtTreeMap.getElem?_erase, ExtTreeMap.getElem?_insert, hs]

theorem metas_dropMeta (h : Bytes) :
    (pool.dropMeta hash).metas[h]? = if hash = h then none else pool.metas[h]? := by
  unfold dropMeta
  cases hm : pool.metas[hash]? with
  | none =>
    by_cases heq : hash = h
    · rw [if_pos heq, ← heq, hm]
    · rw [if_neg heq]
  | some m => simp [ExtTreeMap.getElem?_erase]

/-- Only the notes of the senders change. -/
theorem exists_noteMeta (txMeta : Option TxMeta) : ∃ metas senderCounts,
    pool.noteMeta hash txMeta = { pool with metas, senderCounts } := by
  cases txMeta <;> exact ⟨_, _, rfl⟩

theorem exists_dropMeta : ∃ metas senderCounts,
    pool.dropMeta hash = { pool with metas, senderCounts } := by
  unfold dropMeta
  split <;> exact ⟨_, _, rfl⟩

end Meta

/-- A pending entry is found under its hash. -/
theorem Valid.index_of_mem (h : Valid H pool) {e : Nat × Bytes × Bytes}
    (he : e ∈ pool.order.toList) : pool.index[e.2.1]? = some e.1 :=
  (h.inverse e.2.1 e.1).mpr
    ⟨e.2, ExtTreeMap.mem_toList_iff_getElem?_eq_some.mp he, rfl⟩

theorem Valid.getElem?_nextSeq (h : Valid H pool) : pool.order[pool.nextSeq]? = none := by
  refine Option.eq_none_iff_forall_ne_some.mpr fun e hget => ?_
  have hlt := h.arrived _ (ExtTreeMap.mem_toList_iff_getElem?_eq_some.mpr hget)
  exact absurd hlt (Nat.lt_irrefl _)

theorem Valid.admits (h : Valid H pool) {tx : Bytes} {txMeta : Option TxMeta} {pool' : Mempool}
    (hadm : Admits H pool tx txMeta pool') : Valid H pool' := by
  obtain ⟨hcap, habsent, hsender, hsize, hroom, rfl⟩ := hadm
  set hash := (H tx).bytes with hhash
  have hfree := h.getElem?_nextSeq
  have hperm := OrdMap.toList_insert_perm hfree (hash, tx)
  have hnometa : pool.metas[hash]? = none := by
    refine Option.eq_none_iff_forall_ne_some.mpr fun m hm => ?_
    obtain ⟨seq, hseq⟩ := h.pending hash m hm
    rw [habsent] at hseq
    cases hseq
  have hne : ∀ e ∈ pool.order.toList, hash ≠ e.2.1 := by
    intro e he heq
    have hindex := h.index_of_mem he
    rw [← heq, habsent] at hindex
    cases hindex
  set base : Mempool := { pool with
    nextSeq := pool.nextSeq + 1
    totalBytes := pool.totalBytes + tx.length
    index := pool.index.insert hash pool.nextSeq
    order := pool.order.insert pool.nextSeq (hash, tx) } with hbase
  have hmetas := metas_noteMeta base hash txMeta hnometa
  have hcounts := senderCount_noteMeta base hash txMeta
  obtain ⟨metas, senderCounts, hpool⟩ := exists_noteMeta base hash txMeta
  rw [hpool] at hmetas hcounts ⊢
  set pool' : Mempool := { base with metas, senderCounts } with hpool'
  have hold : ∀ e ∈ pool.order.toList, pool'.metaOf e = pool.metaOf e :=
    fun e he => (hmetas e.2.1).trans (if_neg (hne e he))
  have hnew : pool'.metaOf (pool.nextSeq, hash, tx) = txMeta := (hmetas hash).trans (if_pos rfl)
  have hmem : ∀ e, e ∈ pool'.order.toList ↔
      e = (pool.nextSeq, hash, tx) ∨ e ∈ pool.order.toList :=
    fun e => hperm.mem_iff.trans List.mem_cons
  refine ⟨?_, ?_, ?_, ?_, ?_, ?_, ?_, hroom, ?_, ?_⟩
  · refine h.inverse.insert hfree fun k hk j hj => ?_
    cases hk
    rw [habsent] at hj
    cases hj
  · intro e he
    rcases (hmem e).mp he with rfl | he
    · rfl
    · exact h.hashed e he
  · intro e he
    rcases (hmem e).mp he with rfl | he
    · exact Nat.lt_succ_self _
    · exact Nat.lt_succ_of_lt (h.arrived e he)
  · intro h' m hm
    rw [hmetas] at hm
    split at hm
    · rename_i heq
      exact ⟨pool.nextSeq, by rw [← heq]; exact ExtTreeMap.getElem?_insert_self⟩
    · obtain ⟨seq, hseq⟩ := h.pending h' m hm
      rename_i heq
      refine ⟨seq, ?_⟩
      rw [← hseq]
      exact ExtTreeMap.getElem?_insert.trans (if_neg (by simpa using heq))
  · change pool.totalBytes + tx.length = _
    rw [(hperm.map _).sum_nat, List.map_cons, List.sum_cons, ← h.bytes]
    exact Nat.add_comm _ _
  · intro s
    rw [hcounts, hperm.countP_eq, List.countP_cons]
    have hcount : pool.order.toList.countP (pool'.sentBy s) =
        pool.order.toList.countP (pool.sentBy s) :=
      List.countP_congr fun e he => by rw [sentBy, hold e he, ← sentBy]
    rw [hcount, ← h.counts, sentBy, hnew]
    rfl
  · exact ExtTreeMap.size_insert_le.trans hsize
  · intro e he
    rw [show pool'.txCap = pool.txCap from rfl]
    rcases (hmem e).mp he with rfl | he
    · rw [hnew]
      exact hcap
    · rw [hold e he]
      exact h.caps e he
  · intro s
    rw [hcounts]
    cases txMeta with
    | none => exact h.senders s
    | some m =>
      by_cases hs : m.sender = s
      · subst hs
        have hlt : pool.senderCount m.sender < pool.maxPerSender := by
          simpa [senderFull] using hsender
        rw [if_pos (by simp)]
        exact hlt
      · rw [if_neg (by simpa using hs)]
        exact h.senders s

theorem Valid.submitChecked (h : Valid H pool) (tx : Bytes) (txMeta : Option TxMeta) :
    Valid H (submitChecked H pool tx txMeta).2 := by
  rcases submitChecked_cases H pool tx txMeta with ⟨e, he⟩ | ⟨n, -, hn⟩ | ⟨pool', hok, hadm⟩
  · rw [he]
    exact h
  · rw [hn]
    exact ⟨h.inverse, h.hashed, fun e he => Nat.lt_add_right n (h.arrived e he), h.pending, h.bytes,
      h.counts, h.size, h.room, h.caps, h.senders⟩
  · rw [hok]
    exact h.admits hadm

/-! ## Removing -/

theorem Valid.remove (h : Valid H pool) (hash : Bytes) : Valid H (pool.remove hash).2 := by
  unfold Mempool.remove
  cases hindex : pool.index[hash]? with
  | none => exact h
  | some seq =>
  obtain ⟨⟨hash', tx⟩, hget, hkey⟩ := (h.inverse hash seq).mp hindex
  obtain rfl : hash' = hash := Option.some.inj hkey
  dsimp only
  rw [hget]
  have hperm := OrdMap.toList_perm_erase hget
  have hmem : ∀ e, e ∈ (pool.order.erase seq).toList → e ∈ pool.order.toList :=
    fun e he => hperm.mem_iff.mpr (List.mem_cons_of_mem _ he)
  have hne : ∀ e ∈ (pool.order.erase seq).toList, hash' ≠ e.2.1 := by
    intro e he heq
    have hindex' := h.index_of_mem (hmem e he)
    rw [← heq, hindex] at hindex'
    have hgone := ExtTreeMap.mem_toList_iff_getElem?_eq_some.mp he
    rw [← Option.some.inj hindex', ExtTreeMap.getElem?_erase_self] at hgone
    cases hgone
  set base : Mempool := { pool with
    index := pool.index.erase hash'
    order := pool.order.erase seq
    totalBytes := pool.totalBytes - tx.length } with hbase
  have hmetas := metas_dropMeta base hash'
  have hcounts := senderCount_dropMeta base hash'
  obtain ⟨metas, senderCounts, hpool⟩ := exists_dropMeta base hash'
  rw [hpool] at hmetas hcounts ⊢
  set pool' : Mempool := { base with metas, senderCounts } with hpool'
  have hold : ∀ e ∈ (pool.order.erase seq).toList, pool'.metaOf e = pool.metaOf e :=
    fun e he => (hmetas e.2.1).trans (if_neg (hne e he))
  have hbytes : pool.totalBytes =
      tx.length + ((pool.order.erase seq).toList.map fun e => e.2.2.length).sum := by
    rw [h.bytes, (hperm.map _).sum_nat, List.map_cons, List.sum_cons]
  refine ⟨h.inverse.erase hget, fun e he => h.hashed e (hmem e he),
    fun e he => h.arrived e (hmem e he), ?_, Nat.sub_eq_of_eq_add' hbytes, ?_,
    ExtTreeMap.size_erase_le.trans h.size, (Nat.sub_le _ _).trans h.room, ?_, ?_⟩
  · intro h' m hm
    rw [hmetas] at hm
    split at hm
    · cases hm
    · rename_i heq
      obtain ⟨seq', hseq'⟩ := h.pending h' m hm
      refine ⟨seq', ?_⟩
      rw [← hseq']
      exact ExtTreeMap.getElem?_erase.trans (if_neg (by simpa using heq))
  · intro s
    have hs : base.senderCount s = _ := h.counts s
    rw [hcounts, hs, hperm.countP_eq, List.countP_cons]
    refine (Nat.add_sub_cancel ..).trans ?_
    exact List.countP_congr fun e he => by rw [sentBy, sentBy, hold e he]
  · intro e he
    rw [hold e he]
    exact h.caps e (hmem e he)
  · intro s
    rw [hcounts]
    exact (Nat.sub_le _ _).trans (h.senders s)

theorem Valid.removeCommitted : ∀ (hashes : List Bytes) {pool : Mempool}, Valid H pool →
    Valid H (pool.removeCommitted hashes).2
  | [], _, h => h
  | hash :: hashes, _, h => Valid.removeCommitted hashes (h.remove hash)

/-! ## Runs -/

variable (H)

inductive Call where
  | submitChecked (tx : Bytes) (txMeta : Option TxMeta)
  | remove (hash : Bytes)
  | removeCommitted (hashes : List Bytes)

def call (pool : Mempool) : Call → Mempool
  | .submitChecked tx txMeta => (pool.submitChecked H tx txMeta).2
  | .remove hash => (pool.remove hash).2
  | .removeCommitted hashes => (pool.removeCommitted hashes).2

theorem Valid.call (h : Valid H pool) (c : Call) : Valid H (pool.call H c) := by
  cases c with
  | submitChecked tx txMeta => exact h.submitChecked tx txMeta
  | remove hash => exact h.remove hash
  | removeCommitted hashes => exact h.removeCommitted hashes

theorem Valid.calls (calls : List Call) : ∀ {pool : Mempool}, Valid H pool →
    Valid H (calls.foldl (Mempool.call H) pool) := by
  induction calls with
  | nil => exact fun h => h
  | cons c calls ih => exact fun h => ih (h.call H c)

/-- **The pool's invariant.** It holds after any calls on a pool of any limits,
and a rejected submission changes nothing. -/
theorem valid_run (maxPending maxTotalBytes maxTxBytes maxPerSender : Nat) (calls : List Call) :
    Valid H (calls.foldl (call H)
        ((withLimits maxPending maxTotalBytes maxTxBytes).withSenderCap maxPerSender)) ∧
      ∀ (pool : Mempool) (tx : Bytes) (txMeta : Option TxMeta) (e : SubmitError),
        (pool.submitChecked H tx txMeta).1 = .rejected e →
          (pool.submitChecked H tx txMeta).2 = pool := by
  refine ⟨Valid.calls H calls (Valid.withLimits _ _ _ _), fun pool tx txMeta e hrej => ?_⟩
  rcases submitChecked_cases H pool tx txMeta with ⟨e', he⟩ | ⟨n, -, hn⟩ | ⟨pool', hok, -⟩
  · rw [he]
  · rw [hn] at hrej
    cases hrej
  · rw [hok] at hrej
    cases hrej

theorem valid_run_sample :
    Valid sha256 ([Call.submitChecked [1] none, .remove [2]].foldl (call sha256)
        ((withLimits 1 10 4).withSenderCap 1)) ∧
      ((withLimits 1 10 4).submitChecked sha256 [1, 2, 3, 4, 5] none).1 = .rejected .tooLarge ∧
      ((withLimits 1 10 4).submitChecked sha256 [1, 2, 3, 4, 5] none).2 = withLimits 1 10 4 := by
  obtain ⟨hvalid, hrejected⟩ :=
    valid_run sha256 1 10 4 1 [Call.submitChecked [1] none, .remove [2]]
  exact ⟨hvalid, rfl, hrejected _ [1, 2, 3, 4, 5] none .tooLarge rfl⟩

end Mempool

end LayerSdk
