import LayerSdk.Restart

/-!
# Certifying a payload

Before it votes for a payload, a node compares it with what it has executed:
it walks back over parent digests from its tip to the payload's height, through
payloads it holds, and compares the digest it arrives at. Most of what it holds
came from peers. A payload found under a digest has that digest, though, so the
walk goes along the executed chain or ends (`walkExecuted_eq`), and an answer is
about the executed block (`consistent_iff_executed`).

The lock on the tip is let go before the walk, so every look-up may find the
node in a later state than the one before; memory and files are two look-ups.
-/

namespace LayerSdk

open HashChain

def executedWalkMax : Nat := 8192

section Walk

variable (H : Bytes → Digest)

/-- `lookup_payload`: in memory, then in the files. -/
def lookupPayload (inMemory onDisk : LayerNode) (d : Digest) : Option BlockPayload :=
  match inMemory.pendingPayloads[d.bytes]? with
  | some p => some p
  | none => onDisk.store.get H d

/-- The loop of the walk back to `target`, with the nodes its look-ups meet. -/
def walkExecuted (meets : Nat → LayerNode × LayerNode) (target : Nat) :
    Nat → Digest → Nat → Option Digest
  | 0, d, _ => some d
  | h + 1, d, hops =>
    if target < h + 1 then
      if hops ≥ executedWalkMax then none
      else
        match lookupPayload H (meets hops).1 (meets hops).2 d with
        | none => none
        | some anc =>
          if anc.height ≠ h + 1 then none
          else walkExecuted meets target h anc.parentDigest (hops + 1)
    else some d

/-- With the tip it has read. -/
def consistentWithExecutedChain (tip : Nat × Digest) (meets : Nat → LayerNode × LayerNode)
    (p : BlockPayload) : Option Bool :=
  if p.height > tip.1 then none
  else (walkExecuted H meets p.height tip.1 tip.2 0).map fun d => decide (d = p.digest H)

/-- The vote of `certify` on a payload it has found, with the answer of the check and
whether the payload could be persisted. -/
def certifyFound (consistent : Option Bool) (persisted : Bool) : Bool :=
  if consistent = some false then false else persisted

end Walk

/-- The block executed at a height. -/
def executedAt (executed : List BlockPayload) (height : Nat) : Option BlockPayload :=
  executed.find? fun e => decide (e.height = height)

section Sound

variable {H : Bytes → Digest} {executed : List BlockPayload} {g : Digest}

theorem executedAt_eq_some_iff (hchain : Chain (links H) g 0 executed) {p : BlockPayload} :
    executedAt executed p.height = some p ↔ p ∈ executed := by
  constructor
  · exact List.mem_of_find?_eq_some
  · intro hp
    obtain ⟨e, he⟩ : ∃ e, executedAt executed p.height = some e := by
      rw [← Option.isSome_iff_exists, executedAt, List.find?_isSome]
      exact ⟨p, hp, decide_eq_true rfl⟩
    have hheight : e.height = p.height := by simpa using List.find?_some he
    rw [he, hchain.eq_of_height e (List.mem_of_find?_eq_some he) p hp hheight]

theorem lookupPayload_digest {inMemory onDisk : LayerNode} {d : Digest} {q : BlockPayload}
    (hpending : PendingOk H inMemory.pendingPayloads)
    (h : lookupPayload H inMemory onDisk d = some q) : q.digest H = d := by
  rw [lookupPayload] at h
  split at h
  · cases h
    exact Digest.ext_bytes (hpending _ _ ‹_›)
  · exact PayloadStore.get_digest h

/-- The walk goes along the chain. The induction is on the height it has come to: what it
finds there under the digest of a block is that block. -/
theorem walkExecuted_eq {meets : Nat → LayerNode × LayerNode} {target : Nat}
    (hfound : ∀ i d q, lookupPayload H (meets i).1 (meets i).2 d = some q →
      q.digest H = d ∧ ∀ e ∈ executed, q.digest H = e.digest H → q = e) :
    ∀ {h hops : Nat} {d d' : Digest} {l rest : List BlockPayload}, executed = l ++ rest →
      Chain (links H) g 0 l → tip (links H) g 0 l = (d, h) → target ≤ h →
      walkExecuted H meets target h d hops = some d' →
      ∃ front rest', executed = front ++ rest' ∧ tip (links H) g 0 front = (d', target)
  | 0, hops, d, d', l, rest, hsplit, _, htip, htarget, hwalk => by
    cases hwalk
    obtain rfl := Nat.le_zero.mp htarget
    exact ⟨l, rest, hsplit, htip⟩
  | h + 1, hops, d, d', l, rest, hsplit, hchain, htip, htarget, hwalk => by
    rw [walkExecuted] at hwalk
    split at hwalk
    · split at hwalk
      · cases hwalk
      · split at hwalk
        · cases hwalk
        · next anc hanc =>
            split at hwalk
            · cases hwalk
            · obtain ⟨hdigest, honly⟩ := hfound hops d anc hanc
              rcases List.eq_nil_or_concat' l with rfl | ⟨front, e, rfl⟩
              · cases htip
              · rw [tip_append, Prod.mk.injEq] at htip
                obtain ⟨hfront, hparent, hheight⟩ := hchain.of_append
                have hmem : e ∈ executed := by simp [hsplit]
                obtain rfl := honly e hmem (hdigest.trans htip.1.symm)
                have htip' : tip (links H) g 0 front = (anc.parentDigest, h) :=
                  Prod.ext hparent.symm (Nat.succ.inj (hheight.symm.trans htip.2))
                exact walkExecuted_eq hfound (hsplit.trans (List.append_assoc ..)) hfront htip'
                  (by omega) hwalk
    · cases hwalk
      exact ⟨l, rest, hsplit, by rw [htip]; congr; omega⟩

/-- The digest at a height is the payload's if and only if the payload is in the chain. -/
theorem digest_eq_iff_mem (hchain : Chain (links H) g 0 executed) {p : BlockPayload}
    (honly : ∀ e ∈ executed, p.digest H = e.digest H → p = e) (hg : p.digest H ≠ g)
    {d : Digest} {front rest : List BlockPayload} (hsplit : executed = front ++ rest)
    (htip : tip (links H) g 0 front = (d, p.height)) : d = p.digest H ↔ p ∈ executed := by
  rcases List.eq_nil_or_concat' front with rfl | ⟨front, e, rfl⟩
  · rw [tip_nil, Prod.mk.injEq] at htip
    obtain ⟨rfl, hzero⟩ := htip
    refine iff_of_false (fun h => hg h.symm) fun hp => ?_
    have := hchain.lt_height p hp
    change 0 < p.height at this
    omega
  · rw [tip_append, Prod.mk.injEq] at htip
    obtain ⟨rfl, hheight⟩ := htip
    have he : e ∈ executed := by simp [hsplit]
    constructor
    · intro h
      rwa [honly e he h.symm]
    · intro hp
      rw [hchain.eq_of_height e he p hp hheight]
      rfl

end Sound

section Node

variable {Tx Msg Data Genesis : Type} (H : Bytes → Digest) (c : AppCodecs)
  (logic : StateMachine Tx Msg Data Genesis) (deps : NodeDeps Tx Data)

/-- The node is met at or after `s`. -/
def Follows (s : NodeState Tx) (n : LayerNode) : Prop :=
  ∃ actions s' log, runActions H c logic deps actions s = some (s', log) ∧ s'.node = n

variable {H c logic deps}

theorem NodeInv.follows {start : Digest × Nat} {log : List Executed} {s : NodeState Tx}
    (h : NodeInv H c start log s) {n : LayerNode} (hn : Follows H c logic deps s n) :
    PendingOk H n.pendingPayloads := by
  obtain ⟨actions, s', log', hrun, rfl⟩ := hn
  exact (h.runActions hrun).pending

variable (H c logic deps)

/-- **Conflicts with the executed chain.** A node has executed `history` before its start
and `log` since. Whatever its peers sent and whatever goes on meanwhile: where the check
answers, it answers whether the payload is the block executed at its height. So a vote on
an executed block is not refused by it, and one on a block that is not, and was checked,
is. -/
theorem consistent_iff_executed (app : App) (initialHeight : Nat) (history : List BlockPayload)
    (hhistory : Chain (links H) (LayerNode.genesisParent H) 0 history)
    (hstart : tip (links H) (LayerNode.genesisParent H) 0 history =
      ((LayerNode.new H c app initialHeight).lastDigest, initialHeight))
    (actions : List (Action Tx)) {s : NodeState Tx} {log : List Executed}
    (hrun : runActions H c logic deps actions ⟨LayerNode.new H c app initialHeight, .idle⟩ =
      some (s, log))
    (meets : Nat → LayerNode × LayerNode)
    (hmeets : ∀ i, Follows H c logic deps s (meets i).1 ∧ Follows H c logic deps s (meets i).2)
    (known : List BlockPayload) (hknown : Observed.Distinct H known)
    (hexecuted : history ++ log.map Executed.payload ⊆ known)
    (hheld : ∀ i d q, lookupPayload H (meets i).1 (meets i).2 d = some q → q ∈ known)
    (p : BlockPayload) (hp : p ∈ known) (hgenesis : p.digest H ≠ LayerNode.genesisParent H) :
    (∀ b, consistentWithExecutedChain H s.node.executedTip meets p = some b →
      (b = true ↔ executedAt (history ++ log.map Executed.payload) p.height = some p)) ∧
    (executedAt (history ++ log.map Executed.payload) p.height = some p → ∀ persisted,
      certifyFound (consistentWithExecutedChain H s.node.executedTip meets p) persisted =
        persisted) ∧
    (consistentWithExecutedChain H s.node.executedTip meets p ≠ none →
      executedAt (history ++ log.map Executed.payload) p.height ≠ some p → ∀ persisted,
      certifyFound (consistentWithExecutedChain H s.node.executedTip meets p) persisted =
        false) := by
  have hinv := NodeInv.of_run hrun
  have hchain : Chain (links H) (LayerNode.genesisParent H) 0
      (history ++ log.map Executed.payload) := hhistory.append (hstart ▸ hinv.chain)
  have htip : tip (links H) (LayerNode.genesisParent H) 0 (history ++ log.map Executed.payload) =
      (s.node.lastDigest, s.node.currentHeight) := by
    rw [hhistory.tip_append, hstart]
    exact hinv.tip
  have honly (q : BlockPayload) (hq : q ∈ known) : ∀ e ∈ history ++ log.map Executed.payload,
      q.digest H = e.digest H → q = e := fun e he => hknown.eq_of_digest hq (hexecuted he)
  have hfound (i : Nat) (d : Digest) (q : BlockPayload)
      (hq : lookupPayload H (meets i).1 (meets i).2 d = some q) : q.digest H = d ∧
      ∀ e ∈ history ++ log.map Executed.payload, q.digest H = e.digest H → q = e :=
    ⟨lookupPayload_digest (hinv.follows (hmeets i).1) hq, honly q (hheld i d q hq)⟩
  have hanswer (b : Bool) (hb : consistentWithExecutedChain H s.node.executedTip meets p = some b) :
      b = true ↔ executedAt (history ++ log.map Executed.payload) p.height = some p := by
    rw [consistentWithExecutedChain] at hb
    split at hb
    · cases hb
    · next hle =>
        obtain ⟨d, hwalk, rfl⟩ := Option.map_eq_some_iff.mp hb
        obtain ⟨front, rest, hsplit, hfront⟩ := walkExecuted_eq hfound
          (List.append_nil _).symm hchain htip (Nat.le_of_not_lt hle) hwalk
        rw [decide_eq_true_iff, executedAt_eq_some_iff hchain]
        exact digest_eq_iff_mem hchain (honly p hp) hgenesis hsplit hfront
  refine ⟨hanswer, fun hexec persisted => if_neg fun hfalse => ?_, fun hsome hne persisted => ?_⟩
  · exact Bool.false_ne_true ((hanswer false hfalse).mpr hexec)
  · obtain ⟨b, hb⟩ := Option.ne_none_iff_exists'.mp hsome
    have hfalse : b = false := Bool.eq_false_iff.mpr (mt (hanswer b hb).mp hne)
    exact if_pos (hfalse ▸ hb)

end Node

/-! ## A competitor of an executed block -/

/-- The two blocks again, after which a peer's copy of the second is added. -/
def certifyActions : List (Action Bytes) := twoBlockActions ++ [.insertPending secondPayload]

theorem exists_certifyRun : ∃ a s log, genesisApp = some a ∧
    runActions sha256 twoBlockCodecs sampleLogic sampleNodeDeps certifyActions
      ⟨LayerNode.new sha256 twoBlockCodecs a 0, .idle⟩ = some (s, log) ∧
    log.map Executed.payload = [firstPayload, secondPayload] ∧
    s.node.executedTip = (2, secondPayload.digest sha256) ∧
    s.node.pendingPayloads.toList = [((secondPayload.digest sha256).bytes, secondPayload)] ∧
    s.node.store.files = none := by
  have hok : (genesisApp.bind fun a =>
      (runActions sha256 twoBlockCodecs sampleLogic sampleNodeDeps certifyActions
        ⟨LayerNode.new sha256 twoBlockCodecs a 0, .idle⟩).map fun x =>
          ((x.2.map Executed.payload, x.1.node.executedTip),
            (x.1.node.pendingPayloads.toList, x.1.node.store.files.isNone))) =
      some (([firstPayload, secondPayload], (2, secondPayload.digest sha256)),
        ([((secondPayload.digest sha256).bytes, secondPayload)], true)) := by
    simp only [genesisApp, twoBlockCodecs, certifyActions, twoBlockActions, firstPayload,
      secondPayload, sampleAppCodecs, sha256_eq_eval]
    decide +kernel
  obtain ⟨a, ha, hrun⟩ := Option.bind_eq_some_iff.mp hok
  obtain ⟨⟨s, log⟩, hrun, heq⟩ := Option.map_eq_some_iff.mp hrun
  simp only [Prod.mk.injEq, Option.isNone_iff_eq_none] at heq
  obtain ⟨⟨hlog, htip⟩, hpending, hfiles⟩ := heq
  exact ⟨a, s, log, ha, hrun, hlog, htip, hpending, hfiles⟩

def certifyKnown : List BlockPayload := [firstPayload, secondPayload, LayerNode.forkPayload]

theorem distinct_certifyKnown : Observed.Distinct sha256 certifyKnown where
  collisionFree := by
    simp only [certifyKnown, LayerNode.forkPayload, firstPayload, secondPayload, sha256_eq_eval]
    decide +kernel
  fits p hp := by
    simp only [certifyKnown, List.mem_cons, List.not_mem_nil, or_false] at hp
    rcases hp with rfl | rfl | rfl <;> constructor <;> decide

theorem digest_forkPayload_ne :
    LayerNode.forkPayload.digest sha256 ≠ LayerNode.genesisParent sha256 := by
  simp only [LayerNode.forkPayload, firstPayload, sha256_eq_eval]
  decide +kernel

/-- After two blocks, the walk to a competitor of the first goes over the second. -/
theorem consistent_iff_executed_fork : ∃ a s log, genesisApp = some a ∧
    runActions sha256 twoBlockCodecs sampleLogic sampleNodeDeps certifyActions
      ⟨LayerNode.new sha256 twoBlockCodecs a 0, .idle⟩ = some (s, log) ∧
    consistentWithExecutedChain sha256 s.node.executedTip (fun _ => (s.node, s.node))
      LayerNode.forkPayload ≠ none ∧
    certifyFound (consistentWithExecutedChain sha256 s.node.executedTip
      (fun _ => (s.node, s.node)) LayerNode.forkPayload) true = false := by
  obtain ⟨a, s, log, ha, hrun, hlog, htip, hpending, hfiles⟩ := exists_certifyRun
  have hheld : s.node.pendingPayloads[(secondPayload.digest sha256).bytes]? = some secondPayload := by
    rw [← Std.ExtTreeMap.mem_toList_iff_getElem?_eq_some, hpending]
    exact List.mem_singleton_self _
  have hlookup (d : Digest) (q : BlockPayload) (hq : lookupPayload sha256 s.node s.node d = some q) :
      q = secondPayload := by
    rw [lookupPayload] at hq
    split at hq
    · next p hp =>
        rw [← Std.ExtTreeMap.mem_toList_iff_getElem?_eq_some, hpending, List.mem_singleton] at hp
        rw [← Option.some.inj hq, (Prod.mk.inj hp).2]
    · simp [PayloadStore.get, hfiles] at hq
  have hanswer : consistentWithExecutedChain sha256 s.node.executedTip (fun _ => (s.node, s.node))
      LayerNode.forkPayload ≠ none := by
    have hsecond : lookupPayload sha256 s.node s.node (secondPayload.digest sha256) =
        some secondPayload := by rw [lookupPayload, hheld]
    have hheight : secondPayload.height = 2 := rfl
    rw [htip, consistentWithExecutedChain]
    simp [walkExecuted, hsecond, hheight, LayerNode.forkPayload, firstPayload, executedWalkMax]
  obtain ⟨-, -, hdead⟩ := consistent_iff_executed sha256 twoBlockCodecs sampleLogic sampleNodeDeps
    a 0 [] trivial rfl certifyActions hrun (fun _ => (s.node, s.node))
    (fun _ => ⟨⟨[], s, [], rfl, rfl⟩, ⟨[], s, [], rfl, rfl⟩⟩) certifyKnown distinct_certifyKnown
    (by rw [hlog]; simp [certifyKnown]) (fun _ d q hq => by simp [hlookup d q hq, certifyKnown])
    LayerNode.forkPayload (by simp [certifyKnown]) digest_forkPayload_ne
  refine ⟨a, s, log, ha, hrun, hanswer, hdead hanswer ?_ true⟩
  rw [List.nil_append, hlog]
  decide

end LayerSdk
