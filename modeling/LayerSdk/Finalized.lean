import LayerSdk.DryRun
import LayerSdk.Node

/-!
# The finalized chain

What holds of every run of a node, however calls of `finalize`, peers and the
other tasks interleave: the payloads it executes are a hash-linked chain from
its starting tip, and the tip it shows is the end of that chain.

The argument has two halves. A payload found under a digest has that digest
(`PendingOk`, `PayloadStore.get_digest`), so what a walk collects is linked,
whoever supplied it; that needs no assumption on the hash. And the tip and the
stored state root move only when the running call commits (`SameTip`), so what
a call has established at one of its steps (`PhaseOk`) still holds at the next.
-/

namespace LayerSdk

open EffectProg HashChain

def links (H : Bytes → Digest) : Links BlockPayload Digest :=
  ⟨BlockPayload.digest H, BlockPayload.parentDigest, BlockPayload.height⟩

/-! ## Payloads are found under their digest -/

section Pending

variable {H : Bytes → Digest}

def PendingOk (H : Bytes → Digest) (pending : Pending) : Prop :=
  ∀ (k : Bytes) (p : BlockPayload), pending[k]? = some p → (p.digest H).bytes = k

theorem PendingOk.empty : PendingOk H ∅ := by
  intro k p h
  simp at h

variable {pending : Pending}

theorem PendingOk.insert (h : PendingOk H pending) (p : BlockPayload) :
    PendingOk H (pending.insert (p.digest H).bytes p) := by
  intro k q hq
  rw [Std.ExtTreeMap.getElem?_insert] at hq
  split at hq
  · rename_i heq
    rw [← Option.some.inj hq]
    simpa using heq
  · exact h k q hq

theorem PendingOk.erase (h : PendingOk H pending) (key : Bytes) :
    PendingOk H (pending.erase key) := by
  intro k q hq
  rw [Std.ExtTreeMap.getElem?_erase] at hq
  split at hq
  · cases hq
  · exact h k q hq

theorem PendingOk.filter (h : PendingOk H pending) (f : Bytes → BlockPayload → Bool) :
    PendingOk H (pending.filter f) := by
  intro k q hq
  rw [Std.ExtTreeMap.getElem?_filter] at hq
  obtain ⟨hp, -⟩ := Option.pfilter_eq_some_iff.mp hq
  exact h k q hp

theorem PendingOk.makeRoom {pending' : Pending} {solicited : Bool} (h : PendingOk H pending)
    (hroom : LayerNode.makeRoom pending solicited = .ok pending') : PendingOk H pending' := by
  unfold LayerNode.makeRoom at hroom
  split at hroom
  · split at hroom
    · split at hroom
      · cases hroom
      · cases hroom
        exact h.erase _
    · cases hroom
  · split at hroom
    · cases hroom
    · cases hroom
      exact h

theorem PayloadStore.get_digest {s : PayloadStore} {d : Digest} {p : BlockPayload}
    (h : s.get H d = some p) : p.digest H = d := by
  unfold PayloadStore.get at h
  simp only [Option.bind_eq_bind, Option.bind_eq_some_iff] at h
  obtain ⟨height, -, files, -, bytes, -, q, -, hq⟩ := h
  split at hq
  · cases hq
    assumption
  · cases hq

end Pending

/-! ## What the other tasks leave alone -/

section Root

open FailState

variable {H : Bytes → Digest} {c : AppCodecs} {Tx Msg Data Genesis : Type}
  {logic : StateMachine Tx Msg Data Genesis} {α β : Type}

/-- While the node runs, only a block moves the stored state root. -/
theorem stateRoot_isLive {call : AppCall Tx} (hcall : call.isLive = true) {a a' : App}
    (h : call.apply H c logic a = some a') : a'.stateRoot c = a.stateRoot c := by
  have hrecord : call.isRecord = true → a'.stateRoot c = a.stateRoot c := fun hrec =>
    readItem_congr ((call.isRecord_keeps hrec h).2 _ fun hroot => hroot.2 rfl)
  cases call with
  | simulateFinalizeBlock fullBlock =>
    obtain ⟨⟨r, a₁⟩, hexec, rfl⟩ := Option.map_eq_some_iff.mp h
    have hend := indexed_simulateFinalizeBlock H c logic fullBlock a rfl hexec
    have hindexed : Indexed H a a₁ := by
      cases r with
      | ok x | error e => exact hend
    exact readItem_congr (by rw [hindexed.same.1])
  | _ => exact hrecord hcall

end Root

/-! ## What a call knows at each step -/

section Invariant

variable (H : Bytes → Digest) (c : AppCodecs)

/-- The chain found so far hangs from the cursor, and the tip is still the one the
walk is looking for. -/
structure WalkOk (n : LayerNode) (w : Walk) : Prop where
  tipHeight : w.tipHeight = n.currentHeight
  tipDigest : w.tipDigest = n.lastDigest
  linked : Linked (links H) w.cursor w.chain

/-- What is left to execute hangs from the tip. -/
structure QueueOk (n : LayerNode) (q : Queue) : Prop where
  height : n.currentHeight = q.tipHeight + q.executed
  linked : Linked (links H) n.lastDigest q.rest

/-- The payload in hand is the next block. -/
structure NextOk (n : LayerNode) (p : BlockPayload) (q : Queue) : Prop where
  height : n.currentHeight = q.tipHeight + q.executed
  next : p.height = n.currentHeight + 1
  parent : p.parentDigest = n.lastDigest
  root : p.stateRoot = (n.app.stateRoot c).getD zeroDigest
  linked : Linked (links H) (p.digest H) q.rest

variable {Tx : Type}

def PhaseOk (n : LayerNode) : Phase Tx → Prop
  | .idle => True
  | .walking w => WalkOk H n w
  | .reading w => WalkOk H n w
  | .missing w => WalkOk H n w
  | .applying q => QueueOk H n q
  | .checked p q => NextOk H c n p q
  | .executing p q => NextOk H c n p q
  | .built p block _ q => NextOk H c n p q ∧ block.height = n.currentHeight + 1
  | .recording _ _ q => QueueOk H n q
  | .storing _ q => QueueOk H n q
  | .closing _ => True

/-- Executed so far, from the tip `start`. -/
structure NodeInv (start : Digest × Nat) (log : List Executed) (s : NodeState Tx) : Prop where
  pending : PendingOk H s.node.pendingPayloads
  chain : Chain (links H) start.1 start.2 (log.map Executed.payload)
  tip : tip (links H) start.1 start.2 (log.map Executed.payload) =
    (s.node.lastDigest, s.node.currentHeight)
  roots : ∀ x ∈ log, x.payload.stateRoot = (x.before.stateRoot c).getD zeroDigest
  phase : PhaseOk H c s.node s.phase

/-- Nothing a call relies on has changed. -/
structure SameTip (n n' : LayerNode) : Prop where
  height : n'.currentHeight = n.currentHeight
  digest : n'.lastDigest = n.lastDigest
  root : n'.app.stateRoot c = n.app.stateRoot c

variable {H c} {n n' : LayerNode}

theorem SameTip.refl (n : LayerNode) : SameTip c n n := ⟨rfl, rfl, rfl⟩

theorem WalkOk.frame {w : Walk} (hw : WalkOk H n w) (h : SameTip c n n') : WalkOk H n' w :=
  ⟨hw.tipHeight.trans h.height.symm, hw.tipDigest.trans h.digest.symm, hw.linked⟩

theorem QueueOk.frame {q : Queue} (hq : QueueOk H n q) (h : SameTip c n n') : QueueOk H n' q :=
  ⟨h.height.trans hq.height, h.digest ▸ hq.linked⟩

theorem NextOk.frame {p : BlockPayload} {q : Queue} (hp : NextOk H c n p q)
    (h : SameTip c n n') : NextOk H c n' p q where
  height := h.height.trans hp.height
  next := by rw [h.height, hp.next]
  parent := hp.parent.trans h.digest.symm
  root := by rw [h.root, hp.root]
  linked := hp.linked

theorem PhaseOk.frame {phase : Phase Tx} (hphase : PhaseOk H c n phase) (h : SameTip c n n') :
    PhaseOk H c n' phase := by
  cases phase with
  | idle => trivial
  | walking w | reading w | missing w => exact WalkOk.frame hphase h
  | applying q => exact QueueOk.frame hphase h
  | checked p q | executing p q => exact NextOk.frame hphase h
  | built p block txHashes q => exact ⟨NextOk.frame hphase.1 h, by rw [h.height, hphase.2]⟩
  | recording p responses q | storing p q => exact QueueOk.frame hphase h
  | closing result => trivial

/-- A step that executes nothing. -/
theorem NodeInv.quiet {start : Digest × Nat} {log : List Executed} {s s' : NodeState Tx}
    (h : NodeInv H c start log s) (hpending : PendingOk H s'.node.pendingPayloads)
    (hheight : s'.node.currentHeight = s.node.currentHeight)
    (hdigest : s'.node.lastDigest = s.node.lastDigest) (hphase : PhaseOk H c s'.node s'.phase) :
    NodeInv H c start (log ++ (none : Option Executed).toList) s' := by
  rw [Option.toList_none, List.append_nil]
  exact ⟨hpending, h.chain, by rw [h.tip, hheight, hdigest], h.roots, hphase⟩

/-- A step beside the running call. -/
theorem NodeInv.beside {start : Digest × Nat} {log : List Executed} {s : NodeState Tx}
    (h : NodeInv H c start log s) (hpending : PendingOk H n'.pendingPayloads)
    (hsame : SameTip c s.node n') :
    NodeInv H c start (log ++ (none : Option Executed).toList) ⟨n', s.phase⟩ :=
  h.quiet hpending hsame.height hsame.digest (h.phase.frame hsame)

end Invariant

/-! ## The steps of a call -/

section Steps

variable {H : Bytes → Digest} {c : AppCodecs} {Tx Msg Data Genesis : Type}
  {logic : StateMachine Tx Msg Data Genesis} {deps : NodeDeps Tx Data}

variable {n n' : LayerNode} {w : Walk} {p : BlockPayload} {start : Digest × Nat}
  {log : List Executed} {x : Option Executed} {s : NodeState Tx}

theorem walkTo_ok (hw : WalkOk H n w) (hp : p.digest H = w.cursor) :
    PhaseOk H c n (walkTo w p : Phase Tx) := by
  unfold walkTo
  split
  · trivial
  · have hlinked : Linked (links H) (p.digest H) w.chain := hp ▸ hw.linked
    exact ⟨hw.tipHeight, hw.tipDigest, rfl, hlinked⟩

theorem walkPending_ok (hpending : PendingOk H n.pendingPayloads) (hw : WalkOk H n w) :
    PhaseOk H c n (walkPending n w : Phase Tx) := by
  unfold walkPending
  split
  · rename_i hcursor
    refine ⟨hw.tipHeight.symm, ?_⟩
    rw [← hw.tipDigest, ← hcursor]
    exact hw.linked
  · split
    · exact walkTo_ok hw (Digest.ext_bytes (hpending _ _ ‹_›))
    · exact hw

theorem walkStore_ok (hw : WalkOk H n w) : PhaseOk H c n (walkStore H n w : Phase Tx) := by
  unfold walkStore
  split
  · exact walkTo_ok hw (PayloadStore.get_digest ‹_›)
  · exact hw

theorem checkNext_ok {q : Queue} (hq : QueueOk H n q) :
    PhaseOk H c n (checkNext c n q : Phase Tx) := by
  obtain ⟨hheight, hlinked⟩ := hq
  unfold checkNext
  split
  · trivial
  · rename_i p rest hrest
    rw [hrest] at hlinked
    split
    · trivial
    · rename_i hnext
      split
      · trivial
      · rename_i hroot
        exact ⟨hheight, by omega, hlinked.1, not_not.mp hroot, hlinked.2⟩

theorem recordResponses_stateRoot : ∀ {responses : List (String × Bytes)} {a a' : App},
    recordResponses H c responses a = some a' → a'.stateRoot c = a.stateRoot c
  | [], _, _, h => by
    cases h
    rfl
  | (txhash, encoded) :: rest, a, a', h => by
    obtain ⟨⟨r, a₁⟩, hset, hrest⟩ := Option.bind_eq_some_iff.mp h
    have hlive : a₁.stateRoot c = a.stateRoot c := by
      refine readItem_congr ((withWriter_writesOnly (WritesOnly.save (isRecord_append txhash) encoded)
        ⟨rfl, by decide⟩ hset).2 _ fun hroot => hroot.2 rfl)
    exact (recordResponses_stateRoot hrest).trans hlive

/-- The commit appends the payload to the chain, or nothing happens. -/
theorem NodeInv.commit {block : Block Tx} {txHashes : List String} {q : Queue}
    (h : NodeInv H c start log (⟨n, .built p block txHashes q⟩ : NodeState Tx)) {phase : Phase Tx}
    (hcommit : commitPayload H c logic deps n p block txHashes q = some ((n', phase), x)) :
    NodeInv H c start (log ++ x.toList) ⟨n', phase⟩ := by
  obtain ⟨hnext, hblock⟩ := h.phase
  unfold commitPayload at hcommit
  split at hcommit
  · cases hcommit
  · cases hcommit
    exact h.quiet h.pending rfl rfl trivial
  · cases hcommit
    have htip := h.tip
    simp only [Option.toList_some]
    refine ⟨h.pending, ?_, ?_, ?_, ?_⟩
    · rw [List.map_append]
      refine chain_append h.chain ?_ ?_
      · rw [htip]
        exact hnext.parent
      · rw [htip]
        exact hnext.next
    · rw [List.map_append, List.map_singleton, tip_append, hblock, ← hnext.next]
      rfl
    · intro x hx
      rcases List.mem_append.mp hx with hx | hx
      · exact h.roots x hx
      · rw [List.mem_singleton.mp hx]
        exact hnext.root
    · refine ⟨?_, hnext.linked⟩
      have := hnext.height
      simp only
      omega

theorem PendingOk.closeFinalize (h : PendingOk H n.pendingPayloads) (result : Option (Nat × Nat)) :
    PendingOk H (closeFinalize n result).pendingPayloads := by
  cases result with
  | none => exact h
  | some r => exact h.filter _

theorem NodeInv.advance (h : NodeInv H c start log s) {io : Bool} {phase : Phase Tx}
    (hstep : LayerSdk.advance H c logic deps io s.node s.phase = some ((n', phase), x)) :
    NodeInv H c start (log ++ x.toList) ⟨n', phase⟩ := by
  obtain ⟨n, ph⟩ := s
  have hphase := h.phase
  cases ph with
  | idle => cases hstep
  | walking w =>
    cases hstep
    exact h.quiet h.pending rfl rfl (walkPending_ok h.pending hphase)
  | reading w =>
    cases hstep
    exact h.quiet h.pending rfl rfl (walkStore_ok hphase)
  | missing w => cases hstep
  | applying q =>
    cases hstep
    exact h.quiet h.pending rfl rfl (checkNext_ok hphase)
  | checked p q =>
    cases hstep
    exact h.quiet (h.pending.erase _) rfl rfl (NextOk.frame hphase ⟨rfl, rfl, rfl⟩)
  | executing p q =>
    unfold LayerSdk.advance at hstep
    dsimp only at hstep
    split at hstep
    · cases hstep
    · cases hstep
      exact h.quiet h.pending rfl rfl ⟨hphase, rfl⟩
  | built p block txHashes q => exact h.commit hstep
  | recording p responses q =>
    obtain ⟨a, hrecord, heq⟩ := Option.map_eq_some_iff.mp hstep
    cases heq
    have hsame : SameTip c n { n with app := a } := ⟨rfl, rfl, recordResponses_stateRoot hrecord⟩
    exact h.quiet h.pending rfl rfl (QueueOk.frame hphase hsame)
  | storing p q =>
    cases hstep
    have hq : QueueOk H n q := hphase
    exact h.quiet h.pending rfl rfl ⟨hq.height, hq.linked⟩
  | closing result =>
    cases hstep
    have hheight : (closeFinalize n result).currentHeight = n.currentHeight := by
      cases result <;> rfl
    have hdigest : (closeFinalize n result).lastDigest = n.lastDigest := by cases result <;> rfl
    exact h.quiet (h.pending.closeFinalize result) hheight hdigest trivial

/-! ## Whole runs -/

theorem NodeInv.beginFinalize (h : NodeInv H c start log (⟨n, .idle⟩ : NodeState Tx))
    (digest : Digest) : NodeInv H c start (log ++ (none : Option Executed).toList)
      (⟨(beginFinalize n digest : LayerNode × Phase Tx).1, (beginFinalize n digest).2⟩ :
        NodeState Tx) := by
  unfold LayerSdk.beginFinalize
  split
  · exact h.quiet h.pending rfl rfl trivial
  · exact h.quiet h.pending rfl rfl ⟨rfl, rfl, trivial⟩

theorem acceptPeerRelay_beside {tip : Nat} {r : Except String Bool × Bool}
    (hpending : PendingOk H n.pendingPayloads) (h : n.acceptPeerRelay H tip p = some (r, n')) :
    PendingOk H n'.pendingPayloads ∧ SameTip c n n' := by
  unfold LayerNode.acceptPeerRelay at h
  split at h
  · cases h
    exact ⟨hpending, .refl n⟩
  split at h
  · cases h
    exact ⟨hpending, .refl n⟩
  dsimp only at h
  split at h
  · cases h
    exact ⟨hpending, rfl, rfl, rfl⟩
  split at h
  · cases h
  split at h
  · cases h
    exact ⟨hpending, rfl, rfl, rfl⟩
  split at h
  · cases h
    exact ⟨hpending, rfl, rfl, rfl⟩
  · rename_i hroom
    cases h
    exact ⟨(hpending.makeRoom hroom).insert p, rfl, rfl, rfl⟩

/-- Step: whatever happens next. -/
theorem NodeInv.step {s' : NodeState Tx} {action : Action Tx} (h : NodeInv H c start log s)
    (hstep : LayerSdk.step H c logic deps s action = some (s', x)) :
    NodeInv H c start (log ++ x.toList) s' := by
  obtain ⟨n, phase⟩ := s
  cases action with
  | finalize digest =>
    cases phase with
    | idle =>
      cases hstep
      exact h.beginFinalize digest
    | _ => cases hstep
  | advance io =>
    obtain ⟨⟨⟨n', phase'⟩, x'⟩, hadvance, heq⟩ := Option.map_eq_some_iff.mp hstep
    cases heq
    exact h.advance hadvance
  | poll request =>
    cases phase with
    | missing w =>
      cases hstep
      have hw : WalkOk H n w := h.phase
      cases request with
      | true => exact h.quiet h.pending rfl rfl ⟨hw.tipHeight, hw.tipDigest, hw.linked⟩
      | false => exact h.quiet h.pending rfl rfl hw
    | _ => cases hstep
  | giveUp =>
    cases phase with
    | missing w =>
      cases hstep
      exact h.quiet h.pending rfl rfl trivial
    | _ => cases hstep
  | cancel =>
    cases hstep
    exact h.quiet h.pending rfl rfl trivial
  | panic app =>
    cases phase with
    | built p block txHashes q =>
      unfold LayerSdk.step at hstep
      dsimp only at hstep
      split at hstep
      · cases hstep
        exact h.quiet h.pending rfl rfl trivial
      · cases hstep
    | _ => cases hstep
  | relay tip p =>
    unfold LayerSdk.step at hstep
    dsimp only at hstep
    split at hstep
    · obtain ⟨⟨r, n'⟩, haccept, heq⟩ := Option.map_eq_some_iff.mp hstep
      cases heq
      obtain ⟨hpending, hsame⟩ := acceptPeerRelay_beside h.pending haccept
      exact h.beside hpending hsame
    · cases hstep
  | insertPending p =>
    cases hstep
    exact h.beside (h.pending.insert p) ⟨rfl, rfl, rfl⟩
  | appCall call =>
    unfold LayerSdk.step at hstep
    dsimp only at hstep
    split at hstep
    · obtain ⟨app, hcall, heq⟩ := Option.map_eq_some_iff.mp hstep
      cases heq
      exact h.beside h.pending ⟨rfl, rfl, stateRoot_isLive ‹_› hcall⟩
    · cases hstep
  | files store | bookkeeping requested requestedHeights certifiedDigests maxSeenHeight =>
    cases hstep
    exact h.beside h.pending ⟨rfl, rfl, rfl⟩

/-- Run: by induction on the actions. -/
theorem NodeInv.runActions : ∀ {actions : List (Action Tx)}
    {log log' : List Executed} {s s' : NodeState Tx}, NodeInv H c start log s →
    runActions H c logic deps actions s = some (s', log') → NodeInv H c start (log ++ log') s'
  | [], log, log', s, s', h, hrun => by
    cases hrun
    simpa using h
  | action :: rest, log, log', s, s', h, hrun => by
    obtain ⟨⟨s₁, x⟩, hstep, hrest⟩ := Option.bind_eq_some_iff.mp hrun
    obtain ⟨⟨s₂, log₂⟩, htail, heq⟩ := Option.bind_eq_some_iff.mp hrest
    cases heq
    rw [← List.append_assoc]
    exact NodeInv.runActions (h.step hstep) htail

theorem NodeInv.of_run {app : App} {initialHeight : Nat} {actions : List (Action Tx)}
    (hrun : LayerSdk.runActions H c logic deps actions
      ⟨LayerNode.new H c app initialHeight, .idle⟩ = some (s, log)) :
    NodeInv H c ((LayerNode.new H c app initialHeight).lastDigest, initialHeight) log s := by
  have hstart : NodeInv H c ((LayerNode.new H c app initialHeight).lastDigest, initialHeight) []
      (⟨LayerNode.new H c app initialHeight, .idle⟩ : NodeState Tx) :=
    ⟨PendingOk.empty, trivial, rfl, by simp, trivial⟩
  exact hstart.runActions hrun

end Steps

/-- **The finalized chain.** From any application a node starts on, whatever is
finalized in whatever order and whatever else goes on: the executed payloads are
a chain from the starting tip, linked by parent digests and with contiguous
heights; none is executed twice; each declares the state root that was stored
just before it; and the node's tip is the last of them. -/
theorem finalize_chain {Tx Msg Data Genesis : Type} (H : Bytes → Digest) (c : AppCodecs)
    (logic : StateMachine Tx Msg Data Genesis) (deps : NodeDeps Tx Data) (app : App)
    (initialHeight : Nat) (actions : List (Action Tx)) {s : NodeState Tx} {log : List Executed}
    (hrun : runActions H c logic deps actions ⟨LayerNode.new H c app initialHeight, .idle⟩ =
      some (s, log)) :
    Chain (links H) (LayerNode.new H c app initialHeight).lastDigest initialHeight
        (log.map Executed.payload) ∧
      (log.map Executed.payload).Nodup ∧
      (∀ x ∈ log, x.payload.stateRoot = (x.before.stateRoot c).getD zeroDigest) ∧
      tip (links H) (LayerNode.new H c app initialHeight).lastDigest initialHeight
        (log.map Executed.payload) = (s.node.lastDigest, s.node.currentHeight) := by
  have hinv := NodeInv.of_run hrun
  exact ⟨hinv.chain, hinv.chain.nodup, hinv.roots, hinv.tip⟩

/-! ## Two blocks -/

def sampleNodeDeps : NodeDeps Bytes Unit := ⟨fun raw _ => some raw, fun hash _ _ => str hash⟩

/-- The application after genesis. -/
def genesisApp : Option App :=
  runCalls sha256 sampleAppCodecs sampleLogic [sampleInit] (App.new ⟨.memory, ∅, []⟩)

def firstPayload : BlockPayload :=
  ⟨1, 200, [1], [[7, 8]], LayerNode.genesisParent sha256, stateRoot sha256 sampleGenesisStore⟩

def secondPayload : BlockPayload :=
  ⟨2, 300, [1], [], firstPayload.digest sha256,
    stateRoot sha256 ((sampleGenesisStore.insert [0x73] [1]).insert [0x61] [8])⟩

def twoBlockCodecs : AppCodecs :=
  .ofValues [⟨0, 100, "slay"⟩, ⟨1, 200, "slay"⟩, ⟨2, 300, "slay"⟩] [sampleAppState]
    [firstPayload.toBytes, secondPayload.toBytes, str (txHashHex sha256 [7, 8])] []
    [stateRoot sha256 sampleGenesisStore, secondPayload.stateRoot]

/-- Only the newer block is reported final; the older one arrives while the walk
waits for it. -/
def twoBlockActions : List (Action Bytes) :=
  [.relay 0 secondPayload, .finalize (secondPayload.digest sha256), .advance true, .advance true,
    .advance true, .relay 0 firstPayload, .poll true, .advance true] ++
    List.replicate 15 (.advance true)

theorem finalize_chain_twoBlocks : ∃ a s log,
    genesisApp = some a ∧
    runActions sha256 twoBlockCodecs sampleLogic sampleNodeDeps twoBlockActions
      ⟨LayerNode.new sha256 twoBlockCodecs a 0, .idle⟩ = some (s, log) ∧
    log.map Executed.payload = [firstPayload, secondPayload] ∧
    Chain (links sha256) (LayerNode.genesisParent sha256) 0 (log.map Executed.payload) ∧
    (s.node.lastDigest, s.node.currentHeight) = (secondPayload.digest sha256, 2) := by
  have hok : (genesisApp.bind fun a =>
      (runActions sha256 twoBlockCodecs sampleLogic sampleNodeDeps twoBlockActions
        ⟨LayerNode.new sha256 twoBlockCodecs a 0, .idle⟩).map fun x => x.2.map Executed.payload) =
      some [firstPayload, secondPayload] := by
    simp only [genesisApp, twoBlockCodecs, twoBlockActions, firstPayload, secondPayload,
      sampleAppCodecs, sha256_eq_eval]
    decide +kernel
  obtain ⟨a, ha, hrun⟩ := Option.bind_eq_some_iff.mp hok
  obtain ⟨⟨s, log⟩, hrun, hlog⟩ := Option.map_eq_some_iff.mp hrun
  obtain ⟨hchain, -, -, htip⟩ := finalize_chain sha256 twoBlockCodecs sampleLogic sampleNodeDeps a 0
    twoBlockActions hrun
  have hlog : log.map Executed.payload = [firstPayload, secondPayload] := hlog
  refine ⟨a, s, log, ha, hrun, hlog, hchain, ?_⟩
  rw [← htip, hlog]
  exact tip_append (links sha256) _ 0 [firstPayload] secondPayload

end LayerSdk
