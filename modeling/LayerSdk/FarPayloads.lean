import LayerSdk.Node

/-!
# Payloads beyond the look-ahead window

A peer's payload far above the executed tip is only taken if the node has seen
that height before the push. What it has seen is a maximum that every push
moves, also one that is rejected: a peer that sends its payload twice has
authorised it. This module follows `max_seen_height` through a run of the node
(`PeerRun.maxSeen_iff`) and says exactly which far pushes are rejected.
-/

namespace LayerSdk

section Push

variable (H : Bytes → Digest)

/-- Over the limits of a block. -/
abbrev Oversized (p : BlockPayload) : Prop :=
  p.txs.length > maxBlockTxs ∨ (p.txs.map List.length).sum > maxBlockTxBytes

/-- There is no room for a payload nobody asked for. -/
def LayerNode.Full (n : LayerNode) : Prop :=
  maxPendingPayloadsTotal - pendingSolicitedReserve ≤ n.pendingPayloads.size

/-- Neither the digest nor the height has been asked for. -/
abbrev LayerNode.Unasked (n : LayerNode) (p : BlockPayload) : Prop :=
  p.digest H ∉ n.requested ∧ p.height ∉ n.requestedHeights

abbrev LayerNode.Holds (n : LayerNode) (p : BlockPayload) : Prop :=
  n.pendingPayloads.contains (p.digest H).bytes = true

theorem makeRoom_unsolicited (pending : Pending) :
    (∃ e, LayerNode.makeRoom pending false = .error e) ↔
      maxPendingPayloadsTotal - pendingSolicitedReserve ≤ pending.size := by
  rw [LayerNode.makeRoom]
  by_cases htotal : pending.size ≥ maxPendingPayloadsTotal
  · have hreserve : maxPendingPayloadsTotal - pendingSolicitedReserve ≤ pending.size :=
      le_trans (Nat.sub_le _ _) htotal
    simp [htotal, hreserve]
  · by_cases hreserve : maxPendingPayloadsTotal - pendingSolicitedReserve ≤ pending.size
    · simp [htotal, hreserve]
    · simp [htotal, hreserve]

variable {H} {n n' : LayerNode} {tip : Nat} {p : BlockPayload} {answer : Except String Bool × Bool}

/-- The height is noted whatever becomes of the payload, unless it is oversized
or not above the tip. -/
theorem seen_acceptPeerRelay_iff (h : n.acceptPeerRelay H tip p = some (answer, n'))
    (height : Nat) :
    height ≤ n'.maxSeenHeight ↔
      height ≤ n.maxSeenHeight ∨ (¬ Oversized p ∧ tip < p.height) ∧ height ≤ p.height := by
  unfold LayerNode.acceptPeerRelay at h
  by_cases hsize : Oversized p
  · rw [if_pos hsize] at h
    cases h
    exact (or_iff_left fun hc => hc.1.1 hsize).symm
  · rw [if_neg hsize] at h
    by_cases htip : p.height ≤ tip
    · rw [if_pos htip] at h
      cases h
      exact (or_iff_left fun hc => Nat.not_lt.mpr htip hc.1.2).symm
    · rw [if_neg htip] at h
      have hmax : n'.maxSeenHeight = max n.maxSeenHeight p.height := by
        dsimp only at h
        split at h
        · cases h
          rfl
        · split at h
          · cases h
          · split at h
            · cases h
              rfl
            · split at h
              all_goals
                cases h
                rfl
      rw [hmax, le_max_iff, and_iff_right ⟨hsize, Nat.lt_of_not_le htip⟩]

/-- A far payload nobody asked for is rejected for its size; or if it is not
held and its height has not been seen, or there is no room. -/
theorem rejected_acceptPeerRelay_iff (h : n.acceptPeerRelay H tip p = some (answer, n'))
    (hfar : tip + peerPayloadLookahead < p.height) (hasked : n.Unasked H p) :
    (∃ e, answer.1 = .error e) ↔
      Oversized p ∨ ¬ n.Holds H p ∧ (n.maxSeenHeight < p.height ∨ n.Full) := by
  unfold LayerNode.acceptPeerRelay at h
  by_cases hsize : Oversized p
  · rw [if_pos hsize] at h
    cases h
    exact iff_of_true ⟨_, rfl⟩ (.inl hsize)
  · have htip : ¬ p.height ≤ tip := by omega
    rw [if_neg hsize, if_neg htip] at h
    rw [or_iff_right hsize]
    obtain ⟨hdigest, hheight⟩ := hasked
    simp only [hdigest, hheight, or_self, decide_false, Bool.not_false, Bool.true_and, if_false]
      at h
    by_cases hheld : n.Holds H p
    · rw [if_pos hheld] at h
      cases h
      exact iff_of_false (fun ⟨e, he⟩ => by cases he) fun hc => hc.1 hheld
    · rw [if_neg hheld] at h
      by_cases hseen : p.height ≤ n.maxSeenHeight
      · simp only [hseen, decide_true, Bool.not_true, Bool.false_and, Bool.false_eq_true,
          if_false] at h
        rw [and_iff_right hheld, or_iff_right (Nat.not_lt.mpr hseen), LayerNode.Full,
          ← makeRoom_unsolicited]
        split at h
        · rename_i e hroom
          cases h
          exact iff_of_true ⟨e, rfl⟩ ⟨e, hroom⟩
        · rename_i pending hroom
          cases h
          refine iff_of_false (fun ⟨e, he⟩ => by cases he) fun ⟨e, he⟩ => ?_
          rw [hroom] at he
          cases he
      · simp only [hseen, decide_false, Bool.not_false, Bool.true_and, decide_eq_true_eq,
          hfar, if_true] at h
        split at h
        · cases h
        · cases h
          exact iff_of_true ⟨_, rfl⟩ ⟨hheld, .inl (Nat.lt_of_not_le hseen)⟩

end Push

/-! ## Runs -/

/-- A push of a peer, the node that handled it with the tip it had read, and the
answer. -/
structure Pushed (Peer : Type) where
  peer : Peer
  node : LayerNode
  tip : Nat
  payload : BlockPayload
  answer : Except String Bool × Bool

namespace Pushed

variable {Peer : Type}

def height (x : Pushed Peer) : Nat := x.payload.height

def Rejected (x : Pushed Peer) : Prop := ∃ e, x.answer.1 = .error e

/-- It gets as far as the note of its height. -/
def Noted (x : Pushed Peer) : Prop := ¬ Oversized x.payload ∧ x.tip < x.height

/-- Beyond the window of the executed tip. -/
abbrev Far (x : Pushed Peer) : Prop := x.tip + peerPayloadLookahead < x.height

end Pushed

section Runs

variable {Tx Msg Data Genesis Peer : Type} (H : Bytes → Digest) (c : AppCodecs)
  (logic : StateMachine Tx Msg Data Genesis) (deps : NodeDeps Tx Data)

/-- A run of the node with the pushes of its peers, the last one first. Nothing but
a push notes a height. -/
inductive PeerRun (s₀ : NodeState Tx) : List (Pushed Peer) → NodeState Tx → Prop where
  | start : PeerRun s₀ [] s₀
  | push {log : List (Pushed Peer)} {s : NodeState Tx} {n : LayerNode} {x : Pushed Peer} :
      PeerRun s₀ log s → x.node = s.node → x.tip ≤ s.node.currentHeight →
      s.node.acceptPeerRelay H x.tip x.payload = some (x.answer, n) →
      PeerRun s₀ (x :: log) ⟨n, s.phase⟩
  | other {log : List (Pushed Peer)} {s s' : NodeState Tx} {a : Action Tx} {e : Option Executed} :
      PeerRun s₀ log s → step H c logic deps s a = some (s', e) →
      s'.node.maxSeenHeight = s.node.maxSeenHeight → PeerRun s₀ log s'

variable {H c logic deps} {s₀ s : NodeState Tx} {log : List (Pushed Peer)}

/-- A height has been seen if it was seen at the start, or if a noted push was at or
above it. -/
theorem PeerRun.maxSeen_iff (hrun : PeerRun H c logic deps s₀ log s) (height : Nat) :
    height ≤ s.node.maxSeenHeight ↔
      height ≤ s₀.node.maxSeenHeight ∨ ∃ y ∈ log, y.Noted ∧ height ≤ y.height := by
  induction hrun with
  | start => simp
  | @push log s n x hrun hnode htip haccept ih =>
    have hpush : height ≤ n.maxSeenHeight ↔
        height ≤ s.node.maxSeenHeight ∨ x.Noted ∧ height ≤ x.height :=
      seen_acceptPeerRelay_iff haccept height
    rw [hpush, ih, List.exists_mem_cons_iff, or_assoc, or_comm (b := x.Noted ∧ height ≤ x.height)]
  | other hrun hstep hsame ih => rw [hsame, ih]

/-- Every push of a run was handled by a node the run had reached. -/
theorem PeerRun.split {pre post : List (Pushed Peer)} {x : Pushed Peer}
    (hrun : PeerRun H c logic deps s₀ log s) (hlog : log = post ++ x :: pre) :
    ∃ s₁ n, PeerRun H c logic deps s₀ pre s₁ ∧ x.node = s₁.node ∧
      s₁.node.acceptPeerRelay H x.tip x.payload = some (x.answer, n) := by
  induction hrun generalizing post with
  | start => simp at hlog
  | @push log s n y hrun hnode htip haccept ih =>
    cases post with
    | nil =>
      obtain ⟨rfl, rfl⟩ := List.cons.inj hlog
      exact ⟨s, n, hrun, hnode, haccept⟩
    | cons z post => exact ih (List.cons.inj hlog).2
  | other hrun hstep hsame ih => exact ih hlog

/-- **Far payloads.** A peer pushes a payload beyond the window that nobody asked
for, at a height the node had not seen at the start and no other peer has
pushed at or above. It is rejected exactly if it is oversized; or if it is not
held, and either the same peer has not pushed at or above that height before,
or there is no room. -/
theorem farPayload_rejected_iff {pre post : List (Pushed Peer)} {x : Pushed Peer}
    (hrun : PeerRun H c logic deps s₀ (post ++ x :: pre) s) (hfar : x.Far)
    (hasked : x.node.Unasked H x.payload) (hstart : s₀.node.maxSeenHeight < x.height)
    (hothers : ∀ y ∈ pre, y.peer ≠ x.peer → y.height < x.height) :
    x.Rejected ↔ Oversized x.payload ∨ ¬ x.node.Holds H x.payload ∧
      ((∀ y ∈ pre, y.peer = x.peer → y.Noted → y.height < x.height) ∨ x.node.Full) := by
  obtain ⟨s₁, n, hpre, hnode, haccept⟩ := hrun.split rfl
  have hseen : x.node.maxSeenHeight < x.height ↔
      ∀ y ∈ pre, y.peer = x.peer → y.Noted → y.height < x.height := by
    rw [hnode, ← not_le, hpre.maxSeen_iff, or_iff_right (Nat.not_le.mpr hstart)]
    constructor
    · intro hnone y hy hpeer hnoted
      by_contra hle
      exact hnone ⟨y, hy, hnoted, Nat.le_of_not_lt hle⟩
    · rintro hall ⟨y, hy, hnoted, hle⟩
      by_cases hpeer : y.peer = x.peer
      · exact Nat.not_lt.mpr hle (hall y hy hpeer hnoted)
      · exact Nat.not_lt.mpr hle (hothers y hy hpeer)
  rw [← hseen]
  rw [← hnode] at haccept
  exact rejected_acceptPeerRelay_iff haccept hfar hasked

end Runs

/-! ## One payload, pushed twice -/

def farPayload : BlockPayload where
  height := 100
  parentDigest := zeroDigest
  timestampNanos := 1
  proposer := []
  stateRoot := zeroDigest
  txs := []

def freshNode : LayerNode := .new sha256 (.ofValues [] [] [] [] []) (App.new ⟨.memory, ∅, []⟩) 0

def noTxDeps : NodeDeps Bytes Unit := ⟨fun _ _ => none, fun _ _ _ => []⟩

abbrev SampleRun (log : List (Pushed Unit)) (s : NodeState Bytes) : Prop :=
  PeerRun sha256 (.ofValues [] [] [] [] []) sampleLogic noTxDeps ⟨freshNode, .idle⟩ log s

def firstPush : Pushed Unit :=
  ⟨(), freshNode, 0, farPayload, (.error "unsolicited payload beyond lookahead window", false)⟩

def secondPush (n : LayerNode) : Pushed Unit := ⟨(), n, 0, farPayload, (.ok true, true)⟩

theorem farPayload_answers : ∃ n₁ n₂,
    freshNode.acceptPeerRelay sha256 0 farPayload = some (firstPush.answer, n₁) ∧
    n₁.acceptPeerRelay sha256 0 farPayload = some ((secondPush n₁).answer, n₂) ∧
    n₁.Unasked sha256 farPayload := by
  have hrun : ((freshNode.acceptPeerRelay sha256 0 farPayload).bind fun x =>
      (x.2.acceptPeerRelay sha256 0 farPayload).map fun y =>
        (x.1, y.1, decide (x.2.Unasked sha256 farPayload))) =
      some (firstPush.answer, (.ok true, true), true) := by
    rw [freshNode, sha256_eq_eval]
    decide +kernel
  obtain ⟨⟨a₁, n₁⟩, h₁, hrest⟩ := Option.bind_eq_some_iff.mp hrun
  obtain ⟨⟨a₂, n₂⟩, h₂, heq⟩ := Option.map_eq_some_iff.mp hrest
  obtain ⟨rfl, heq⟩ := Prod.mk.inj heq
  obtain ⟨rfl, hasked⟩ := Prod.mk.inj heq
  exact ⟨n₁, n₂, h₁, h₂, of_decide_eq_true hasked⟩

/-- The first push is rejected. -/
theorem farPayload_rejected_sample : ∃ s, SampleRun [firstPush] s ∧ firstPush.Rejected := by
  obtain ⟨n₁, n₂, h₁, -⟩ := farPayload_answers
  have hrun : SampleRun ([] ++ firstPush :: []) ⟨n₁, .idle⟩ := .push .start rfl le_rfl h₁
  refine ⟨_, hrun, (farPayload_rejected_iff hrun (by decide) (by decide +kernel) (by decide)
    nofun).mpr (.inr ⟨by decide +kernel, .inl nofun⟩)⟩

/-- The same payload is accepted when the same peer sends it again. -/
theorem farPayload_self_authorised : ∃ n s, SampleRun [secondPush n, firstPush] s ∧
    (secondPush n).Far ∧ n.Unasked sha256 farPayload ∧ freshNode.maxSeenHeight < farPayload.height ∧
    firstPush.Rejected ∧ ¬ (secondPush n).Rejected := by
  obtain ⟨n₁, n₂, h₁, h₂, hasked⟩ := farPayload_answers
  have hfirst : SampleRun [firstPush] ⟨n₁, .idle⟩ := .push .start rfl le_rfl h₁
  have hsecond : SampleRun [secondPush n₁, firstPush] ⟨n₂, .idle⟩ :=
    .push hfirst rfl (Nat.zero_le _) h₂
  have haccepted : ¬ (secondPush n₁).Rejected := by
    rintro ⟨e, he⟩
    cases he
  exact ⟨n₁, _, hsecond, (by decide : 0 + peerPayloadLookahead < 100), hasked, by decide, ⟨_, rfl⟩,
    haccepted⟩

end LayerSdk
