import LayerSdk.Node

/-!
# The payload channel

What the receive task does with one message of an authenticated peer: answer a
request for a digest or for a range of heights, or take in a pushed payload.
The task lets go of the node's locks between any two looks at it, so the node
it sees is given anew for each look. Logging is left out.
-/

namespace LayerSdk

def payloadMsgPush : UInt8 := 0
def payloadMsgRequest : UInt8 := 1
def payloadMsgRequestRange : UInt8 := 2

def backfillBatchSize : Nat := 64

/-- `from_be_bytes` -/
def fromBeBytes (b : Bytes) : Nat := b.foldl (fun n x => n * 256 + x.toNat) 0

/-- A node with the height index of its payload store. -/
structure Serving where
  node : LayerNode
  byHeight : Std.ExtTreeMap Nat Digest

/-- What handling a message leaves: the node, the replies, and what is handed to
the cascade. -/
structure Handled where
  node : LayerNode
  replies : List Bytes
  cascade : Option Bytes

section Channel

variable (H : Bytes → Digest) (c : AppCodecs)

def Serving.lookupPayload (v : Serving) (digest : Digest) : Option BlockPayload :=
  v.node.pendingPayloads[digest.bytes]?.or (v.node.store.get H digest)

def Serving.payloadByHeight (v : Serving) (height : Nat) : Option BlockPayload :=
  ((v.node.pendingPayloads.toList.map Prod.snd).find? fun p => p.height == height).or
    ((v.byHeight[height]?.bind fun digest => v.node.store.get H digest).or
      ((v.node.app.getBlockPayload c height).bind BlockPayload.fromBytes))

def pushMsg (p : BlockPayload) : Bytes := payloadMsgPush :: p.toBytes

def serveDigest (v : Serving) (body : Bytes) : Handled :=
  if h : body.length = 32 then
    ⟨v.node, ((v.lookupPayload H ⟨body, h⟩).map pushMsg).toList, none⟩
  else ⟨v.node, [], none⟩

def rangeStart (body : Bytes) : Nat := fromBeBytes (body.take 8)

def rangeCount (body : Bytes) : Nat := min (fromBeBytes (body.drop 8)) backfillBatchSize

/-- `for h in start..start + count`; `none` is the overflow of the bound. -/
def serveRange (seen : Nat → Serving) (body : Bytes) : Option Handled :=
  if body.length ≠ 10 then some ⟨(seen 0).node, [], none⟩
  else if rangeStart body + rangeCount body > u64Max then none
  else
    some ⟨(seen (rangeCount body)).node, (List.range (rangeCount body)).filterMap fun i =>
      ((seen i).payloadByHeight H c (rangeStart body + i)).map pushMsg, none⟩

/-- The tip is read first, the rest under the later locks. -/
def takePush (seen : Nat → Serving) (body : Bytes) : Option Handled :=
  match BlockPayload.fromBytes body with
  | none => some ⟨(seen 0).node, [], none⟩
  | some p =>
    ((seen 1).node.acceptPeerRelay H (seen 0).node.currentHeight p).map fun (answer, node) =>
      match answer with
      | (.ok true, true) => ⟨node, [], some body⟩
      | _ => ⟨node, [], none⟩

/-- One turn of the receive loop; `none` is a panic. -/
def receivePayloadMsg (seen : Nat → Serving) : Bytes → Option Handled
  | [] => some ⟨(seen 0).node, [], none⟩
  | tag :: body =>
    if tag = payloadMsgRequest then some (serveDigest H (seen 0) body)
    else if tag = payloadMsgRequestRange then serveRange H c seen body
    else if tag ≠ payloadMsgPush then some ⟨(seen 0).node, [], none⟩
    else takePush H seen body

/-! ## Where it panics -/

/-- A range request whose end is past the last height. -/
def EndOverflows (msg : Bytes) : Prop :=
  ∃ body, msg = payloadMsgRequestRange :: body ∧ body.length = 10 ∧
    u64Max < rangeStart body + rangeCount body

/-- A push that is compared with the end of a look-ahead window past the last height. -/
def WindowOverflows (seen : Nat → Serving) (msg : Bytes) : Prop :=
  ∃ body p, msg = payloadMsgPush :: body ∧ BlockPayload.fromBytes body = some p ∧
    p.txs.length ≤ maxBlockTxs ∧ (p.txs.map List.length).sum ≤ maxBlockTxBytes ∧
    (seen 0).node.currentHeight < p.height ∧ (seen 1).node.maxSeenHeight < p.height ∧
    p.digest H ∉ (seen 1).node.requested ∧ p.height ∉ (seen 1).node.requestedHeights ∧
    (seen 1).node.pendingPayloads.contains (p.digest H).bytes = false ∧
    u64Max < (seen 0).node.currentHeight + peerPayloadLookahead

theorem acceptPeerRelay_eq_none_iff {n : LayerNode} {tip : Nat} {p : BlockPayload} :
    n.acceptPeerRelay H tip p = none ↔
      p.txs.length ≤ maxBlockTxs ∧ (p.txs.map List.length).sum ≤ maxBlockTxBytes ∧
      tip < p.height ∧ n.maxSeenHeight < p.height ∧ p.digest H ∉ n.requested ∧
      p.height ∉ n.requestedHeights ∧ n.pendingPayloads.contains (p.digest H).bytes = false ∧
      u64Max < tip + peerPayloadLookahead := by
  unfold LayerNode.acceptPeerRelay
  by_cases hsize : p.txs.length > maxBlockTxs ∨ (p.txs.map List.length).sum > maxBlockTxBytes
  · simp only [if_pos hsize, reduceCtorEq, false_iff]
    rintro ⟨hcount, hbytes, -⟩
    omega
  · rw [if_neg hsize]
    rw [not_or, not_lt, not_lt] at hsize
    by_cases htip : p.height ≤ tip
    · simp [htip, not_lt.mpr htip]
    · rw [if_neg htip]
      cases hknown : n.pendingPayloads.contains (p.digest H).bytes with
      | true => simp [hknown]
      | false =>
        simp only [hknown, Bool.false_eq_true, if_false, true_and]
        split
        case isTrue hwindow =>
          simp only [Bool.and_eq_true, Bool.not_eq_true', decide_eq_false_iff_not, not_or,
            not_le, decide_eq_true_eq] at hwindow
          obtain ⟨⟨⟨hdigest, hheight⟩, hseen⟩, hover⟩ := hwindow
          exact iff_of_true rfl ⟨hsize.1, hsize.2, not_le.mp htip, hseen, hdigest, hheight, hover⟩
        case isFalse hwindow =>
          refine iff_of_false ?_ fun ⟨_, _, _, hseen, hdigest, hheight, hover⟩ => hwindow ?_
          · split
            · simp
            · split <;> simp
          · simp [hdigest, hheight, hover, not_le.mpr hseen]

variable {seen : Nat → Serving} {body : Bytes}

theorem takePush_eq_none_iff :
    takePush H seen body = none ↔ WindowOverflows H seen (payloadMsgPush :: body) := by
  unfold takePush WindowOverflows
  cases hp : BlockPayload.fromBytes body with
  | none =>
    simp only [reduceCtorEq, false_iff, not_exists]
    rintro body' p ⟨hmsg, hdec, -⟩
    rw [← (List.cons.inj hmsg).2, hp] at hdec
    cases hdec
  | some p =>
    simp only [Option.map_eq_none_iff, acceptPeerRelay_eq_none_iff]
    constructor
    · exact fun h => ⟨body, p, rfl, hp, h⟩
    · rintro ⟨body', p', hmsg, hdec, h⟩
      rw [← (List.cons.inj hmsg).2, hp] at hdec
      exact Option.some.inj hdec ▸ h

theorem takePush_replies {out : Handled} (hout : takePush H seen body = some out) :
    out.replies = [] := by
  unfold takePush at hout
  split at hout
  · cases hout; rfl
  · obtain ⟨⟨answer, node⟩, -, rfl⟩ := Option.map_eq_some_iff.mp hout
    dsimp only
    split <;> rfl

theorem serveDigest_replies {v : Serving} :
    (serveDigest H v body).replies.length ≤ backfillBatchSize := by
  unfold serveDigest
  split
  · cases v.lookupPayload H _ <;> simp [backfillBatchSize]
  · simp

theorem serveRange_eq_none_iff :
    serveRange H c seen body = none ↔ EndOverflows (payloadMsgRequestRange :: body) := by
  have hend : EndOverflows (payloadMsgRequestRange :: body) ↔
      body.length = 10 ∧ u64Max < rangeStart body + rangeCount body :=
    ⟨fun ⟨_, hmsg, h⟩ => (List.cons.inj hmsg).2 ▸ h, fun h => ⟨body, rfl, h⟩⟩
  unfold serveRange
  by_cases hlen : body.length = 10 <;> simp [hend, hlen]

theorem serveRange_replies {out : Handled} (hout : serveRange H c seen body = some out) :
    out.replies.length ≤ backfillBatchSize := by
  unfold serveRange at hout
  split at hout
  · cases hout; simp
  · split at hout
    · cases hout
    · cases hout
      calc ((List.range (rangeCount body)).filterMap _).length
          ≤ (List.range (rangeCount body)).length := List.length_filterMap_le ..
        _ = rangeCount body := List.length_range
        _ ≤ backfillBatchSize := Nat.min_le_right ..

/-- **The payload channel.** A message is handled to the end, with at most a batch
of replies, if and only if no sum of heights overflows on the way: neither the
end of a requested range nor the end of the look-ahead window. -/
theorem receivePayloadMsg_iff (seen : Nat → Serving) (msg : Bytes) :
    (∃ out, receivePayloadMsg H c seen msg = some out ∧
        out.replies.length ≤ backfillBatchSize) ↔
      ¬ EndOverflows msg ∧ ¬ WindowOverflows H seen msg := by
  cases msg with
  | nil =>
    refine iff_of_true ⟨_, rfl, Nat.zero_le _⟩ ⟨?_, ?_⟩
    · rintro ⟨body, hmsg, -⟩
      cases hmsg
    · rintro ⟨body, p, hmsg, -⟩
      cases hmsg
  | cons tag body =>
    -- the two conditions look at messages of different tags
    have hend : EndOverflows (tag :: body) → tag = payloadMsgRequestRange :=
      fun ⟨_, hmsg, _⟩ => (List.cons.inj hmsg).1
    have hwindow : WindowOverflows H seen (tag :: body) → tag = payloadMsgPush :=
      fun ⟨_, _, hmsg, _⟩ => (List.cons.inj hmsg).1
    rw [receivePayloadMsg]
    by_cases hrequest : tag = payloadMsgRequest
    · subst hrequest
      rw [if_pos rfl]
      exact iff_of_true ⟨_, rfl, serveDigest_replies H⟩
        ⟨fun h => absurd (hend h) (by decide), fun h => absurd (hwindow h) (by decide)⟩
    · by_cases hrange : tag = payloadMsgRequestRange
      · subst hrange
        have hno : ¬ WindowOverflows H seen (payloadMsgRequestRange :: body) :=
          fun h => absurd (hwindow h) (by decide)
        have hnone : serveRange H c seen body = none ↔ _ := serveRange_eq_none_iff H c
        rw [if_neg hrequest, if_pos rfl, ← hnone]
        constructor
        · rintro ⟨out, hout, -⟩
          exact ⟨by simp [hout], hno⟩
        · rintro ⟨hsome, -⟩
          obtain ⟨out, hout⟩ := Option.ne_none_iff_exists'.mp hsome
          exact ⟨out, hout, serveRange_replies H c hout⟩
      · have hno : ¬ EndOverflows (tag :: body) := fun h => hrange (hend h)
        rw [if_neg hrequest, if_neg hrange]
        by_cases hpush : tag = payloadMsgPush
        · subst hpush
          rw [if_neg (not_not.mpr rfl), ← takePush_eq_none_iff]
          constructor
          · rintro ⟨out, hout, -⟩
            exact ⟨hno, by simp [hout]⟩
          · rintro ⟨-, hsome⟩
            obtain ⟨out, hout⟩ := Option.ne_none_iff_exists'.mp hsome
            exact ⟨out, hout, by simp [takePush_replies H hout]⟩
        · rw [if_pos hpush]
          exact iff_of_true ⟨_, rfl, Nat.zero_le _⟩ ⟨hno, fun h => hpush (hwindow h)⟩

end Channel

/-- A node that has executed nothing. -/
def freshServing : Serving :=
  ⟨.new sha256 (.ofValues [] [] [] [] []) (App.new ⟨.memory, ∅, []⟩) 0, ∅⟩

/-- One height, from the last one on. -/
def lastHeightRequest : Bytes := payloadMsgRequestRange :: (List.replicate 8 255 ++ [0, 1])

theorem lastHeightRequest_panics :
    receivePayloadMsg sha256 (.ofValues [] [] [] [] []) (fun _ => freshServing)
      lastHeightRequest = none := by
  rw [lastHeightRequest, receivePayloadMsg, if_neg (by decide), if_pos rfl,
    serveRange_eq_none_iff]
  exact ⟨_, rfl, by decide, by decide⟩

end LayerSdk
