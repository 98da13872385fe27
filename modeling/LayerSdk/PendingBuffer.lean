import LayerSdk.Finalized
import LayerSdk.FarPayloads

/-!
# The buffer of pending payloads

Payloads of peers wait in a map of bounded size until they are executed. The
last slots are kept for payloads the node has asked for, and one of those is
never refused: in a full buffer the highest entry makes room for it, whatever
its own height. `RelayLaw` is what one push can do, `pending_run` the bound
over a run of the node. An entry can go for a payload that is farther from the
tip than itself (`closest_lost`).
-/

namespace LayerSdk

open Std

/-- The last maximum of a list. -/
theorem maxByKey_spec {α : Type} {key : α → Nat} {l : List α} {x : α}
    (h : maxByKey key l = some x) : x ∈ l ∧ ∀ y ∈ l, key y ≤ key x := by
  induction l generalizing x with
  | nil => cases h
  | cons a rest ih =>
    rw [maxByKey] at h
    cases hrest : maxByKey key rest with
    | none =>
      have hnil : rest = [] := by
        cases rest with
        | nil => rfl
        | cons b rest =>
          rw [maxByKey] at hrest
          split at hrest
          · cases hrest
          · split at hrest <;> cases hrest
      simp only [hrest] at h
      cases h
      simp [hnil]
    | some best =>
      obtain ⟨hmem, hle⟩ := ih hrest
      simp only [hrest] at h
      split at h
      · cases h
        refine ⟨List.mem_cons_self, ?_⟩
        simp only [List.mem_cons, forall_eq_or_imp, Nat.le_refl, true_and]
        intro y hy
        exact (hle y hy).trans (by omega)
      · cases h
        refine ⟨List.mem_cons_of_mem a hmem, ?_⟩
        simp only [List.mem_cons, forall_eq_or_imp]
        exact ⟨by omega, hle⟩

theorem maxByKey_isSome {α : Type} (key : α → Nat) {l : List α} (h : l ≠ []) :
    ∃ x, maxByKey key l = some x := by
  cases l with
  | nil => exact absurd rfl h
  | cons a rest =>
    rw [maxByKey]
    split
    · exact ⟨a, rfl⟩
    · split <;> exact ⟨_, rfl⟩

/-! ## One push -/

section Push

variable {H : Bytes → Digest} {n n' : LayerNode} {tip : Nat} {p : BlockPayload}
  {answer : Except String Bool × Bool} {pending pending' : Pending} {solicited : Bool}

/-- An entry of greatest height. -/
def Highest (pending : Pending) (q : BlockPayload) : Prop :=
  ∀ (d : Bytes) (q' : BlockPayload), pending[d]? = some q' → q'.height ≤ q.height

/-- How room is made. -/
theorem makeRoom_cases (h : LayerNode.makeRoom pending solicited = .ok pending') :
    (pending' = pending ∧ pending.size < maxPendingPayloadsTotal ∧
      (solicited = false →
        pending.size < maxPendingPayloadsTotal - pendingSolicitedReserve)) ∨
    (solicited = true ∧ maxPendingPayloadsTotal ≤ pending.size ∧ ∃ d q,
      pending[d]? = some q ∧ Highest pending q ∧ pending' = pending.erase d) := by
  unfold LayerNode.makeRoom at h
  by_cases hfull : pending.size ≥ maxPendingPayloadsTotal
  · rw [if_pos hfull] at h
    cases solicited with
    | false => cases h
    | true =>
      simp only [if_true] at h
      split at h
      · cases h
      · rename_i victim hvictim
        cases h
        obtain ⟨hmem, hle⟩ := maxByKey_spec hvictim
        refine .inr ⟨rfl, hfull, victim.1, victim.2, ?_, ?_, rfl⟩
        · exact ExtTreeMap.mem_toList_iff_getElem?_eq_some.1 hmem
        · intro d q' hq'
          exact hle (d, q') (ExtTreeMap.mem_toList_iff_getElem?_eq_some.2 hq')
  · rw [if_neg hfull] at h
    split at h
    · cases h
    · rename_i hreserve
      cases h
      refine .inl ⟨rfl, Nat.lt_of_not_le hfull, ?_⟩
      rintro rfl
      exact Nat.lt_of_not_le fun hle => hreserve (by simpa using hle)

theorem makeRoom_solicited (pending : Pending) :
    ∃ pending', LayerNode.makeRoom pending true = .ok pending' := by
  unfold LayerNode.makeRoom
  by_cases hfull : pending.size ≥ maxPendingPayloadsTotal
  · have hne : pending.toList ≠ [] := by
      intro hnil
      have hsize : pending.size = 0 := by rw [← ExtTreeMap.length_toList, hnil, List.length_nil]
      rw [hsize] at hfull
      exact absurd hfull (by decide)
    obtain ⟨victim, hvictim⟩ := maxByKey_isSome (fun e : Bytes × BlockPayload => e.2.height) hne
    exact ⟨_, by rw [if_pos hfull, if_pos rfl, hvictim]⟩
  · exact ⟨pending, by rw [if_neg hfull]; rfl⟩

/-- What becomes of the buffer: nothing, or the payload is new, room is made, and it
goes in. -/
theorem acceptPeerRelay_cases (h : n.acceptPeerRelay H tip p = some (answer, n')) :
    (n'.pendingPayloads = n.pendingPayloads ∧ answer.1 ≠ .ok true) ∨
    (answer.1 = .ok true ∧ ∃ pending,
      LayerNode.makeRoom n.pendingPayloads (decide ¬ n.Unasked H p) = .ok pending ∧
      n'.pendingPayloads = pending.insert (p.digest H).bytes p) := by
  have hsolicited : decide (p.digest H ∈ n.requested ∨ p.height ∈ n.requestedHeights) =
      decide ¬ n.Unasked H p := by
    rw [decide_eq_decide, LayerNode.Unasked, not_and_or, not_not, not_not]
  unfold LayerNode.acceptPeerRelay at h
  split at h
  · cases h
    exact .inl ⟨rfl, by simp⟩
  split at h
  · cases h
    exact .inl ⟨rfl, by simp⟩
  dsimp only at h
  rw [hsolicited] at h
  split at h
  · cases h
    exact .inl ⟨rfl, by simp⟩
  split at h
  · cases h
  split at h
  · cases h
    exact .inl ⟨rfl, by simp⟩
  split at h
  · cases h
    exact .inl ⟨rfl, by simp⟩
  · rename_i pending hroom
    cases h
    exact .inr ⟨rfl, pending, hroom, rfl⟩

/-- A payload the node has asked for is taken, or held already. -/
theorem acceptPeerRelay_solicited (hasked : ¬ n.Unasked H p) (hsize : ¬ Oversized p)
    (htip : tip < p.height) :
    ∃ fresh n', n.acceptPeerRelay H tip p = some ((.ok fresh, false), n') ∧ n'.Holds H p := by
  have hsolicited : decide (p.digest H ∈ n.requested ∨ p.height ∈ n.requestedHeights) = true := by
    rw [decide_eq_true_eq]
    rwa [LayerNode.Unasked, not_and_or, not_not, not_not] at hasked
  obtain ⟨pending, hroom⟩ := makeRoom_solicited n.pendingPayloads
  unfold LayerNode.acceptPeerRelay
  rw [if_neg hsize, if_neg (Nat.not_le.2 htip)]
  dsimp only
  rw [hsolicited]
  by_cases hheld : n.pendingPayloads.contains (p.digest H).bytes = true
  · exact ⟨false, _, if_pos hheld, hheld⟩
  · rw [if_neg hheld]
    simp only [Bool.not_true, Bool.false_and, Bool.false_eq_true, if_false, hroom]
    exact ⟨true, _, rfl, by simp [LayerNode.Holds]⟩

/-- What one push does to the buffer. -/
structure RelayLaw (H : Bytes → Digest) (n : LayerNode) (p : BlockPayload)
    (answer : Except String Bool × Bool) (n' : LayerNode) : Prop where
  /-- A payload nobody asked for takes none of the reserved slots. -/
  reserve : n.Unasked H p → answer.1 = .ok true →
    n'.pendingPayloads.size ≤ maxPendingPayloadsTotal - pendingSolicitedReserve
  /-- An entry only goes from a full buffer, for a payload that was asked for; it is one
  of the highest, and the others stay. -/
  givenUp : ∀ (d : Bytes) (q : BlockPayload), n.pendingPayloads[d]? = some q →
    n'.pendingPayloads[d]? = none →
      maxPendingPayloadsTotal ≤ n.pendingPayloads.size ∧ ¬ n.Unasked H p ∧
      answer.1 = .ok true ∧ Highest n.pendingPayloads q ∧
      ∀ d' ≠ d, d' ≠ (p.digest H).bytes → n'.pendingPayloads[d']? = n.pendingPayloads[d']?

theorem relayLaw (h : n.acceptPeerRelay H tip p = some (answer, n')) :
    RelayLaw H n p answer n' := by
  obtain ⟨hsame, hanswer⟩ | ⟨hanswer, pending, hroom, hinsert⟩ := acceptPeerRelay_cases h
  · refine ⟨fun _ hok => absurd hok hanswer, ?_⟩
    intro d q hq hgone
    rw [hsame, hq] at hgone
    cases hgone
  · obtain ⟨rfl, -, hreserve⟩ | ⟨hsolicited, hfull, d₀, q₀, hq₀, hhigh, rfl⟩ :=
      makeRoom_cases hroom
    · constructor
      · intro hunasked _
        have hlt := hreserve (by simpa using hunasked)
        rw [hinsert]
        exact ExtTreeMap.size_insert_le.trans hlt
      · intro d q hq hgone
        rw [hinsert, ExtTreeMap.getElem?_insert] at hgone
        split at hgone
        · cases hgone
        · rw [hq] at hgone
          cases hgone
    · have hasked : ¬ n.Unasked H p := of_decide_eq_true hsolicited
      refine ⟨fun hunasked => absurd hunasked hasked, ?_⟩
      intro d q hq hgone
      rw [hinsert, ExtTreeMap.getElem?_insert, ExtTreeMap.getElem?_erase] at hgone
      split at hgone
      · cases hgone
      split at hgone
      · rename_i hd
        obtain rfl : d₀ = d := by simpa using hd
        obtain rfl : q = q₀ := Option.some.inj (hq.symm.trans hq₀)
        refine ⟨hfull, hasked, hanswer, hhigh, ?_⟩
        intro d' hne hnew
        rw [hinsert, ExtTreeMap.getElem?_insert, ExtTreeMap.getElem?_erase,
          if_neg (by simpa using hnew.symm), if_neg (by simpa using hne.symm)]
      · rw [hq] at hgone
        cases hgone

theorem size_acceptPeerRelay (h : n.acceptPeerRelay H tip p = some (answer, n')) :
    n'.pendingPayloads.size ≤ max n.pendingPayloads.size maxPendingPayloadsTotal := by
  obtain ⟨hsame, -⟩ | ⟨-, pending, hroom, hinsert⟩ := acceptPeerRelay_cases h
  · rw [hsame]
    exact Nat.le_max_left _ _
  · rw [hinsert]
    obtain ⟨rfl, hlt, -⟩ | ⟨-, hfull, d, q, hq, -, rfl⟩ := makeRoom_cases hroom
    · exact (ExtTreeMap.size_insert_le.trans hlt).trans (Nat.le_max_right _ _)
    · have hmem : n.pendingPayloads.contains d = true := by
        rw [ExtTreeMap.contains_eq_isSome_getElem?, hq]
        rfl
      have herase : (n.pendingPayloads.erase d).size = n.pendingPayloads.size - 1 := by
        rw [ExtTreeMap.size_erase, if_pos hmem]
      have hinsert_le := @ExtTreeMap.size_insert_le _ _ _ (n.pendingPayloads.erase d) _
        (p.digest H).bytes p
      have hpos : 0 < n.pendingPayloads.size := Nat.lt_of_lt_of_le (by decide) hfull
      omega

end Push

/-! ## Runs of the node -/

section Runs

variable {Tx Msg Data Genesis : Type} {H : Bytes → Digest} {c : AppCodecs}
  {logic : StateMachine Tx Msg Data Genesis} {deps : NodeDeps Tx Data}

/-- A payload the node puts in itself: its proposals, and those it finds on disk. -/
def Action.isOwn : Action Tx → Bool
  | .insertPending _ => true
  | _ => false

theorem size_advance {io : Bool} {n n' : LayerNode} {phase phase' : Phase Tx}
    {x : Option Executed} (h : advance H c logic deps io n phase = some ((n', phase'), x)) :
    n'.pendingPayloads.size ≤ n.pendingPayloads.size := by
  cases phase with
  | idle => cases h
  | walking w | reading w => cases h; exact Nat.le_refl _
  | missing w => cases h
  | applying q => cases h; exact Nat.le_refl _
  | checked p q => cases h; exact ExtTreeMap.size_erase_le
  | executing p q =>
    unfold advance at h
    dsimp only at h
    split at h
    · cases h
    · cases h
      exact Nat.le_refl _
  | built p block txHashes q =>
    simp only [advance, commitPayload] at h
    split at h
    · cases h
    · cases h
      exact Nat.le_refl _
    · cases h
      exact Nat.le_refl _
  | recording p responses q =>
    obtain ⟨app, -, heq⟩ := Option.map_eq_some_iff.mp h
    cases heq
    exact Nat.le_refl _
  | storing p q => cases h; exact Nat.le_refl _
  | closing result =>
    cases h
    cases result with
    | none => exact Nat.le_refl _
    | some r => exact ExtTreeMap.size_filter_le_size

/-- Step: nothing but the node's own insertions takes the buffer over its bound. -/
theorem size_step {s s' : NodeState Tx} {action : Action Tx} {x : Option Executed}
    (h : step H c logic deps s action = some (s', x)) :
    s'.node.pendingPayloads.size ≤
      max s.node.pendingPayloads.size maxPendingPayloadsTotal + action.isOwn.toNat := by
  obtain ⟨n, phase⟩ := s
  have hkeep : n.pendingPayloads.size ≤
      max n.pendingPayloads.size maxPendingPayloadsTotal + action.isOwn.toNat := by omega
  cases action with
  | finalize digest =>
    cases phase with
    | idle =>
      simp only [step, beginFinalize] at h
      split at h
      · cases h
        exact hkeep
      · cases h
        exact hkeep
    | _ => cases h
  | advance io =>
    obtain ⟨⟨⟨n', phase'⟩, x'⟩, hadvance, heq⟩ := Option.map_eq_some_iff.mp h
    cases heq
    exact (size_advance hadvance).trans hkeep
  | poll request =>
    cases phase with
    | missing w =>
      cases h
      cases request with
      | true | false => exact hkeep
    | _ => cases h
  | giveUp =>
    cases phase with
    | missing w => cases h; exact hkeep
    | _ => cases h
  | cancel => cases h; exact hkeep
  | panic app =>
    cases phase with
    | built p block txHashes q =>
      unfold step at h
      dsimp only at h
      split at h
      · cases h
        exact hkeep
      · cases h
    | _ => cases h
  | relay tip p =>
    unfold step at h
    dsimp only at h
    split at h
    · obtain ⟨⟨r, n'⟩, haccept, heq⟩ := Option.map_eq_some_iff.mp h
      cases heq
      exact size_acceptPeerRelay haccept
    · cases h
  | insertPending p =>
    cases h
    exact ExtTreeMap.size_insert_le.trans (Nat.succ_le_succ (Nat.le_max_left _ _))
  | appCall call =>
    unfold step at h
    dsimp only at h
    split at h
    · obtain ⟨app, -, heq⟩ := Option.map_eq_some_iff.mp h
      cases heq
      exact hkeep
    · cases h
  | files store
  | bookkeeping requested requestedHeights certifiedDigests maxSeenHeight => cases h; exact hkeep

/-- Run: by induction on the actions. -/
theorem pending_run {actions : List (Action Tx)} {s s' : NodeState Tx} {log : List Executed}
    (h : runActions H c logic deps actions s = some (s', log)) :
    s'.node.pendingPayloads.size ≤
      max s.node.pendingPayloads.size maxPendingPayloadsTotal +
        actions.countP Action.isOwn := by
  induction actions generalizing s log with
  | nil =>
    cases h
    exact Nat.le_max_left _ _
  | cons action rest ih =>
    obtain ⟨⟨s₁, x⟩, hstep, hrest⟩ := Option.bind_eq_some_iff.mp h
    obtain ⟨⟨s₂, log₂⟩, htail, heq⟩ := Option.bind_eq_some_iff.mp hrest
    cases heq
    have htail := ih htail
    have hstep := size_step hstep
    rw [List.countP_cons]
    cases hown : action.isOwn with
    | false | true => simp [hown] at hstep ⊢; omega

/-- **The pending buffer.** Over every run of the node the buffer stays within its
bound, the node's own insertions apart. In every state a run reaches, a payload
nobody asked for takes none of the reserved slots, a payload that was asked for,
above the tip and within the limits of a block, is taken, and what a full buffer
gives up for it is one of its highest entries. -/
theorem pending_bounded (actions : List (Action Tx)) (s₀ s : NodeState Tx) (log : List Executed)
    (hstart : s₀.node.pendingPayloads.size ≤ maxPendingPayloadsTotal)
    (hrun : runActions H c logic deps actions s₀ = some (s, log)) :
    s.node.pendingPayloads.size ≤ maxPendingPayloadsTotal + actions.countP Action.isOwn ∧
    (∀ tip p answer n, s.node.acceptPeerRelay H tip p = some (answer, n) →
      RelayLaw H s.node p answer n) ∧
    ∀ tip p, ¬ s.node.Unasked H p → ¬ Oversized p → tip < p.height →
      ∃ fresh n, s.node.acceptPeerRelay H tip p = some ((.ok fresh, false), n) ∧ n.Holds H p := by
  refine ⟨?_, fun _ _ _ _ haccept => relayLaw haccept, ?_⟩
  · have hsize := pending_run hrun
    rwa [Nat.max_eq_right hstart] at hsize
  · intro tip p hasked hsize htip
    exact acceptPeerRelay_solicited hasked hsize htip

end Runs

/-! ## A buffer full of the next height -/

/-- A stand-in hash: the bytes after the height. -/
def tailHash (b : Bytes) : Digest :=
  ⟨(b.drop 8 ++ List.replicate 32 0).take 32, by simp⟩

/-- Payloads that differ in their time. -/
def timed (height i : Nat) : BlockPayload := ⟨height, i, [], [], zeroDigest, zeroDigest⟩

theorem timed_digest_inj {height height' i j : Nat} (hi : i < 2 ^ 64) (hj : j < 2 ^ 64)
    (h : ((timed height i).digest tailHash).bytes = ((timed height' j).digest tailHash).bytes) :
    i = j := by
  have hfront (height k : Nat) :
      ((timed height k).digest tailHash).bytes.take 8 = u64le k := by
    simp [BlockPayload.digest, timed, BlockPayload.toBytes, tailHash, u64le, List.take_take]
  have hbytes : u64le i = u64le j := by rw [← hfront height i, h, hfront height' j]
  rw [← fromU64le_u64le hi, ← fromU64le_u64le hj, hbytes]

def tailNode : LayerNode := .new tailHash (.ofValues [] [] [] [] []) (App.new ⟨.memory, ∅, []⟩) 0

/-- The node asks its peers for one height. -/
def askHeight (n : LayerNode) (height : Nat) : Action Bytes :=
  .bookkeeping n.requested (insert height n.requestedHeights) n.certifiedDigests n.maxSeenHeight

abbrev TailRun (s : NodeState Bytes) (actions : List (Action Bytes)) (s' : NodeState Bytes) :
    Prop :=
  ∃ log, runActions tailHash (.ofValues [] [] [] [] []) sampleLogic noTxDeps actions s =
    some (s', log)

theorem TailRun.cons {s s₁ s' : NodeState Bytes} {a : Action Bytes} {x : Option Executed}
    {rest : List (Action Bytes)}
    (hstep : step tailHash (.ofValues [] [] [] [] []) sampleLogic noTxDeps s a = some (s₁, x))
    (hrest : TailRun s₁ rest s') : TailRun s (a :: rest) s' := by
  obtain ⟨log, hrest⟩ := hrest
  refine ⟨x.toList ++ log, ?_⟩
  simp only [runActions, hstep, hrest, bind, Option.bind_some]
  rfl

/-- The buffer holds `k` payloads of the first height. -/
structure Level (k : Nat) (n : LayerNode) : Prop where
  size : n.pendingPayloads.size = k
  entry : ∀ (d : Bytes) (q : BlockPayload), n.pendingPayloads[d]? = some q →
    q.height = 1 ∧ ∃ i < k, d = ((timed 1 i).digest tailHash).bytes

theorem level_tailNode : Level 0 tailNode := by
  refine ⟨rfl, ?_⟩
  intro d q hq
  rw [show tailNode.pendingPayloads = ∅ from rfl, ExtTreeMap.getElem?_empty] at hq
  cases hq

theorem Level.not_holds {k j height : Nat} {n : LayerNode} (h : Level k n) (hk : k ≤ j)
    (hj : j < 2 ^ 64) : ¬ n.Holds tailHash (timed height j) := by
  intro hheld
  rw [LayerNode.Holds, ExtTreeMap.contains_eq_isSome_getElem?] at hheld
  obtain ⟨q, hq⟩ := Option.isSome_iff_exists.1 hheld
  obtain ⟨-, i, hi, hdigest⟩ := h.entry _ q hq
  have := timed_digest_inj hj (by omega) hdigest
  omega

/-- A payload that was asked for and is not held goes in. -/
theorem accept_timed {n : LayerNode} {height i : Nat} (hheight : 0 < height)
    (hasked : height ∈ n.requestedHeights) (hnew : ¬ n.Holds tailHash (timed height i)) :
    ∃ n' pending, n.acceptPeerRelay tailHash 0 (timed height i) = some ((.ok true, false), n') ∧
      LayerNode.makeRoom n.pendingPayloads true = .ok pending ∧
      n'.pendingPayloads =
        pending.insert ((timed height i).digest tailHash).bytes (timed height i) := by
  have hunasked : ¬ n.Unasked tailHash (timed height i) := fun h => h.2 hasked
  have hsize : ¬ Oversized (timed height i) := by
    simp [Oversized, timed]
  obtain ⟨fresh, n', haccept, hholds⟩ := acceptPeerRelay_solicited hunasked hsize hheight
  obtain ⟨hsame, -⟩ | ⟨hfresh, pending, hroom, hinsert⟩ := acceptPeerRelay_cases haccept
  · rw [LayerNode.Holds, hsame] at hholds
    exact absurd hholds hnew
  · obtain rfl : fresh = true := Except.ok.inj hfresh
    rw [decide_eq_true hunasked] at hroom
    exact ⟨n', pending, haccept, hroom, hinsert⟩

/-- One more: the node asks for the first height, and a peer answers. -/
theorem Level.round {k : Nat} {s : NodeState Bytes} (h : Level k s.node)
    (hk : k < maxPendingPayloadsTotal) :
    ∃ s', Level (k + 1) s'.node ∧ ∀ {rest s''}, TailRun s' rest s'' →
      TailRun s (askHeight s.node 1 :: .relay 0 (timed 1 k) :: rest) s'' := by
  have hbound : maxPendingPayloadsTotal < 2 ^ 64 := by decide
  let n₁ : LayerNode := { s.node with requestedHeights := insert 1 s.node.requestedHeights }
  have hnew : ¬ n₁.Holds tailHash (timed 1 k) := h.not_holds (Nat.le_refl k) (by omega)
  obtain ⟨n', pending, haccept, hroom, hinsert⟩ :=
    accept_timed (n := n₁) Nat.one_pos (Finset.mem_insert_self _ _) hnew
  obtain ⟨rfl, -⟩ | ⟨-, hfull, -⟩ := makeRoom_cases hroom
  · refine ⟨⟨n', s.phase⟩, ⟨?_, ?_⟩, ?_⟩
    · rw [hinsert, ExtTreeMap.size_insert, if_neg hnew]
      exact congrArg (· + 1) h.size
    · intro d q hq
      rw [hinsert, ExtTreeMap.getElem?_insert] at hq
      split at hq
      · rename_i hd
        cases hq
        exact ⟨rfl, k, Nat.lt_succ_self k, by simpa using (Eq.symm (by simpa using hd))⟩
      · obtain ⟨hheight, i, hi, hdigest⟩ := h.entry d q hq
        exact ⟨hheight, i, Nat.lt_succ_of_lt hi, hdigest⟩
    · intro rest s'' hrest
      have hrelay : step tailHash (.ofValues [] [] [] [] []) sampleLogic noTxDeps ⟨n₁, s.phase⟩
          (.relay 0 (timed 1 k)) = some (⟨n', s.phase⟩, none) := by
        simp only [step, Nat.zero_le, if_true, haccept, Option.map_some]
      exact .cons (x := none) rfl (.cons hrelay hrest)
  · have hsize : n₁.pendingPayloads.size = k := h.size
    omega

theorem pending_bounded_onePush : ∃ s,
    TailRun ⟨tailNode, .idle⟩ [askHeight tailNode 1, .relay 0 (timed 1 0)] s ∧
    s.node.pendingPayloads.size = 1 ∧
    s.node.pendingPayloads.size ≤ maxPendingPayloadsTotal +
      [askHeight tailNode 1, .relay 0 (timed 1 0)].countP Action.isOwn := by
  obtain ⟨s, hlevel, hround⟩ :=
    Level.round (s := ⟨tailNode, .idle⟩) level_tailNode (k := 0) (by decide)
  obtain ⟨log, hrun⟩ := hround (show TailRun s [] s from ⟨[], rfl⟩)
  exact ⟨s, ⟨log, hrun⟩, hlevel.size, (pending_bounded _ _ s log (Nat.zero_le _) hrun).1⟩

/-- By induction on the slots that are left; the last action asks for the height after. -/
theorem Level.fill {k : Nat} {s : NodeState Bytes} (h : Level k s.node) :
    ∀ r, k + r = maxPendingPayloadsTotal → ∃ actions s',
      TailRun s actions s' ∧ actions.countP Action.isOwn = 0 ∧
      Level maxPendingPayloadsTotal s'.node ∧ 2 ∈ s'.node.requestedHeights
  | 0, hk => by
    obtain rfl : k = maxPendingPayloadsTotal := hk
    exact ⟨[askHeight s.node 2], _, .cons (x := none) rfl ⟨[], rfl⟩, rfl, ⟨h.size, h.entry⟩,
      Finset.mem_insert_self _ _⟩
  | r + 1, hk => by
    obtain ⟨s₁, hlevel, hround⟩ := h.round (by omega)
    obtain ⟨actions, s', hrun, hown, hfull, hasked⟩ := hlevel.fill r (by omega)
    exact ⟨_, s', hround hrun, hown, hfull, hasked⟩

/-- A buffer filled with payloads of the next height: one of them goes for a payload
of the height after. -/
theorem closest_lost : ∃ (actions : List (Action Bytes)) (s : NodeState Bytes) (n' : LayerNode)
      (d : Bytes) (q : BlockPayload),
    TailRun ⟨tailNode, .idle⟩ actions s ∧ actions.countP Action.isOwn = 0 ∧
    s.node.acceptPeerRelay tailHash 0 (timed 2 maxPendingPayloadsTotal) =
      some ((.ok true, false), n') ∧
    s.node.pendingPayloads[d]? = some q ∧ n'.pendingPayloads[d]? = none ∧
    (∀ (d' : Bytes) (q' : BlockPayload), s.node.pendingPayloads[d']? = some q' →
      q.height ≤ q'.height) ∧
    q.height < (timed 2 maxPendingPayloadsTotal).height := by
  obtain ⟨actions, s, hrun, hown, hfull, hasked⟩ :=
    Level.fill (s := ⟨tailNode, .idle⟩) level_tailNode maxPendingPayloadsTotal (Nat.zero_add _)
  have hnew : ¬ s.node.Holds tailHash (timed 2 maxPendingPayloadsTotal) :=
    hfull.not_holds (Nat.le_refl _) (by decide)
  obtain ⟨n', pending, haccept, hroom, hinsert⟩ := accept_timed Nat.two_pos hasked hnew
  obtain ⟨-, hlt, -⟩ | ⟨-, -, d, q, hq, -, rfl⟩ := makeRoom_cases hroom
  · rw [hfull.size] at hlt
    exact absurd hlt (Nat.lt_irrefl _)
  · have hheight := (hfull.entry d q hq).1
    have hd : ((timed 2 maxPendingPayloadsTotal).digest tailHash).bytes ≠ d := by
      rintro rfl
      exact hnew (by rw [LayerNode.Holds, ExtTreeMap.contains_eq_isSome_getElem?, hq]; rfl)
    refine ⟨actions, s, n', d, q, hrun, hown, haccept, hq, ?_, ?_, ?_⟩
    · rw [hinsert, ExtTreeMap.getElem?_insert, ExtTreeMap.getElem?_erase,
        if_neg (by simpa using hd), if_pos (by simp)]
    · intro d' q' hq'
      rw [hheight, (hfull.entry d' q' hq').1]
    · rw [hheight]
      exact Nat.one_lt_two

end LayerSdk
