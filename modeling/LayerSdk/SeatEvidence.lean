import LayerSdk.SeatRegistry
import LayerSdk.LcVerify

/-!
# Seat attestation: evidence

A submission names a view and carries two signed messages; the contract
stores it with `verified` set when both signatures verify under the seat's
share key. Nothing ties the messages to the view, to each other's view, or to
one kind of vote, so any two different votes of an honest validator pass:
its notarize and its finalize vote of one view already do
(`honest_votes_verified`).

`evidence_verified_iff` says that this is the only way: when the holder signs
one message per view and kind, a verified record exists exactly when somebody
submitted two genuine votes of different views or kinds. In the other direction,
`genuine_evidence_iff`: a genuine pair is recorded unless somebody has filled the
view with a pair that does not verify.
-/

namespace LayerSdk.Seats

/-! ## What the holder of a share signs -/

inductive VoteKind where
  | notarize
  | nullify
  | finalize
deriving DecidableEq, Repr

/-- A vote: where it belongs, and the bytes that are hashed to the curve. -/
structure SignedVote where
  view : Nat
  kind : VoteKind
  message : Bytes
deriving DecidableEq, Repr

/-- The holder of `pk` signed the votes of `log` and no others: one message per view
and kind, and whatever verifies is among them. -/
structure HonestHolder (api : Api) (pk : Bytes) (log : List SignedVote) : Prop where
  onePerSlot : ∀ a ∈ log, ∀ b ∈ log, a.view = b.view → a.kind = b.kind → a.message = b.message
  unforgeable : ∀ msg sig, verifyPartialSig api msg sig pk = true → ∃ a ∈ log, a.message = msg

/-- Two genuine votes of different views or kinds. -/
def CrossSlot (api : Api) (pk : Bytes) (log : List SignedVote) (msgA sigA msgB sigB : Bytes) :
    Prop :=
  ∃ a ∈ log, ∃ b ∈ log, a.message = msgA ∧ b.message = msgB ∧ (a.view, a.kind) ≠ (b.view, b.kind) ∧
    verifyPartialSig api msgA sigA pk = true ∧ verifyPartialSig api msgB sigB pk = true

theorem HonestHolder.crossSlot {api : Api} {pk : Bytes} {log : List SignedVote}
    (h : HonestHolder api pk log) {msgA sigA msgB sigB : Bytes} (hne : msgA ≠ msgB)
    (hA : verifyPartialSig api msgA sigA pk = true)
    (hB : verifyPartialSig api msgB sigB pk = true) :
    CrossSlot api pk log msgA sigA msgB sigB := by
  obtain ⟨a, ha, rfl⟩ := h.unforgeable _ _ hA
  obtain ⟨b, hb, rfl⟩ := h.unforgeable _ _ hB
  refine ⟨a, ha, b, hb, rfl, rfl, fun heq => ?_, hA, hB⟩
  obtain ⟨hview, hkind⟩ := Prod.mk.inj heq
  exact hne (h.onePerSlot a ha b hb hview hkind)

/-! ## Submissions -/

/-- `call` is accepted in `s` and stores `e` for seat `i` at `view`. -/
structure Submits (s : State) (call : Call) (i : UInt8) (view : Nat) (e : EvidenceRecord) :
    Prop where
  msg : call.msg = .submitEvidence i view e.msgA e.sigA e.msgB e.sigB
  differ : e.msgA ≠ e.msgB
  seat : ∃ r, s.seats[i]? = some r ∧
    e.verified = (verifyPartialSig call.env.api e.msgA e.sigA r.blsSharePubkey &&
      verifyPartialSig call.env.api e.msgB e.sigB r.blsSharePubkey)
  fresh : (i, view) ∉ s.evidence
  stored : (apply s call).evidence = s.evidence.insert (i, view) e

/-- A call leaves the evidence alone or adds one record under a new key. -/
theorem evidence_apply (s : State) (call : Call) :
    (apply s call).evidence = s.evidence ∨ ∃ i view e, Submits s call i view e := by
  rcases apply_cases s call with heq | hc
  · rw [heq]
    exact .inl rfl
  · obtain ⟨env, msg⟩ := call
    generalize hs' : apply s ⟨env, msg⟩ = s' at hc
    cases hc with
    | evidence seat i view msgA sigA msgB sigB hseat hdiffer hfresh =>
      exact .inr ⟨i, view, evidenceOf env seat i view msgA sigA msgB sigB, rfl, hdiffer,
        ⟨seat, hseat, rfl⟩, hfresh, by rw [hs']⟩
    | rotate old r retired _ _ _ hretired =>
      obtain rfl := retireKeys_eq_ok hretired
      exact .inl rfl
    | _ => exact .inl rfl

variable {i : UInt8} {view : Nat}

/-- Step: a record is there after a call when it was there before or the call stored it. -/
theorem getElem?_evidence_apply {s : State} {call : Call} {e : EvidenceRecord} :
    (apply s call).evidence[((i, view) : SeatKey)]? = some e ↔
      s.evidence[((i, view) : SeatKey)]? = some e ∨ Submits s call i view e := by
  constructor
  · intro he
    rcases evidence_apply s call with hsame | ⟨i', view', e', hsub⟩
    · rw [hsame] at he
      exact .inl he
    · rw [hsub.stored, OrdMap.getElem?_insert_cases] at he
      rcases he with ⟨heq, rfl⟩ | ⟨-, he⟩
      · cases heq
        exact .inr hsub
      · exact .inl he
  · rintro (he | hsub)
    · rcases evidence_apply s call with hsame | ⟨i', view', e', hsub⟩
      · rwa [hsame]
      · rw [hsub.stored, OrdMap.getElem?_insert_cases]
        refine .inr ⟨fun heq => hsub.fresh ?_, he⟩
        rw [heq]
        exact OrdMap.mem_of_getElem? he
    · rw [hsub.stored]
      exact Std.ExtTreeMap.getElem?_insert_self

/-- Run: every record comes from one submission. -/
theorem getElem?_evidence_run {e : EvidenceRecord} :
    ∀ {s : State} {calls : List Call}, (run s calls).evidence[((i, view) : SeatKey)]? = some e ↔
      s.evidence[((i, view) : SeatKey)]? = some e ∨
        ∃ done call later, calls = done ++ call :: later ∧ Submits (run s done) call i view e := by
  intro s calls
  induction calls generalizing s with
  | nil => simp [run]
  | cons call calls ih =>
    change (run (apply s call) calls).evidence[((i, view) : SeatKey)]? = some e ↔ _
    rw [ih, getElem?_evidence_apply]
    constructor
    · rintro ((he | hsub) | ⟨done, call', later, rfl, hsub⟩)
      · exact .inl he
      · exact .inr ⟨[], call, calls, rfl, hsub⟩
      · exact .inr ⟨call :: done, call', later, rfl, hsub⟩
    · rintro (he | ⟨done, call', later, hcalls, hsub⟩)
      · exact .inl (.inl he)
      · cases done with
        | nil =>
          obtain ⟨rfl, -⟩ := List.cons.inj hcalls
          exact .inl (.inr hsub)
        | cons first done =>
          obtain ⟨rfl, rfl⟩ := List.cons.inj hcalls
          exact .inr ⟨done, call', later, rfl, hsub⟩

/-- **Evidence.** While the holders of a seat's share keys sign one message per view
and kind and nobody forges, a seat is never stored with verified evidence exactly when
nobody submits two of its genuine votes of different views or kinds. -/
theorem evidence_verified_iff {api : Api} {msg : InstantiateMsg} {s₀ : State} {resp : Response}
    (hinit : instantiate api msg = .ok (s₀, resp)) (i : UInt8) (log : Bytes → List SignedVote)
    (calls : List Call) (hapi : ∀ call ∈ calls, call.env.api = api)
    (hhonest : ∀ done later r, calls = done ++ later → (run s₀ done).seats[i]? = some r →
      HonestHolder api r.blsSharePubkey (log r.blsSharePubkey)) :
    (∀ view e, (run s₀ calls).evidence[((i, view) : SeatKey)]? = some e → e.verified = false) ↔
      ∀ done call later view e r, calls = done ++ call :: later →
        Submits (run s₀ done) call i view e → (run s₀ done).seats[i]? = some r →
        ¬ CrossSlot api r.blsSharePubkey (log r.blsSharePubkey) e.msgA e.sigA e.msgB e.sigB := by
  have hempty : ∀ view, s₀.evidence[((i, view) : SeatKey)]? = none := by
    obtain ⟨_, -, h⟩ := bind_eq_ok.mp hinit
    obtain ⟨_, -, h⟩ := bind_eq_ok.mp h
    cases h
    intro view
    simp
  have hrecord : ∀ view e, (run s₀ calls).evidence[((i, view) : SeatKey)]? = some e ↔
      ∃ done call later, calls = done ++ call :: later ∧ Submits (run s₀ done) call i view e := by
    intro view e
    rw [getElem?_evidence_run, hempty]
    simp
  constructor
  · rintro hfalse done call later view e r rfl hsub hseat ⟨-, -, -, -, -, -, -, hA, hB⟩
    have he := hfalse view e ((hrecord view e).mpr ⟨done, call, later, rfl, hsub⟩)
    obtain ⟨r', hr', hverified⟩ := hsub.seat
    rw [hseat] at hr'
    cases hr'
    rw [hapi call (by simp), hA, hB, he] at hverified
    cases hverified
  · intro hno view e he
    obtain ⟨done, call, later, rfl, hsub⟩ := (hrecord view e).mp he
    obtain ⟨r, hr, hverified⟩ := hsub.seat
    rw [hapi call (by simp)] at hverified
    by_contra htrue
    rw [Bool.not_eq_false] at htrue
    rw [htrue, eq_comm, Bool.and_eq_true] at hverified
    exact hno done call later view e r rfl hsub hr
      ((hhonest done (call :: later) r rfl hr).crossSlot hsub.differ hverified.1 hverified.2)

/-! ### The two votes of an honest validator -/

def VoteKind.suffix : VoteKind → Bytes
  | .notarize => str "_NOTARIZE"
  | .nullify => str "_NULLIFY"
  | .finalize => Lc.finalizeSuffix

/-- `union_unique(namespace, proposal)`. -/
def voteMessage (kind : VoteKind) (p : Lc.DecodedProposal) : Bytes :=
  Lc.unionUnique (Lc.baseNamespace ++ kind.suffix) (Lc.encodeProposal p)

/-- The proposal of view 11. -/
def votedProposal : Lc.DecodedProposal := ⟨0, 11, 10, ⟨List.replicate 32 2, by simp⟩⟩

def voteLog : List SignedVote :=
  [⟨11, .notarize, voteMessage .notarize votedProposal⟩,
    ⟨11, .finalize, voteMessage .finalize votedProposal⟩]

/-- The partial signatures that exist, with the messages they are for. -/
def voteSignatures : List (Bytes × Bytes) :=
  [(List.replicate 48 1, voteMessage .notarize votedProposal),
    (List.replicate 48 2, voteMessage .finalize votedProposal)]

/-- Host functions under which exactly those signatures verify. -/
def voteApi : Api where
  addrValidate := .ok
  hashToG1 msg _ := some msg
  pairingEquality sig _ hm _ := some (decide ((sig, hm) ∈ voteSignatures))
  g2Generator := []

def voteEnv : Env := ⟨voteApi, groupOf ["ada"], 1000, "ada", []⟩

/-- Seat 0 is claimed and its two votes of view 11 are submitted. -/
def voteCalls : List Call :=
  [⟨voteEnv, .updateAttestation 0 [1] (List.replicate 96 9) none [4]⟩,
    ⟨voteEnv, .submitEvidence 0 11 (voteMessage .notarize votedProposal) (List.replicate 48 1)
      (voteMessage .finalize votedProposal) (List.replicate 48 2)⟩]

theorem honestHolder_voteLog (pk : Bytes) : HonestHolder voteApi pk voteLog where
  onePerSlot := by decide
  unforgeable msg sig h := by
    unfold verifyPartialSig at h
    split at h
    · cases h
    · have hmem : (sig, msg) ∈ voteSignatures := of_decide_eq_true h
      simp only [voteSignatures, List.mem_cons, Prod.mk.injEq, List.not_mem_nil, or_false] at hmem
      rcases hmem with ⟨-, rfl⟩ | ⟨-, rfl⟩
      · exact ⟨_, List.mem_cons_self, rfl⟩
      · exact ⟨_, List.mem_cons_of_mem _ (List.mem_cons_self), rfl⟩

theorem instantiate_voteApi : instantiate voteApi ⟨"group", "dao"⟩ =
    .ok (sampleState, [("action", "instantiate"), ("cw4_group_addr", "group"),
      ("dao_core_addr", "dao")]) := rfl

theorem evidence_verified_iff_sample :
    (∀ view e, (run sampleState voteCalls).evidence[((0, view) : SeatKey)]? = some e →
        e.verified = false) ↔
      ∀ done call later view e r, voteCalls = done ++ call :: later →
        Submits (run sampleState done) call 0 view e →
        (run sampleState done).seats[(0 : UInt8)]? = some r →
        ¬ CrossSlot voteApi r.blsSharePubkey voteLog e.msgA e.sigA e.msgB e.sigB :=
  evidence_verified_iff instantiate_voteApi 0 (fun _ => voteLog) voteCalls
    (fun call hcall => by
      simp only [voteCalls, List.mem_cons, List.not_mem_nil, or_false] at hcall
      rcases hcall with rfl | rfl <;> rfl)
    fun _ _ r _ _ => honestHolder_voteLog r.blsSharePubkey

/-- A notarize and a finalize vote of one view count as equivocation. -/
theorem honest_votes_verified :
    (∀ pk, HonestHolder voteApi pk voteLog) ∧
      (run sampleState voteCalls).evidence[((0, 11) : SeatKey)]?.map EvidenceRecord.verified =
        some true := by
  refine ⟨honestHolder_voteLog, ?_⟩
  decide +kernel

/-! ## Recording genuine evidence

A view has room for one record, and whoever comes first fills it: a pair that does not verify
is stored as well. -/

/-- A submission about a bound seat is stored, unless the view has a record already. -/
theorem apply_submitEvidence {s : State} {env : Env} {seat : SeatRecord}
    {msgA sigA msgB sigB : Bytes} (hfunds : env.funds = []) (hseat : s.seats[i]? = some seat)
    (hne : msgA ≠ msgB) : (apply s ⟨env, .submitEvidence i view msgA sigA msgB sigB⟩).evidence =
      if (i, view) ∈ s.evidence then s.evidence
      else s.evidence.insert (i, view) (evidenceOf env seat i view msgA sigA msgB sigB) := by
  have hload : loadSeat s i = .ok seat := loadSeat_eq_ok.mpr hseat
  have hpaid : ensure (env.funds = []) .payment = .ok () := if_pos hfunds
  have hdiffer : ensure (msgA ≠ msgB) .notEquivocating = .ok () := if_pos hne
  by_cases hold : (i, view) ∈ s.evidence
  · have hdup : ensure (¬ (i, view) ∈ s.evidence) (.duplicateEvidence i view) =
        fail (.duplicateEvidence i view) := if_neg (not_not.mpr hold)
    simp only [apply, execute, executeSubmitEvidence, hpaid, hdiffer, hload, hdup, fail, bind,
      Except.bind, if_pos hold]
  · have hnew : ensure (¬ (i, view) ∈ s.evidence) (.duplicateEvidence i view) = .ok () :=
      if_pos hold
    simp only [apply, execute, executeSubmitEvidence, hpaid, hdiffer, hload, hnew, bind,
      Except.bind, if_neg hold, evidenceOf]

/-- Two different messages with valid signatures under the current key of a bound seat leave a
verified record for the seat and the view, exactly when no unverified record stands there. -/
theorem genuine_evidence_iff {s : State} {env : Env} {i : UInt8} {view : Nat} {seat : SeatRecord}
    {msgA sigA msgB sigB : Bytes} (hfunds : env.funds = []) (hseat : s.seats[i]? = some seat)
    (hne : msgA ≠ msgB) (hA : verifyPartialSig env.api msgA sigA seat.blsSharePubkey = true)
    (hB : verifyPartialSig env.api msgB sigB seat.blsSharePubkey = true) :
    (∃ e, (apply s ⟨env, .submitEvidence i view msgA sigA msgB sigB⟩).evidence[
        ((i, view) : SeatKey)]? = some e ∧ e.verified = true) ↔
      ∀ e, s.evidence[((i, view) : SeatKey)]? = some e → e.verified = true := by
  rw [apply_submitEvidence hfunds hseat hne]
  cases hold : s.evidence[((i, view) : SeatKey)]? with
  | none =>
    rw [if_neg (OrdMap.not_mem_of_getElem? hold), Std.ExtTreeMap.getElem?_insert_self]
    exact iff_of_true ⟨_, rfl, by simp [evidenceOf, hA, hB]⟩ nofun
  | some e =>
    rw [if_pos (OrdMap.mem_of_getElem? hold), hold]
    simp

/-- The first submission of the two votes above. -/
theorem genuine_evidence_iff_sample :
    (∃ e, (apply (run sampleState (voteCalls.take 1)) ⟨voteEnv, .submitEvidence 0 11
        (voteMessage .notarize votedProposal) (List.replicate 48 1)
        (voteMessage .finalize votedProposal) (List.replicate 48 2)⟩).evidence[
        ((0, 11) : SeatKey)]? = some e ∧ e.verified = true) ↔
      ∀ e, (run sampleState (voteCalls.take 1)).evidence[((0, 11) : SeatKey)]? = some e →
        e.verified = true :=
  @genuine_evidence_iff _ voteEnv 0 11 ⟨0, "ada", [1], List.replicate 96 9, none, [4], 1000⟩
    _ _ _ _ rfl (by decide +kernel) (by decide +kernel) (by decide +kernel) (by decide +kernel)

/-- `eve` fills view 11 with two strings that nobody signed; the votes come too late. -/
def floodedCalls : List Call :=
  [⟨voteEnv, .updateAttestation 0 [1] (List.replicate 96 9) none [4]⟩,
    ⟨{ voteEnv with sender := "eve" }, .submitEvidence 0 11 [1] [] [2] []⟩,
    ⟨voteEnv, .submitEvidence 0 11 (voteMessage .notarize votedProposal) (List.replicate 48 1)
      (voteMessage .finalize votedProposal) (List.replicate 48 2)⟩]

theorem genuine_evidence_refused :
    (run sampleState (floodedCalls.take 2)).seats[(0 : UInt8)]?.map SeatRecord.blsSharePubkey =
        some (List.replicate 96 9) ∧
      verifyPartialSig voteApi (voteMessage .notarize votedProposal) (List.replicate 48 1)
        (List.replicate 96 9) = true ∧
      verifyPartialSig voteApi (voteMessage .finalize votedProposal) (List.replicate 48 2)
        (List.replicate 96 9) = true ∧
      (run sampleState floodedCalls).evidence[((0, 11) : SeatKey)]?.map
        (fun e => (e.submittedBy, e.verified)) = some ("eve", false) := by
  refine ⟨?_, ?_, ?_, ?_⟩ <;> decide +kernel

end LayerSdk.Seats
