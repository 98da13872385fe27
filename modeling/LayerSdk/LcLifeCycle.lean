import LayerSdk.LcRun
import LayerSdk.Plus

/-!
# Light client: queries and life cycle

The contract's `query` entry point, and what the two entry points together
promise over the life of a client: it freezes once and for good, and until
then every certified header above the latest height gets in.

A frozen client is frozen because `checkHeader` looks at `frozenHeight`
first, and both messages that write go through it. An active one takes a
new header because nothing is ever stored above the latest height
(`Client.Valid.below`), so the equivocation guard finds nothing to compare.
-/

namespace LayerSdk.Lc

inductive QueryMsg where
  | status
  | timestampAtHeight (height : Height)
  | verifyClientMessage (clientMessage : Bytes)
  | checkForMisbehaviour (clientMessage : Bytes)
deriving DecidableEq, Repr

/-- What an answer carries, before it is written as JSON. -/
inductive QueryResponse where
  | status (status : String)
  | timestampAtHeight (timestamp : Nat)
  | empty
  | checkForMisbehaviour (foundMisbehaviour : Bool)
deriving DecidableEq, Repr

def ContractError.display : ContractError → String
  | .std e => e.display
  | .clientFrozen height =>
    "client is frozen at height " ++ Nat.repr height ++ " (misbehaviour detected)"
  | .nonMonotonicHeight header latest =>
    "header height " ++ Nat.repr header ++ " is not greater than latest verified height " ++
      Nat.repr latest
  | .invalidPublicKeyLength len =>
    "group public key must be exactly 96 bytes (compressed G2 point), got " ++ Nat.repr len
  | .invalidPublicKey => "group public key is not a valid compressed G2 point"
  | .invalidCertificateLength len =>
    "certificate must be exactly 48 bytes (compressed G1 point), got " ++ Nat.repr len
  | .invalidCertificate => "certificate is not a valid compressed G1 point"
  | .invalidProposal => "proposal bytes are malformed (truncated varint or wrong length)"
  | .verificationFailed =>
    "BLS12-381 pairing check failed — certificate does not verify against the group public key"
  | .consensusStateNotFound height => "no consensus state stored for height " ++ Nat.repr height
  | .misbehaviourMismatch => "misbehaviour headers must be for the same height or round"
  | .noEquivocation => "no equivocation found between the two supplied headers"
  | .membershipProofsUnsupported =>
    "membership/non-membership proofs are not yet supported: " ++
      "the batch commitment layout (spec §8, §11.1) is not yet pinned down"
  | .invalidMembershipProof => "membership proof verification failed"
  | .unsupported => "operation is not supported by this client (v1)"
  -- a trap leaves no text
  | .aborted => ""

variable (d : Deps)

/-- A client message is a header or, failing that, a report. -/
def verifyClientMessage (clientState : ClientState) (clientMessage : Bytes) :
    Except ContractError Unit :=
  match d.header.fromJson clientMessage with
  | .ok header => (checkHeader d clientState header).map fun _ => ()
  | .error _ =>
    match d.misbehaviour.fromJson clientMessage with
    | .ok misbehaviour => checkMisbehaviour d clientState misbehaviour
    | .error _ => .error .invalidProposal

def query (storage : Store) : QueryMsg → Except Unstored QueryResponse
  | .status => do
    let (clientState, _) ← loadClientState d.clientState storage
    .ok (.status (if clientState.frozenHeight.isSome then "Frozen" else "Active"))
  | .timestampAtHeight height => do
    match ← mayLoadConsensusState d.consensusState storage height with
    | none => .error (.std (.notFound "ConsensusState"))
    | some consensusState => .ok (.timestampAtHeight consensusState.timestamp)
  | .verifyClientMessage clientMessage => do
    let (clientState, _) ← loadClientState d.clientState storage
    match verifyClientMessage d clientState clientMessage with
    | .ok () => .ok .empty
    | .error e => .error (.std (.genericErr e.display))
  | .checkForMisbehaviour clientMessage => do
    let (clientState, _) ← loadClientState d.clientState storage
    match d.misbehaviour.fromJson clientMessage with
    | .ok misbehaviour =>
      .ok (.checkForMisbehaviour (checkMisbehaviour d clientState misbehaviour).isOk)
    | .error _ => .ok (.checkForMisbehaviour false)

variable {d}

variable {s : Store} {c : Client} {f : Height} {msg : SudoMsg}

theorem query_status (hs : Represents d s c) : query d s .status =
      .ok (.status (if c.state.frozenHeight.isSome then "Frozen" else "Active")) := by
  rw [query, hs.state]
  rfl

/-! ## Frozen -/

theorem checkHeader_frozen {cs : ClientState} (hf : cs.frozenHeight = some f) (header : Header) :
    checkHeader d cs header = .error (.clientFrozen f.revisionHeight) := by
  rw [checkHeader, hf]

/-- A frozen client refuses both messages that write, whatever they carry. -/
theorem Client.Step.not_frozen {c' : Client} (h : c.Step d msg c')
    (hf : c.state.frozenHeight = some f) :
    (∀ b, msg ≠ .updateState b) ∧ (∀ b, msg ≠ .updateStateOnMisbehaviour b) := by
  cases h with
  | updated _ hacc =>
    have hchecked := hacc.checked
    rw [checkHeader_frozen hf] at hchecked
    cases hchecked
  | @frozen b m _ hcheck =>
    rw [checkMisbehaviour, checkHeader_frozen hf] at hcheck
    cases hcheck
  | unchanged hne hne' => exact ⟨hne, hne'⟩

theorem sudoEntry_store {s' : Store} {r : Response} (h : sudoEntry d s msg = .ok (s', r))
    (hne : ∀ b, msg ≠ .updateState b) (hne' : ∀ b, msg ≠ .updateStateOnMisbehaviour b) :
    s' = s := by
  cases msg with
  | updateState b => exact absurd rfl (hne b)
  | updateStateOnMisbehaviour b => exact absurd rfl (hne' b)
  | verifyMembership => exact Client.verifyMembership_store h
  | verifyNonMembership | verifyUpgradeAndUpdateState => cases h
  | migrateClientStore => exact (Prod.mk.inj (Except.ok.inj h)).1.symm

theorem Represents.refuses (hs : Represents d s c) (hf : c.state.frozenHeight = some f)
    (hmsg : (∃ b, msg = .updateState b) ∨ ∃ b, msg = .updateStateOnMisbehaviour b) :
    ∃ e, sudoEntry d s msg = .error e := by
  cases h : sudoEntry d s msg with
  | error e => exact ⟨e, rfl⟩
  | ok r =>
    obtain ⟨c', hstep, -⟩ := Client.step_of_sudoEntry hs h
    obtain ⟨hne, hne'⟩ := hstep.not_frozen hf
    rcases hmsg with ⟨b, rfl⟩ | ⟨b, rfl⟩
    · exact absurd rfl (hne b)
    · exact absurd rfl (hne' b)

theorem afterCalls_append (s₀ : Store) (later earlier : List SudoMsg) :
    afterCalls d s₀ (later ++ earlier) = afterCalls d (afterCalls d s₀ earlier) later := by
  induction later with
  | nil => rfl
  | cons msg later ih => rw [List.cons_append, afterCalls, ih, afterCalls]

/-- No sequence of calls writes to the store of a frozen client. -/
theorem Represents.afterCalls_frozen (hs : Represents d s c) (hf : c.state.frozenHeight = some f)
    (msgs : List SudoMsg) : afterCalls d s msgs = s := by
  induction msgs with
  | nil => rfl
  | cons msg msgs ih =>
    rw [afterCalls, ih]
    cases h : sudoEntry d s msg with
    | error e => rfl
    | ok r =>
      obtain ⟨c', hstep, -⟩ := Client.step_of_sudoEntry hs h
      obtain ⟨hne, hne'⟩ := hstep.not_frozen hf
      exact sudoEntry_store h hne hne'

theorem Client.Step.frozenHeight {c' : Client} {b : Bytes}
    (h : c.Step d (.updateStateOnMisbehaviour b) c') : ∃ f, c'.state.frozenHeight = some f := by
  cases h with
  | frozen _ _ => exact ⟨_, rfl⟩
  | unchanged _ hne => exact absurd rfl (hne b)

/-! ## Active -/

/-- `to_json_vec` succeeds at `x`. The contract's types derive their
serialiser and have no failing case; what is left open is that the text fits
the contract's memory. -/
def Writes {α : Type} (codec : WasmCodec α) (x : α) : Prop := ∃ b, codec.toJsonVec x = .ok b

theorem saveClientState_of_writes (s : Store) (checksum : Bytes) {cs : ClientState}
    (h : Writes d.clientState cs) : ∃ s', saveClientState d.clientState s cs checksum = .ok s' := by
  obtain ⟨b, hb⟩ := h
  exact ⟨_, by rw [saveClientState, hb]; rfl⟩

theorem saveConsensusState_of_writes (s : Store) (height : Height) {k : ConsensusState}
    (h : Writes d.consensusState k) :
    ∃ s', saveConsensusState d.consensusState s height k = .ok s' := by
  obtain ⟨b, hb⟩ := h
  exact ⟨_, by rw [saveConsensusState, hb]; rfl⟩

/-- A header above the latest height meets nothing stored at its height. -/
theorem Client.Valid.accepts (hv : c.Valid) {header : Header} {decoded : DecodedProposal}
    (hcheck : checkHeader d c.state header = .ok decoded)
    (habove : c.state.latestHeight.revisionHeight < header.height.revisionHeight) :
    c.Accepts d header decoded where
  checked := hcheck
  notBelow := habove.le
  payload k hk := absurd (hv.below _ k hk).2 (Nat.not_le.mpr habove)
  replay heq := absurd heq habove.ne'

theorem updateState_of_accepts (hs : Represents d s c) {b : Bytes} {header : Header}
    {decoded : DecodedProposal} (hheader : d.header.fromJson b = .ok header)
    (hacc : c.Accepts d header decoded)
    (hk : Writes d.consensusState (consensusStateOf header decoded))
    (hc : Writes d.clientState { c.state with latestHeight := header.height }) :
    ∃ s', updateState d s b = .ok (s', .updateState [header.height]) := by
  obtain ⟨s₁, hs₁⟩ := saveConsensusState_of_writes s header.height hk
  obtain ⟨s₂, hs₂⟩ := saveClientState_of_writes s₁ c.checksum hc
  refine ⟨s₂, ?_⟩
  rw [updateState, hs.state, hheader]
  simp only [ofStd_ok, ofStore_ok, bind, Except.bind, (checkUpdateHeader_ok hs).mpr hacc, hs₁, hs₂]


/-- **Life cycle.** An accepted report freezes the client for good: no later
call changes the store, every later update and report is refused, and the
status is `Frozen`. In every state reached that is not frozen, a certified
header of the client's revision above the latest height is taken. -/
theorem frozen_forever_and_active_progress {msg : InstantiateMsg} {s₀ : Store}
    (hlen : msg.checksum.length < 2 ^ 31) (hinit : instantiate d ∅ msg = .ok s₀) :
    (∀ (b : Bytes) (earlier later : List SudoMsg),
        (sudoEntry d (afterCalls d s₀ earlier) (.updateStateOnMisbehaviour b)).isOk = true →
        afterCalls d s₀ (later ++ .updateStateOnMisbehaviour b :: earlier) =
            afterCalls d s₀ (.updateStateOnMisbehaviour b :: earlier) ∧
          (∀ b', ∃ e, sudoEntry d
            (afterCalls d s₀ (later ++ .updateStateOnMisbehaviour b :: earlier))
            (.updateState b') = .error e) ∧
          (∀ b', ∃ e, sudoEntry d
            (afterCalls d s₀ (later ++ .updateStateOnMisbehaviour b :: earlier))
            (.updateStateOnMisbehaviour b') = .error e) ∧
          query d (afterCalls d s₀ (later ++ .updateStateOnMisbehaviour b :: earlier)) .status =
            .ok (.status "Frozen")) ∧
      ∀ (msgs : List SudoMsg) (cs : ClientState) (checksum pk b : Bytes) (header : Header)
        (decoded : DecodedProposal),
        loadClientState d.clientState (afterCalls d s₀ msgs) = .ok (cs, checksum) →
        cs.frozenHeight = none → hexDecode cs.groupPublicKeyHex = some pk →
        d.header.fromJson b = .ok header →
        header.height.revisionNumber = cs.latestHeight.revisionNumber →
        cs.latestHeight.revisionHeight < header.height.revisionHeight →
        verifyCertificate d.bls pk header.proposalBytes header.certificateBytes = .ok decoded →
        Writes d.consensusState (consensusStateOf header decoded) →
        Writes d.clientState { cs with latestHeight := header.height } →
        ∃ s', sudoEntry d (afterCalls d s₀ msgs) (.updateState b) =
          .ok (s', .updateState [header.height]) := by
  obtain ⟨c₀, h₀, hv₀⟩ := represents_of_instantiate hlen hinit
  constructor
  · intro b earlier later hok
    obtain ⟨c, hs, -⟩ := (run_transitions s₀ earlier).represents h₀ hv₀
    cases hcall : sudoEntry d (afterCalls d s₀ earlier) (.updateStateOnMisbehaviour b) with
    | error e => rw [hcall] at hok; cases hok
    | ok r =>
      obtain ⟨c', hstep, hs'⟩ := Client.step_of_sudoEntry hs hcall
      obtain ⟨f, hf⟩ := hstep.frozenHeight
      have hafter : afterCalls d s₀ (.updateStateOnMisbehaviour b :: earlier) = r.1 := by
        rw [afterCalls, hcall]
      rw [afterCalls_append, hafter, hs'.afterCalls_frozen hf later]
      refine ⟨rfl, fun b' => hs'.refuses hf (.inl ⟨b', rfl⟩),
        fun b' => hs'.refuses hf (.inr ⟨b', rfl⟩), ?_⟩
      rw [query_status hs', hf]
      rfl
  · intro msgs cs checksum pk b header decoded hload hactive hpk hheader hrev habove hcert hk hc
    obtain ⟨c, hs, hv⟩ := (run_transitions s₀ msgs).represents h₀ hv₀
    obtain ⟨rfl, -⟩ := Prod.mk.inj (Except.ok.inj (hs.state.symm.trans hload))
    have hcheck : checkHeader d c.state header = .ok decoded := by
      rw [checkHeader, hactive]
      rw [if_neg (not_not.mpr hrev), hpk]
      exact hcert
    exact updateState_of_accepts hs hheader (hv.accepts hcheck habove) hk hc

/-! ### One update, then a report -/

def lifeDeps : Deps :=
  .ofValues sha256 [(List.replicate 48 2, encodeProposal (sampleProposal 11 2)),
      (List.replicate 48 3, encodeProposal (sampleProposal 12 3))]
    [sampleClient 10, sampleClient 11, { sampleClient 11 with frozenHeight := some ⟨0, 12⟩ }]
    [sampleGenesis, consensusStateOf (sampleHeader 11 1100 11 2) (sampleProposal 11 2)]
    [sampleHeader 11 1100 11 2] [sampleReport] []

def lifeStart : Store :=
  match instantiate lifeDeps ∅ sampleInstantiate with
  | .ok s => s
  | .error _ => ∅

theorem instantiate_life : instantiate lifeDeps ∅ sampleInstantiate = .ok lifeStart := by
  have hok : (instantiate lifeDeps ∅ sampleInstantiate).isOk = true := by decide +kernel
  unfold lifeStart
  cases h : instantiate lifeDeps ∅ sampleInstantiate with
  | error e => rw [h] at hok; cases hok
  | ok s => rfl

theorem frozen_forever_and_active_progress_sample :
    query lifeDeps (afterCalls lifeDeps lifeStart
        ([.migrateClientStore] ++ .updateStateOnMisbehaviour (misbehaviourJson sampleReport) ::
          [sampleUpdate (sampleHeader 11 1100 11 2)])) .status = .ok (.status "Frozen") ∧
      ∃ s', sudoEntry lifeDeps (afterCalls lifeDeps lifeStart [])
        (sampleUpdate (sampleHeader 11 1100 11 2)) = .ok (s', .updateState [⟨0, 11⟩]) := by
  obtain ⟨hfrozen, hactive⟩ := frozen_forever_and_active_progress (by decide) instantiate_life
  constructor
  · exact (hfrozen _ [sampleUpdate (sampleHeader 11 1100 11 2)] [.migrateClientStore]
      (by decide +kernel)).2.2.2
  · exact hactive [] (sampleClient 10) [] (List.replicate 96 0xb0) _ (sampleHeader 11 1100 11 2)
      (sampleProposal 11 2) (by decide +kernel) rfl (by decide +kernel) (by decide +kernel) rfl
      (by decide) (by decide +kernel) ⟨_, (by decide +kernel : lifeDeps.consensusState.toJsonVec _ =
        .ok (consensusStateJson
          (consensusStateOf (sampleHeader 11 1100 11 2) (sampleProposal 11 2))))⟩
      ⟨_, (by decide +kernel : lifeDeps.clientState.toJsonVec _ =
        .ok (clientStateJson (sampleClient 11)))⟩

end LayerSdk.Lc
