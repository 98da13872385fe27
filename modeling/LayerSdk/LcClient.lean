import LayerSdk.LcContract

/-!
# Light client: the client over whole runs

What the contract is for, without its encodings: a client state and a
partial map from heights to consensus states (`Client`). `Represents` says
that the contract's own load functions read a store this way, and
`Client.step_of_sudoEntry` that every accepted call moves the abstract
client by one of three steps. Everything about runs is read off these
steps.
-/

namespace LayerSdk.Lc

variable (d : Deps)

/-! ## The abstract client -/

/-- Below or at, within one revision. -/
def Height.le (h h' : Height) : Prop :=
  h.revisionNumber = h'.revisionNumber ∧ h.revisionHeight ≤ h'.revisionHeight

structure Client where
  state : ClientState
  checksum : Bytes
  consensus : Height → Option ConsensusState

/-- The store, read through the contract's load functions, is `c`. -/
structure Represents (s : Store) (c : Client) : Prop where
  state : loadClientState d.clientState s = .ok (c.state, c.checksum)
  consensus : ∀ h, mayLoadConsensusState d.consensusState s h = .ok (c.consensus h)
  checksum : c.checksum.length < 2 ^ 31

namespace Client

/-- Store a verified header and move the latest height to it. -/
def update (c : Client) (header : Header) (decoded : DecodedProposal) : Client where
  state := { c.state with latestHeight := header.height }
  checksum := c.checksum
  consensus := Function.update c.consensus header.height (some (consensusStateOf header decoded))

def freeze (c : Client) (height : Height) : Client where
  state := { c.state with frozenHeight := some height }
  checksum := c.checksum
  consensus := c.consensus

/-- When the contract takes a header: it is certified and of the client's
revision, and it is either above the latest height or carries the payload
stored there. -/
structure Accepts (c : Client) (header : Header) (decoded : DecodedProposal) : Prop where
  checked : checkHeader d c.state header = .ok decoded
  notBelow : c.state.latestHeight.revisionHeight ≤ header.height.revisionHeight
  payload : ∀ k, c.consensus header.height = some k →
    k.payloadDigestHex = hexEncode decoded.payload.bytes
  replay : header.height.revisionHeight = c.state.latestHeight.revisionHeight →
    ∃ k, c.consensus header.height = some k

end Client

variable {d}

theorem checkHeader_ok {cs : ClientState} {header : Header} {decoded : DecodedProposal}
    (h : checkHeader d cs header = .ok decoded) :
    cs.frozenHeight = none ∧ header.height.revisionNumber = cs.latestHeight.revisionNumber ∧
      decodeProposal header.proposalBytes = .ok decoded := by
  unfold checkHeader at h
  split at h
  · cases h
  · rename_i hfrozen
    split at h
    · cases h
    · rename_i hrev
      split at h
      · cases h
      · exact ⟨hfrozen, not_not.mp hrev, (verifyCertificate_ok d.bls h).1⟩

theorem checkUpdateHeader_ok {s : Store} {c : Client} (hs : Represents d s c) {header : Header}
    {decoded : DecodedProposal} :
    checkUpdateHeader d s c.state header = .ok decoded ↔ c.Accepts d header decoded := by
  unfold checkUpdateHeader
  rw [hs.consensus header.height]
  cases hcheck : checkHeader d c.state header with
  | error e =>
    constructor
    · intro h
      cases h
    · intro h
      rw [h.checked] at hcheck
      cases hcheck
  | ok p =>
    simp only [ofStore_ok, bind, Except.bind]
    constructor
    · intro h
      cases hk : c.consensus header.height with
      | none =>
        rw [hk] at h
        split at h
        · split at h <;> cases h
        · cases h
          exact ⟨hcheck, by omega, fun k hk' => by simp [hk] at hk', fun heq => by omega⟩
      | some k =>
        rw [hk] at h
        have hpay : k.payloadDigestHex = hexEncode p.payload.bytes ∧ p = decoded ∧
            c.state.latestHeight.revisionHeight ≤ header.height.revisionHeight := by
          dsimp only at h
          split at h
          · split at h
            · split at h
              · exact ⟨by assumption, Except.ok.inj h, by omega⟩
              · cases h
            · cases h
          · split at h
            · cases h
            · exact ⟨not_not.mp (by assumption), Except.ok.inj h, by omega⟩
        obtain ⟨hdig, rfl, hle⟩ := hpay
        exact ⟨hcheck, hle, fun k' hk' => by
          rw [hk] at hk'
          cases hk'
          exact hdig, fun _ => ⟨k, hk⟩⟩
    · intro h
      have hp : p = decoded := by
        have := h.checked
        rw [hcheck] at this
        exact Except.ok.inj this
      subst hp
      have hle := h.notBelow
      by_cases hlt : header.height.revisionHeight ≤ c.state.latestHeight.revisionHeight
      · have heq : header.height.revisionHeight = c.state.latestHeight.revisionHeight := by omega
        obtain ⟨k, hk⟩ := h.replay heq
        rw [if_pos hlt, if_pos heq, hk]
        dsimp only
        rw [if_pos (h.payload k hk)]
      · rw [if_neg hlt]
        cases hk : c.consensus header.height with
        | none => rfl
        | some k =>
          dsimp only
          rw [if_neg (not_not.mpr (h.payload k hk))]

/-! ## Steps -/

namespace Client

variable (d)

/-- One accepted call, seen on the abstract client. -/
inductive Step : Client → SudoMsg → Client → Prop
  | updated {c : Client} {b : Bytes} {header : Header} {decoded : DecodedProposal} :
      d.header.fromJson b = .ok header → c.Accepts d header decoded →
      Step c (.updateState b) (c.update header decoded)
  | frozen {c : Client} {b : Bytes} {m : Misbehaviour} :
      d.misbehaviour.fromJson b = .ok m → checkMisbehaviour d c.state m = .ok () →
      Step c (.updateStateOnMisbehaviour b)
        (c.freeze ⟨0, min m.headerA.height.revisionHeight m.headerB.height.revisionHeight⟩)
  | unchanged {c : Client} {msg : SudoMsg} : (∀ b, msg ≠ .updateState b) →
      (∀ b, msg ≠ .updateStateOnMisbehaviour b) → Step c msg c

variable {d}

variable {s s' : Store} {c : Client} {r : Response}

theorem step_of_updateState (hs : Represents d s c) {b : Bytes}
    (h : updateState d s b = .ok (s', r)) :
    ∃ c', Step d c (.updateState b) c' ∧ Represents d s' c' := by
  unfold updateState at h
  rw [hs.state] at h
  obtain ⟨_, hload, h⟩ := bind_eq_ok.mp h
  cases hload
  obtain ⟨header, hheader, h⟩ := bind_eq_ok.mp h
  obtain ⟨p, hcheck, h⟩ := bind_eq_ok.mp h
  obtain ⟨s₁, hsave, h⟩ := bind_eq_ok.mp h
  obtain ⟨s₂, hsave', h⟩ := bind_eq_ok.mp h
  cases h
  have hsave := ofStd_eq_ok.mp hsave
  have hsave' := ofStd_eq_ok.mp hsave'
  refine ⟨c.update header p, .updated (ofStd_eq_ok.mp hheader)
    ((checkUpdateHeader_ok hs).mp hcheck), ?_, fun height => ?_, hs.checksum⟩
  · exact loadClientState_saveClientState hs.checksum hsave'
  · rw [mayLoadConsensusState_saveClientState hsave',
      mayLoadConsensusState_saveConsensusState hsave, hs.consensus]
    by_cases heq : height = header.height
    · rw [if_pos heq, heq]
      simp [update]
    · rw [if_neg heq]
      simp [update, Function.update_of_ne heq]

theorem step_of_updateStateOnMisbehaviour (hs : Represents d s c) {b : Bytes}
    (h : updateStateOnMisbehaviour d s b = .ok (s', r)) :
    ∃ c', Step d c (.updateStateOnMisbehaviour b) c' ∧ Represents d s' c' := by
  unfold updateStateOnMisbehaviour at h
  rw [hs.state] at h
  obtain ⟨_, hload, h⟩ := bind_eq_ok.mp h
  cases hload
  obtain ⟨m, hmis, h⟩ := bind_eq_ok.mp h
  obtain ⟨u, hcheck, h⟩ := bind_eq_ok.mp h
  obtain ⟨s₁, hsave, h⟩ := bind_eq_ok.mp h
  cases h
  have hsave := ofStd_eq_ok.mp hsave
  refine ⟨c.freeze _, .frozen (ofStd_eq_ok.mp hmis) hcheck, ?_, fun height => ?_, hs.checksum⟩
  · exact loadClientState_saveClientState hs.checksum hsave
  · rw [mayLoadConsensusState_saveClientState hsave, hs.consensus]
    rfl

theorem verifyMembership_store {height : Height} {proof value : Bytes} {keyPath : List Bytes}
    (h : verifyMembership d s height proof keyPath value = .ok (s', r)) : s' = s := by
  unfold verifyMembership at h
  simp only [bind, Except.bind] at h
  repeat' split at h
  all_goals first
    | cases h; done
    | exact (Prod.mk.inj (Except.ok.inj h)).1.symm

/-- **Refinement.** Every accepted call is a step of the abstract client. -/
theorem step_of_sudoEntry (hs : Represents d s c) {msg : SudoMsg}
    (h : sudoEntry d s msg = .ok (s', r)) : ∃ c', Step d c msg c' ∧ Represents d s' c' := by
  cases msg with
  | updateState b => exact step_of_updateState hs h
  | updateStateOnMisbehaviour b => exact step_of_updateStateOnMisbehaviour hs h
  | verifyMembership height _ _ proof keyPath value =>
    obtain rfl := verifyMembership_store h
    exact ⟨c, .unchanged (fun _ h => by cases h) (fun _ h => by cases h), hs⟩
  | verifyNonMembership | verifyUpgradeAndUpdateState => cases h
  | migrateClientStore =>
    cases h
    exact ⟨c, .unchanged (fun _ h => by cases h) (fun _ h => by cases h), hs⟩

/-- The latest height is stored, and nothing is stored above it or under
another revision. -/
structure Valid (c : Client) : Prop where
  atLatest : ∃ k, c.consensus c.state.latestHeight = some k
  below : ∀ h k, c.consensus h = some k →
    h.revisionNumber = c.state.latestHeight.revisionNumber ∧
      h.revisionHeight ≤ c.state.latestHeight.revisionHeight

theorem Accepts.height_le {header : Header} {decoded : DecodedProposal}
    (h : c.Accepts d header decoded) : Height.le c.state.latestHeight header.height :=
  ⟨(checkHeader_ok h.checked).2.1.symm, h.notBelow⟩

theorem Valid.update (hv : c.Valid) {header : Header} {decoded : DecodedProposal}
    (h : c.Accepts d header decoded) : (c.update header decoded).Valid where
  atLatest := ⟨consensusStateOf header decoded, Function.update_self ..⟩
  below height k hk := by
    have hle := h.height_le
    by_cases heq : height = header.height
    · exact ⟨by rw [heq]; rfl, by rw [heq]; exact le_refl _⟩
    · have hk' : c.consensus height = some k := by
        simpa [Client.update, Function.update_of_ne heq] using hk
      obtain ⟨hrev, hheight⟩ := hv.below height k hk'
      exact ⟨hrev.trans hle.1, hheight.trans hle.2⟩

theorem Valid.step {c' : Client} {msg : SudoMsg} (hv : c.Valid) (h : Step d c msg c') :
    c'.Valid := by
  cases h with
  | updated _ hacc => exact hv.update hacc
  | frozen _ _ => exact ⟨hv.atLatest, hv.below⟩
  | unchanged _ _ => exact hv

end Client

/-- A fresh client is represented and valid. -/
theorem represents_of_instantiate {msg : InstantiateMsg} {s : Store}
    (hlen : msg.checksum.length < 2 ^ 31) (h : instantiate d ∅ msg = .ok s) :
    ∃ c, Represents d s c ∧ c.Valid := by
  obtain ⟨cs, -, h⟩ := bind_eq_ok.mp h
  obtain ⟨k, -, h⟩ := bind_eq_ok.mp h
  split at h
  · cases h
  obtain ⟨-, h⟩ := guard_eq_ok.mp h
  obtain ⟨s₁, hsave, h⟩ := bind_eq_ok.mp h
  have hsave' := ofStd_eq_ok.mp h
  have hload : ∀ height, mayLoadConsensusState d.consensusState s height =
      .ok (if height = cs.latestHeight then some k else none) := by
    intro height
    rw [mayLoadConsensusState_saveClientState hsave',
      mayLoadConsensusState_saveConsensusState (ofStd_eq_ok.mp hsave)]
    split <;> simp [mayLoadConsensusState]
  refine ⟨⟨cs, msg.checksum, fun height => if height = cs.latestHeight then some k else none⟩,
    ⟨loadClientState_saveClientState hlen hsave', hload, hlen⟩, ⟨⟨k, if_pos rfl⟩, ?_⟩⟩
  intro height k' hk'
  dsimp only at hk'
  split at hk'
  · rename_i heq
    rw [heq]
    exact ⟨rfl, le_refl _⟩
  · cases hk'

end LayerSdk.Lc
