import LayerSdk.LcClient

/-!
# Light client: runs and misbehaviour

What holds along every run of accepted calls after `instantiate`. The latest
height only moves up and always has a consensus state. Beyond that there are
two gaps, both because `height` and `timestamp` of a header are not signed.

- A replay at the latest height is compared by payload only, so it can
  overwrite the stored timestamp and round; and a proposal that was already
  used can be stored again under a larger height. `immutable_iff` says that
  these are the only ways a stored consensus state changes or a proposal
  reaches two heights.
- Two honest headers of different blocks, relabelled to one height, count as
  misbehaviour. `checkMisbehaviour_error_iff` says that this is the only way
  a chain that does not equivocate is reported.
-/

namespace LayerSdk.Lc

variable (d : Deps)

/-! ## Runs -/

def latestHeight (s : Store) : Option Height :=
  match loadClientState d.clientState s with
  | .ok (cs, _) => some cs.latestHeight
  | .error _ => none

def consensusAt (s : Store) (h : Height) : Option ConsensusState :=
  match mayLoadConsensusState d.consensusState s h with
  | .ok k => k
  | .error _ => none

/-- One accepted call. -/
structure Transition where
  before : Store
  msg : SudoMsg
  after : Store

/-- The header an accepted call stored, with its decoded proposal. -/
def Transition.update? (t : Transition) : Option (Header × DecodedProposal) :=
  match t.msg with
  | .updateState b =>
    match d.header.fromJson b with
    | .ok header =>
      match decodeProposal header.proposalBytes with
      | .ok decoded => some (header, decoded)
      | .error _ => none
    | .error _ => none
  | _ => none

/-- The accepted calls from `s₀` on, the newest first. -/
inductive Run (s₀ : Store) : List Transition → Store → Prop
  | start : Run s₀ [] s₀
  | call {ts : List Transition} {s s' : Store} {msg : SudoMsg} {r : Response} : Run s₀ ts s →
      sudoEntry d s msg = .ok (s', r) → Run s₀ (⟨s, msg, s'⟩ :: ts) s'

/-- The store after calls given newest first; a rejected call changes nothing. -/
def afterCalls (s₀ : Store) : List SudoMsg → Store
  | [] => s₀
  | msg :: msgs =>
    match sudoEntry d (afterCalls s₀ msgs) msg with
    | .ok (s', _) => s'
    | .error _ => afterCalls s₀ msgs

/-- The accepted ones among the calls. -/
def transitions (s₀ : Store) : List SudoMsg → List Transition
  | [] => []
  | msg :: msgs =>
    match sudoEntry d (afterCalls d s₀ msgs) msg with
    | .ok (s', _) => ⟨afterCalls d s₀ msgs, msg, s'⟩ :: transitions s₀ msgs
    | .error _ => transitions s₀ msgs

/-- A stored consensus state is never changed. -/
def Immutable (ts : List Transition) : Prop :=
  ∀ t ∈ ts, ∀ h k, consensusAt d t.before h = some k → consensusAt d t.after h = some k

/-- One proposal is stored at one height. -/
def OneHeight (ts : List Transition) : Prop :=
  ∀ t ∈ ts, ∀ t' ∈ ts, ∀ header header' p, t.update? d = some (header, p) →
    t'.update? d = some (header', p) → header.height = header'.height

/-- Every update at the latest height carries exactly what is stored there. -/
def ExactReplays (ts : List Transition) : Prop :=
  ∀ t ∈ ts, ∀ header p, t.update? d = some (header, p) →
    latestHeight d t.before = some header.height →
      consensusAt d t.before header.height = some (consensusStateOf header p)

/-- Every update above the latest height carries a proposal not stored before. -/
def FreshProposals (ts : List Transition) : Prop :=
  ts.Pairwise fun t earlier => ∀ header p, t.update? d = some (header, p) →
    latestHeight d t.before ≠ some header.height →
      ∀ header' p', earlier.update? d = some (header', p') → p' ≠ p

variable {d}

/-- Every sequence of calls is a run. -/
theorem run_transitions (s₀ : Store) : ∀ msgs : List SudoMsg,
    Run d s₀ (transitions d s₀ msgs) (afterCalls d s₀ msgs)
  | [] => .start
  | msg :: msgs => by
    have ih := run_transitions s₀ msgs
    rw [transitions, afterCalls]
    cases h : sudoEntry d (afterCalls d s₀ msgs) msg with
    | error e => exact ih
    | ok r => exact .call ih h

theorem mem_transitions (s₀ : Store) (msg : SudoMsg) (msgs : List SudoMsg)
    (h : (sudoEntry d (afterCalls d s₀ msgs) msg).isOk = true) :
    ⟨afterCalls d s₀ msgs, msg, afterCalls d s₀ (msg :: msgs)⟩ ∈
      transitions d s₀ (msg :: msgs) := by
  rw [transitions, afterCalls]
  cases hcall : sudoEntry d (afterCalls d s₀ msgs) msg with
  | error e => rw [hcall] at h; cases h
  | ok r => exact List.mem_cons_self

variable {s₀ s : Store} {msg : SudoMsg} {c c' c₀ : Client} {ts : List Transition} {cs : ClientState}

theorem mem_transitions_cons (msg : SudoMsg) {msgs : List SudoMsg} {t : Transition}
    (h : t ∈ transitions d s₀ msgs) : t ∈ transitions d s₀ (msg :: msgs) := by
  rw [transitions]
  split
  · exact List.mem_cons_of_mem _ h
  · exact h

theorem Immutable.keeps_earlier {s' : Store} {msg' : SudoMsg} {msgs : List SudoMsg}
    (himm : Immutable d (transitions d s₀ (msg :: msgs)))
    (ht : ⟨s, msg', s'⟩ ∈ transitions d s₀ msgs) {h : Height} {k : ConsensusState}
    (hk : consensusAt d s h = some k) : consensusAt d s' h = some k :=
  himm _ (mem_transitions_cons msg ht) h k hk

theorem latestHeight_of_represents (hs : Represents d s c) :
    latestHeight d s = some c.state.latestHeight := by
  rw [latestHeight, hs.state]

theorem consensusAt_of_represents (hs : Represents d s c) (h : Height) :
    consensusAt d s h = c.consensus h := by
  rw [consensusAt, hs.consensus h]

/-- The three facts a transition leaves, in terms of the update it made. -/
theorem transition_cases (s s' : Store) (hstep : c.Step d msg c') :
    (∃ header p, Transition.update? d ⟨s, msg, s'⟩ = some (header, p) ∧ c.Accepts d header p ∧
        c' = c.update header p) ∨
      (Transition.update? d ⟨s, msg, s'⟩ = none ∧ c'.consensus = c.consensus ∧
        c'.state.latestHeight = c.state.latestHeight) := by
  cases hstep with
  | @updated b header p hheader hacc =>
    left
    refine ⟨header, p, ?_, hacc, rfl⟩
    simp only [Transition.update?, hheader, (checkHeader_ok hacc.checked).2.2]
  | frozen _ _ => exact .inr ⟨rfl, rfl, rfl⟩
  | unchanged hne _ =>
    right
    refine ⟨?_, rfl, rfl⟩
    cases msg with
    | updateState b => exact absurd rfl (hne b)
    | _ => rfl

theorem Height.le_antisymm {h h' : Height} (h₁ : h.le h') (h₂ : h'.le h) : h = h' := by
  cases h
  cases h'
  have hheight := Nat.le_antisymm h₁.2 h₂.2
  have hrev := h₁.1
  simp_all

theorem Height.le_trans {a b c : Height} (h₁ : a.le b) (h₂ : b.le c) : a.le c :=
  ⟨h₁.1.trans h₂.1, h₁.2.trans h₂.2⟩

/-- Both ends of a transition are valid clients one step apart. -/
structure Transition.Sound (t : Transition) (c c' : Client) : Prop where
  before : Represents d t.before c
  valid : c.Valid
  step : c.Step d t.msg c'
  after : Represents d t.after c'

theorem Client.Step.height_le (h : c.Step d msg c') :
    c.state.latestHeight.le c'.state.latestHeight := by
  cases h with
  | updated _ hacc => exact hacc.height_le
  | frozen _ _ | unchanged _ _ => exact ⟨rfl, le_refl _⟩

theorem consensusStateOf_inj {header header' : Header} {p p' : DecodedProposal}
    (h : consensusStateOf header p = consensusStateOf header' p') : p = p' := by
  have hpayload : p.payload = p'.payload :=
    Digest.ext_bytes (hexEncode_inj (congrArg ConsensusState.payloadDigestHex h))
  have hepoch : p.epoch = p'.epoch := congrArg ConsensusState.epoch h
  have hview : p.view = p'.view := congrArg ConsensusState.view h
  have hparent : p.parent = p'.parent := congrArg ConsensusState.parent h
  cases p
  cases p'
  simp_all

/-- A transition changes a stored consensus state exactly when it is an update
at the latest height that differs from what is stored. -/
theorem Transition.Sound.keeps_iff {t : Transition} (ht : t.Sound (d := d) c c') :
    (∀ h k, consensusAt d t.before h = some k → consensusAt d t.after h = some k) ↔
      ∀ header p, t.update? d = some (header, p) → latestHeight d t.before = some header.height →
        consensusAt d t.before header.height = some (consensusStateOf header p) := by
  simp only [consensusAt_of_represents ht.before, consensusAt_of_represents ht.after,
    latestHeight_of_represents ht.before]
  rcases transition_cases t.before t.after ht.step with ⟨header, p, hup, hacc, rfl⟩ | ⟨hnone, hsame, -⟩
  · constructor
    · intro hkeep header' p' hup' hlatest
      cases hup.symm.trans hup'
      obtain ⟨k, hk⟩ := ht.valid.atLatest
      rw [Option.some.inj hlatest] at hk
      have hk' := hkeep _ _ hk
      rw [hk, ← hk']
      exact Function.update_self ..
    · intro hexact h k hk
      by_cases heq : h = header.height
      · subst heq
        obtain ⟨hrev, hheight⟩ := ht.valid.below _ _ hk
        have hlatest : c.state.latestHeight = header.height :=
          Height.le_antisymm hacc.height_le ⟨hrev, hheight⟩
        have hk' := hexact header p hup (congrArg some hlatest)
        rw [← hk, hk']
        exact Function.update_self ..
      · simpa [Client.update, Function.update_of_ne heq] using hk
  · constructor
    · intro _ header p hup
      cases hnone.symm.trans hup
    · intro _ h k hk
      rw [hsame]
      exact hk

section Started

variable (h₀ : Represents d s₀ c₀) (hv₀ : c₀.Valid)
include h₀ hv₀

theorem Run.represents (hrun : Run d s₀ ts s) :
    ∃ c, Represents d s c ∧ c.Valid := by
  induction hrun with
  | start => exact ⟨c₀, h₀, hv₀⟩
  | call _ hcall ih =>
    obtain ⟨c, hs, hv⟩ := ih
    obtain ⟨c', hstep, hs'⟩ := Client.step_of_sudoEntry hs hcall
    exact ⟨c', hs', hv.step hstep⟩

theorem Run.head (hrun : Run d s₀ ts s) {s' : Store} {r : Response}
    (hcall : sudoEntry d s msg = .ok (s', r)) :
    ∃ c c', Transition.Sound (d := d) ⟨s, msg, s'⟩ c c' := by
  obtain ⟨c, hs, hv⟩ := hrun.represents h₀ hv₀
  obtain ⟨c', hstep, hs'⟩ := Client.step_of_sudoEntry hs hcall
  exact ⟨c, c', hs, hv, hstep, hs'⟩

theorem Run.sound (hrun : Run d s₀ ts s) : ∀ t ∈ ts, ∃ c c', t.Sound (d := d) c c' := by
  induction hrun with
  | start =>
    intro t ht
    cases ht
  | call hprev hcall ih =>
    intro t ht
    rcases List.mem_cons.mp ht with rfl | ht
    · exact hprev.head h₀ hv₀ hcall
    · exact ih t ht

/-! ## The latest height -/

/-- Everything stored by a run lies at or below the latest height, and the
last update put it there. -/
theorem Run.update_height (hrun : Run d s₀ ts s) (hc : Represents d s c) :
    ∀ t ∈ ts, ∀ header p, t.update? d = some (header, p) →
      header.height.le c.state.latestHeight ∧
        ∃ t' ∈ ts, ∃ header' p', t'.update? d = some (header', p') ∧
          header'.height = c.state.latestHeight := by
  induction hrun generalizing c with
  | start =>
    intro t ht
    cases ht
  | @call ts s s' msg r hprev hcall ih =>
    intro t ht header p hup
    obtain ⟨c₁, c', hs, hv, hstep, hs'⟩ := hprev.head h₀ hv₀ hcall
    have hc' : c'.state.latestHeight = c.state.latestHeight := by
      have := (latestHeight_of_represents hs').symm.trans (latestHeight_of_represents hc)
      exact Option.some.inj this
    rw [← hc']
    rcases List.mem_cons.mp ht with rfl | ht
    · rcases transition_cases s s' hstep with ⟨header', p', hup', hacc, rfl⟩ | ⟨hnone, -, -⟩
      · rw [hup] at hup'
        cases hup'
        exact ⟨⟨rfl, le_refl _⟩, _, List.mem_cons_self, header, p, hup, rfl⟩
      · rw [hup] at hnone
        cases hnone
    · obtain ⟨hle, t', ht', header', p', hup', hlatest⟩ := ih hs t ht header p hup
      refine ⟨Height.le_trans hle hstep.height_le, ?_⟩
      rcases transition_cases s s' hstep with ⟨header'', p'', hup'', hacc, rfl⟩ | ⟨-, -, hsame⟩
      · exact ⟨_, List.mem_cons_self, header'', p'', hup'', rfl⟩
      · exact ⟨t', List.mem_cons_of_mem _ ht', header', p', hup', hlatest.trans hsame.symm⟩

/-! ## Immutability -/

theorem Run.immutable_iff_exactReplays (hrun : Run d s₀ ts s) :
    Immutable d ts ↔ ExactReplays d ts := by
  have hsound := hrun.sound h₀ hv₀
  constructor
  · intro h t ht
    obtain ⟨c, c', hs⟩ := hsound t ht
    exact hs.keeps_iff.mp (h t ht)
  · intro h t ht
    obtain ⟨c, c', hs⟩ := hsound t ht
    exact hs.keeps_iff.mpr (h t ht)

/-- In a run that keeps what is stored, every update is still there. -/
theorem Run.stored (hrun : Run d s₀ ts s) (himm : Immutable d ts) :
    ∀ t ∈ ts, ∀ header p, t.update? d = some (header, p) →
      ∃ header', consensusAt d s header.height = some (consensusStateOf header' p) := by
  induction hrun with
  | start =>
    intro t ht
    cases ht
  | @call ts s s' msg r hprev hcall ih =>
    intro t ht header p hup
    rcases List.mem_cons.mp ht with rfl | ht
    · obtain ⟨c, c', hs, hv, hstep, hs'⟩ := hprev.head h₀ hv₀ hcall
      rcases transition_cases s s' hstep with ⟨header', p', hup', hacc, rfl⟩ | ⟨hnone, -, -⟩
      · cases hup.symm.trans hup'
        exact ⟨header, by rw [consensusAt_of_represents hs']; exact Function.update_self ..⟩
      · cases hnone.symm.trans hup
    · obtain ⟨header', hk⟩ := ih (fun t ht => himm t (List.mem_cons_of_mem _ ht)) t ht header p hup
      exact ⟨header', himm _ (List.mem_cons_self) _ _ hk⟩

/-! ## One height per proposal -/

theorem Run.freshProposals_of_oneHeight (hrun : Run d s₀ ts s) (hone : OneHeight d ts) :
    FreshProposals d ts := by
  induction hrun with
  | start => exact List.Pairwise.nil
  | @call ts s s' msg r hprev hcall ih =>
    refine List.Pairwise.cons ?_
      (ih fun t ht t' ht' => hone t (List.mem_cons_of_mem _ ht) t' (List.mem_cons_of_mem _ ht'))
    intro t' ht' header p hup hnew header' p' hup' hp
    subst hp
    have hheight := hone _ (List.mem_cons_self) t' (List.mem_cons_of_mem _ ht') _ _ _ hup hup'
    obtain ⟨c, c', hs, hv, hstep, hs'⟩ := hprev.head h₀ hv₀ hcall
    obtain ⟨hle, -⟩ := hprev.update_height h₀ hv₀ hs t' ht' header' p' hup'
    rcases transition_cases s s' hstep with ⟨header'', p'', hup'', hacc, -⟩ | ⟨hnone, -, -⟩
    · cases hup.symm.trans hup''
      -- the relabelled height is above the latest one, where nothing was stored
      rw [hheight] at hnew
      exact hnew (by
        rw [latestHeight_of_represents hs,
          Height.le_antisymm (hheight ▸ hacc.height_le) hle])
    · cases hnone.symm.trans hup

theorem Run.oneHeight_of_freshProposals (hrun : Run d s₀ ts s) (himm : Immutable d ts)
    (hexact : ExactReplays d ts) (hfresh : FreshProposals d ts) : OneHeight d ts := by
  induction hrun with
  | start =>
    intro t ht
    cases ht
  | @call ts s s' msg r hprev hcall ih =>
    have himm' : Immutable d ts := fun t ht => himm t (List.mem_cons_of_mem _ ht)
    have hone := ih himm' (fun t ht => hexact t (List.mem_cons_of_mem _ ht))
      (List.Pairwise.of_cons hfresh)
    obtain ⟨c, hs, hv⟩ := hprev.represents h₀ hv₀
    -- the new update against an earlier one with the same proposal
    have hnew : ∀ t' ∈ ts, ∀ header header' p, Transition.update? d ⟨s, msg, s'⟩ = some (header, p) →
        t'.update? d = some (header', p) → header.height = header'.height := by
      intro t' ht' header header' p hup hup'
      by_cases hlatest : latestHeight d s = some header.height
      · obtain ⟨-, t'', ht'', header'', p'', hup'', heq⟩ :=
          hprev.update_height h₀ hv₀ hs t' ht' header' p hup'
        have heq' : header''.height = header.height := by
          rw [latestHeight_of_represents hs] at hlatest
          exact heq.trans (Option.some.inj hlatest)
        obtain ⟨header₀, hk⟩ := hprev.stored h₀ hv₀ himm' t'' ht'' header'' p'' hup''
        have hk' := hexact _ (List.mem_cons_self) header p hup hlatest
        rw [heq', hk', Option.some.injEq] at hk
        obtain rfl := consensusStateOf_inj hk
        rw [← heq']
        exact hone t'' ht'' t' ht' _ _ _ hup'' hup'
      · exact absurd rfl (List.rel_of_pairwise_cons hfresh ht' header p hup hlatest header' p hup')
    intro t ht t' ht' header header' p hup hup'
    rcases List.mem_cons.mp ht with rfl | ht
    · rcases List.mem_cons.mp ht' with rfl | ht'
      · cases hup.symm.trans hup'
        rfl
      · exact hnew t' ht' _ _ _ hup hup'
    · rcases List.mem_cons.mp ht' with rfl | ht'
      · exact (hnew t ht _ _ _ hup' hup).symm
      · exact hone t ht t' ht' _ _ _ hup hup'

end Started

/-- **Runs of the client.** After `instantiate` the latest height never
decreases and has a consensus state. Stored consensus states stay as they
are and no proposal reaches two heights exactly when every update at the
latest height repeats what is stored and every update above it brings a
proposal that was not used before. -/
theorem immutable_iff {msg : InstantiateMsg} {s₀ : Store} (hlen : msg.checksum.length < 2 ^ 31)
    (hinit : instantiate d ∅ msg = .ok s₀) (msgs : List SudoMsg) :
    (∀ t ∈ transitions d s₀ msgs, ∃ h h', latestHeight d t.before = some h ∧
        latestHeight d t.after = some h' ∧ h.le h') ∧
      (∃ h k, latestHeight d (afterCalls d s₀ msgs) = some h ∧
        consensusAt d (afterCalls d s₀ msgs) h = some k) ∧
      (Immutable d (transitions d s₀ msgs) ∧ OneHeight d (transitions d s₀ msgs) ↔
        ExactReplays d (transitions d s₀ msgs) ∧ FreshProposals d (transitions d s₀ msgs)) := by
  obtain ⟨c₀, h₀, hv₀⟩ := represents_of_instantiate hlen hinit
  have hrun := run_transitions (d := d) s₀ msgs
  refine ⟨?_, ?_, ?_⟩
  · intro t ht
    obtain ⟨c, c', hs⟩ := hrun.sound h₀ hv₀ t ht
    exact ⟨_, _, latestHeight_of_represents hs.before, latestHeight_of_represents hs.after,
      hs.step.height_le⟩
  · obtain ⟨c, hs, hv⟩ := hrun.represents h₀ hv₀
    obtain ⟨k, hk⟩ := hv.atLatest
    exact ⟨_, k, latestHeight_of_represents hs, (consensusAt_of_represents hs _).trans hk⟩
  · have himm := hrun.immutable_iff_exactReplays h₀ hv₀
    constructor
    · rintro ⟨hkeep, hone⟩
      exact ⟨himm.mp hkeep, hrun.freshProposals_of_oneHeight h₀ hv₀ hone⟩
    · rintro ⟨hexact, hfresh⟩
      have hkeep := himm.mpr hexact
      exact ⟨hkeep, hrun.oneHeight_of_freshProposals h₀ hv₀ hkeep hexact hfresh⟩

/-! ### A client at height 10 and one certified block -/

def sampleKeyHex : String := hexEncode (List.replicate 96 0xb0)

def samplePayload (b : UInt8) : Digest := ⟨List.replicate 32 b, by simp⟩

/-- The proposal of view `v` of epoch 0 over the payload of `b`. -/
def sampleProposal (v : Nat) (b : UInt8) : DecodedProposal := ⟨0, v, v - 1, samplePayload b⟩

def sampleHeader (height time v : Nat) (b : UInt8) : Header :=
  ⟨⟨0, height⟩, time, encodeProposal (sampleProposal v b), List.replicate 48 b⟩

def sampleClient (height : Nat) : ClientState := ⟨"layer-1", sampleKeyHex, ⟨0, height⟩, none⟩

def sampleGenesis : ConsensusState := ⟨hexEncode (samplePayload 1).bytes, 1000, 0, 10, 9⟩

/-- One header of block 11, and the same proposal with another timestamp and
under another height. -/
def relabelled : List Header := [sampleHeader 11 1100 11 2, sampleHeader 11 1200 11 2,
  sampleHeader 12 1200 11 2]

def sampleDeps : Deps :=
  .ofValues sha256 [(List.replicate 48 2, encodeProposal (sampleProposal 11 2))]
    [sampleClient 10, sampleClient 11, sampleClient 12]
    (sampleGenesis :: relabelled.map fun h => consensusStateOf h (sampleProposal 11 2))
    relabelled [] []

def sampleInstantiate : InstantiateMsg :=
  ⟨clientStateJson (sampleClient 10), consensusStateJson sampleGenesis, []⟩

def sampleUpdate (h : Header) : SudoMsg := .updateState (headerJson h)

def sampleStart : Store :=
  match instantiate sampleDeps ∅ sampleInstantiate with
  | .ok s => s
  | .error _ => ∅

theorem instantiate_sample : instantiate sampleDeps ∅ sampleInstantiate = .ok sampleStart := by
  have hok : (instantiate sampleDeps ∅ sampleInstantiate).isOk = true := by decide +kernel
  unfold sampleStart
  cases h : instantiate sampleDeps ∅ sampleInstantiate with
  | error e => rw [h] at hok; cases hok
  | ok s => rfl

/-- The replay with another timestamp. -/
abbrev sampleReplay : List SudoMsg :=
  [sampleUpdate (sampleHeader 11 1200 11 2), sampleUpdate (sampleHeader 11 1100 11 2)]

abbrev sampleCalls : List SudoMsg := sampleUpdate (sampleHeader 12 1200 11 2) :: sampleReplay

theorem immutable_iff_sample :
    Immutable sampleDeps (transitions sampleDeps sampleStart sampleCalls) ∧
        OneHeight sampleDeps (transitions sampleDeps sampleStart sampleCalls) ↔
      ExactReplays sampleDeps (transitions sampleDeps sampleStart sampleCalls) ∧
        FreshProposals sampleDeps (transitions sampleDeps sampleStart sampleCalls) :=
  (immutable_iff (by decide) instantiate_sample sampleCalls).2.2

/-- What the three calls do, evaluated. -/
theorem sampleCalls_facts :
    (sudoEntry sampleDeps (afterCalls sampleDeps sampleStart [])
        (sampleUpdate (sampleHeader 11 1100 11 2))).isOk = true ∧
      (sudoEntry sampleDeps
        (afterCalls sampleDeps sampleStart [sampleUpdate (sampleHeader 11 1100 11 2)])
        (sampleUpdate (sampleHeader 11 1200 11 2))).isOk = true ∧
      (sudoEntry sampleDeps (afterCalls sampleDeps sampleStart sampleReplay)
        (sampleUpdate (sampleHeader 12 1200 11 2))).isOk = true ∧
      consensusAt sampleDeps
        (afterCalls sampleDeps sampleStart [sampleUpdate (sampleHeader 11 1100 11 2)]) ⟨0, 11⟩ =
          some (consensusStateOf (sampleHeader 11 1100 11 2) (sampleProposal 11 2)) ∧
      consensusAt sampleDeps (afterCalls sampleDeps sampleStart sampleReplay) ⟨0, 11⟩ =
          some (consensusStateOf (sampleHeader 11 1200 11 2) (sampleProposal 11 2)) := by
  decide +kernel

/-- The replay with another timestamp overwrites the consensus state of height
11, and the same proposal is stored again as height 12. -/
theorem relabelled_headers_accepted :
    ¬ Immutable sampleDeps (transitions sampleDeps sampleStart sampleCalls) ∧
      ¬ OneHeight sampleDeps (transitions sampleDeps sampleStart sampleCalls) := by
  obtain ⟨hok₁, hok₂, hok₃, hbefore, hafter⟩ := sampleCalls_facts
  constructor
  · intro himm
    have hkeep := himm.keeps_earlier (mem_transitions _ _ _ hok₂) hbefore
    rw [hafter] at hkeep
    revert hkeep
    decide +kernel
  · intro hone
    have h₁ := mem_transitions_cons (sampleUpdate (sampleHeader 11 1200 11 2))
      (mem_transitions _ _ _ hok₁)
    have heq := hone _ (mem_transitions _ _ _ hok₃) _ (mem_transitions_cons _ h₁)
      (sampleHeader 12 1200 11 2) (sampleHeader 11 1100 11 2) (sampleProposal 11 2)
      (by decide +kernel) (by decide +kernel)
    revert heq
    decide

/-! ## Misbehaviour

A chain is the list of its certified proposals with the heights of their
blocks. -/

/-- A chain that does not equivocate: one payload per round and per height. -/
structure Chain where
  proposals : List (Bytes × Nat)
  onePerRound : ∀ x ∈ proposals, ∀ y ∈ proposals, ∀ p q, decodeProposal x.1 = .ok p →
    decodeProposal y.1 = .ok q → p.epoch = q.epoch → p.view = q.view → p.payload = q.payload
  onePerHeight : ∀ x ∈ proposals, ∀ y ∈ proposals, ∀ p q, decodeProposal x.1 = .ok p →
    decodeProposal y.1 = .ok q → x.2 = y.2 → p.payload = q.payload

variable (d) in
/-- No certificate verifies that the chain did not make. -/
def Unforgeable (cs : ClientState) (chain : Chain) : Prop :=
  ∀ pk proposal cert p, hexDecode cs.groupPublicKeyHex = some pk →
    verifyCertificate d.bls pk proposal cert = .ok p → ∃ h, (proposal, h) ∈ chain.proposals

variable (d) in
/-- Two verified headers of blocks at different heights carry one height label. -/
def SharedLabel (cs : ClientState) (chain : Chain) (m : Misbehaviour) : Prop :=
  ∃ p q h h', checkHeader d cs m.headerA = .ok p ∧ checkHeader d cs m.headerB = .ok q ∧
    (m.headerA.proposalBytes, h) ∈ chain.proposals ∧
    (m.headerB.proposalBytes, h') ∈ chain.proposals ∧ h ≠ h' ∧ p.payload ≠ q.payload ∧
    m.headerA.height.revisionHeight = m.headerB.height.revisionHeight

theorem checkMisbehaviour_ok_iff {m : Misbehaviour} : checkMisbehaviour d cs m = .ok () ↔
      ∃ p q, checkHeader d cs m.headerA = .ok p ∧ checkHeader d cs m.headerB = .ok q ∧
        (p.epoch = q.epoch ∧ p.view = q.view ∨
          m.headerA.height.revisionHeight = m.headerB.height.revisionHeight) ∧
        p.payload ≠ q.payload := by
  simp only [checkMisbehaviour, bind_eq_ok, guard_eq_ok]
  constructor
  · rintro ⟨p, hp, q, hq, hsame, hne, -⟩
    exact ⟨p, q, hp, hq, by tauto, hne⟩
  · rintro ⟨p, q, hp, hq, hsame, hne⟩
    exact ⟨p, hp, q, hq, by tauto, hne, trivial⟩

theorem Unforgeable.mem {chain : Chain} (h : Unforgeable d cs chain) {header : Header}
    {p : DecodedProposal} (hcheck : checkHeader d cs header = .ok p) :
    ∃ height, (header.proposalBytes, height) ∈ chain.proposals := by
  unfold checkHeader at hcheck
  split at hcheck
  · cases hcheck
  split at hcheck
  · cases hcheck
  split at hcheck
  · cases hcheck
  · rename_i pk hpk
    exact h pk _ _ p hpk hcheck

/-- A report that is refused leaves the client as it is. -/
theorem updateStateOnMisbehaviour_error {checksum b : Bytes} {m : Misbehaviour}
    (hload : loadClientState d.clientState s = .ok (cs, checksum))
    (hmis : d.misbehaviour.fromJson b = .ok m) (h : ∃ e, checkMisbehaviour d cs m = .error e) :
    ∃ e, sudoEntry d s (.updateStateOnMisbehaviour b) = .error e := by
  obtain ⟨e, he⟩ := h
  refine ⟨e, ?_⟩
  rw [sudoEntry, updateStateOnMisbehaviour, hload, hmis]
  simp only [ofStd_ok, ofStore_ok, bind, Except.bind, he]

/-- **No false freeze, up to labels.** Over a chain that does not equivocate a
report is refused unless it puts one height label on two blocks of different
heights. -/
theorem checkMisbehaviour_error_iff {cs : ClientState} {chain : Chain}
    (hchain : Unforgeable d cs chain) (m : Misbehaviour) :
    ((∃ e, checkMisbehaviour d cs m = .error e) ↔ ¬ SharedLabel d cs chain m) ∧
      ∀ s checksum b, loadClientState d.clientState s = .ok (cs, checksum) →
        d.misbehaviour.fromJson b = .ok m → ¬ SharedLabel d cs chain m →
          ∃ e, sudoEntry d s (.updateStateOnMisbehaviour b) = .error e := by
  suffices hiff : (∃ e, checkMisbehaviour d cs m = .error e) ↔ ¬ SharedLabel d cs chain m from
    ⟨hiff, fun s checksum b hload hmis hno =>
      updateStateOnMisbehaviour_error hload hmis (hiff.mpr hno)⟩
  have hsplit : (∃ e, checkMisbehaviour d cs m = .error e) ↔ ¬ checkMisbehaviour d cs m = .ok () := by
    cases checkMisbehaviour d cs m <;> simp
  rw [hsplit, not_iff_not, checkMisbehaviour_ok_iff]
  constructor
  · rintro ⟨p, q, hp, hq, hsame, hne⟩
    obtain ⟨h, hmem⟩ := hchain.mem hp
    obtain ⟨h', hmem'⟩ := hchain.mem hq
    have hdec := (checkHeader_ok hp).2.2
    have hdec' := (checkHeader_ok hq).2.2
    have hheights : h ≠ h' := fun heq =>
      hne (chain.onePerHeight _ hmem _ hmem' p q hdec hdec' heq)
    rcases hsame with ⟨hepoch, hview⟩ | hlabel
    · exact absurd (chain.onePerRound _ hmem _ hmem' p q hdec hdec' hepoch hview) hne
    · exact ⟨p, q, h, h', hp, hq, hmem, hmem', hheights, hne, hlabel⟩
  · rintro ⟨p, q, h, h', hp, hq, -, -, -, hne, hlabel⟩
    exact ⟨p, q, hp, hq, .inr hlabel, hne⟩

/-! ### Two blocks under one label -/

theorem mem_of_decodeProposal {blocks : List (DecodedProposal × Nat)}
    (hwords : ∀ x ∈ blocks, x.1.epoch < 2 ^ 64 ∧ x.1.view < 2 ^ 64 ∧ x.1.parent < 2 ^ 64)
    {x : Bytes × Nat} (hx : x ∈ blocks.map fun x => (encodeProposal x.1, x.2))
    {p : DecodedProposal} (hp : decodeProposal x.1 = .ok p) :
    ∃ a ∈ blocks, a.1 = p ∧ a.2 = x.2 := by
  obtain ⟨a, ha, rfl⟩ := List.mem_map.mp hx
  obtain ⟨he, hv, hparent⟩ := hwords a ha
  rw [decodeProposal_encodeProposal _ he hv hparent] at hp
  exact ⟨a, ha, Except.ok.inj hp, rfl⟩

/-- A chain from the proposals as they were before encoding. -/
def Chain.ofBlocks (blocks : List (DecodedProposal × Nat))
    (hwords : ∀ x ∈ blocks, x.1.epoch < 2 ^ 64 ∧ x.1.view < 2 ^ 64 ∧ x.1.parent < 2 ^ 64)
    (hround : ∀ x ∈ blocks, ∀ y ∈ blocks, x.1.epoch = y.1.epoch → x.1.view = y.1.view →
      x.1.payload = y.1.payload)
    (hheight : ∀ x ∈ blocks, ∀ y ∈ blocks, x.2 = y.2 → x.1.payload = y.1.payload) : Chain where
  proposals := blocks.map fun x => (encodeProposal x.1, x.2)
  onePerRound := by
    intro x hx y hy p q hp hq
    obtain ⟨a, ha, rfl, -⟩ := mem_of_decodeProposal hwords hx hp
    obtain ⟨b, hb, rfl, -⟩ := mem_of_decodeProposal hwords hy hq
    exact hround a ha b hb
  onePerHeight := by
    intro x hx y hy p q hp hq heq
    obtain ⟨a, ha, rfl, hax⟩ := mem_of_decodeProposal hwords hx hp
    obtain ⟨b, hb, rfl, hby⟩ := mem_of_decodeProposal hwords hy hq
    exact hheight a ha b hb (hax.trans (heq.trans hby.symm))

/-- Blocks 11 and 12 of an honest chain. -/
def sampleChain : Chain :=
  .ofBlocks [(sampleProposal 11 2, 11), (sampleProposal 12 3, 12)] (by decide) (by decide) (by decide)

/-- Both headers relabelled to height 12. -/
def sampleReport : Misbehaviour := ⟨sampleHeader 12 1100 11 2, sampleHeader 12 1200 12 3⟩

def reportDeps : Deps :=
  .ofValues sha256 [(List.replicate 48 2, encodeProposal (sampleProposal 11 2)),
      (List.replicate 48 3, encodeProposal (sampleProposal 12 3))]
    [sampleClient 10, { sampleClient 10 with frozenHeight := some ⟨0, 12⟩ }] [sampleGenesis] []
    [sampleReport] []

theorem unforgeable_sampleChain : Unforgeable reportDeps (sampleClient 10) sampleChain := by
  intro pk proposal cert p _ hverify
  have hmem := mem_of_verifyCertificate_ofTable hverify
  simp only [List.mem_cons, Prod.mk.injEq, List.not_mem_nil, or_false] at hmem
  rcases hmem with ⟨-, rfl⟩ | ⟨-, rfl⟩
  · exact ⟨11, List.mem_cons_self⟩
  · exact ⟨12, List.mem_cons_of_mem _ (List.mem_cons_self)⟩

theorem checkMisbehaviour_error_iff_sample :
    (∃ e, checkMisbehaviour reportDeps (sampleClient 10) sampleReport = .error e) ↔
      ¬ SharedLabel reportDeps (sampleClient 10) sampleChain sampleReport :=
  (checkMisbehaviour_error_iff unforgeable_sampleChain sampleReport).1

def reportStart : Store :=
  match instantiate reportDeps ∅ sampleInstantiate with
  | .ok s => s
  | .error _ => ∅

/-- The report over the honest chain is taken and freezes the client. -/
theorem sampleReport_freezes :
    Unforgeable reportDeps (sampleClient 10) sampleChain ∧
      checkMisbehaviour reportDeps (sampleClient 10) sampleReport = .ok () ∧
      (loadClientState reportDeps.clientState (afterCalls reportDeps reportStart
        [.updateStateOnMisbehaviour (misbehaviourJson sampleReport)])).map
          (fun r => r.1.frozenHeight) = .ok (some ⟨0, 12⟩) := by
  refine ⟨unforgeable_sampleChain, ?_, ?_⟩
  · decide +kernel
  · decide +kernel

end LayerSdk.Lc
