import LayerSdk.EffectEnv
import LayerSdk.Ibc
import LayerSdk.Reference
import Mathlib.Logic.Relation

/-!
# The relayer and its timeouts

`relay_tick` as a program over its queries and broadcasts, any of which may
fail, and the daemon that runs it again and again. The counterparty goes on
meanwhile: it makes blocks, and in each it may receive packets that have not
timed out by then.

A packet that has timed out at the tip the tick has seen is received no more,
so a later answer that it has not been acknowledged stays true. A failed
query is no such answer, but `cp_acked` takes it for one. `submits_no_late_timeout`
is what is left: no packet that has been acknowledged is timed out, in any run
in which no query fails for an existing acknowledgement of a packet past its
timeout.
-/

namespace LayerSdk.Relay

open EffectProg Comp

/-! ## The relayer -/

/-- What the relayer submits to JunoClaw. -/
inductive LayerMsg where
  | acknowledgement (sequence : Nat)
  | timeout (sequence : Nat)
deriving DecidableEq, Repr

/-- Queries and broadcasts; `cp` is the counterparty. -/
inductive RelayOp where
  | cpBalance
  | jcBalance
  | nextSequenceSend
  | cpLatest
  | latestHeight
  | commitment (sequence : Nat)
  | packetAcknowledgement (sequence : Nat)
  | packetData (sequence : Nat)
  | layerAccount
  | simulateLayer (msg : LayerMsg)
  | broadcastLayer (msg : LayerMsg)
  | waitLayerTx (hash : String)
  | membershipProof (sequence : Nat)
  | updateClient (height : Nat)
  | cpAccount
  | broadcastRecv (packet : Packet) (proof : Bytes) (height : Nat)
  | waitTx (hash : String)

abbrev RelayOp.Ans : RelayOp → Type
  | cpBalance => Nat
  | jcBalance => Nat
  | nextSequenceSend => Option Bytes
  | cpLatest => Nat × Nat
  | latestHeight => Nat
  | commitment _ => Option Bytes
  | packetAcknowledgement _ => Bytes
  | packetData _ => Option Bytes
  | layerAccount => Unit
  | simulateLayer _ => Unit
  | broadcastLayer _ => String
  | waitLayerTx _ => Unit
  | membershipProof _ => Bytes × Nat
  | updateClient _ => String
  | cpAccount => Unit
  | broadcastRecv .. => String
  | waitTx _ => Unit

/-- Each of them may fail. -/
abbrev relaySig : Sig := ⟨RelayOp, fun op => Except String op.Ans⟩

/-- The flags a tick reads, and the addresses of its keys. -/
structure Args where
  minFeeBalance : Nat
  feeAmount : Nat
  maxRetries : Nat
  updateCadence : Nat
  simulate : Bool
  cpAddr : Except String String
  jcAddr : Except String String

structure RelayStats where
  recv : Nat
  acked : Nat
  timeouts : Nat
  pending : Nat
  jcHeight : Nat
  cpHeight : Nat
  cpFeeBalance : Option Nat

structure RelayState where
  lastClientHeight : Nat
  scanFloor : Nat
  retries : Std.ExtTreeMap Nat Nat
  stats : RelayStats

/-- A tick: an error keeps what has been changed of the state. -/
abbrev RelayM := Comp relaySig RelayState String

/-- The answer, or the error, as a value. -/
def ask (op : RelayOp) : RelayM (Except String op.Ans) :=
  Comp.ofProg fun s => do
    let r ← perform (S := relaySig) op
    pure (.ok r, s)

/-- `?` on the answer. -/
def query (op : RelayOp) : RelayM op.Ans := do
  let r ← ask op
  Comp.ofExcept r

def get : RelayM RelayState := Comp.ofProg fun s => pure (.ok s, s)

def modify (f : RelayState → RelayState) : RelayM Unit := Comp.ofProg fun s => pure (.ok (), f s)

def count (f : RelayStats → RelayStats) : RelayM Unit :=
  modify fun s => { s with stats := f s.stats }

def cpAcked (seq : Nat) : RelayM Bool := do
  match ← ask (.packetAcknowledgement seq) with
  | .ok ack => pure (ack ≠ [])
  | .error _ => pure false

def packetTimedOut (packet : Packet) (cpHeight cpTimeNanos : Nat) : Bool :=
  let heightElapsed := match packet.timeoutHeight with
    | some (_, revisionHeight) => revisionHeight ≠ 0 && revisionHeight ≤ cpHeight
    | none => false
  let timeElapsed := packet.timeoutTimestamp ≠ 0 && packet.timeoutTimestamp ≤ cpTimeNanos
  heightElapsed || timeElapsed

section Tick

variable (a : Args)

def submitIbcMsg (msg : LayerMsg) : RelayM Unit := do
  let _ ← Comp.ofExcept a.jcAddr
  query .layerAccount
  if a.simulate then query (.simulateLayer msg)
  else do
    let hash ← query (.broadcastLayer msg)
    query (.waitLayerTx hash)

def relayAck (seq : Nat) : RelayM Unit := submitIbcMsg a (.acknowledgement seq)

def relayTimeout (seq : Nat) : RelayM Unit := submitIbcMsg a (.timeout seq)

def relayRecvPacket (packet : Packet) : RelayM Unit := do
  let (proof, proofHeight) ← query (.membershipProof packet.sequence)
  let _ ← query (.updateClient proofHeight)
  let _ ← Comp.ofExcept a.cpAddr
  query .cpAccount
  let hash ← query (.broadcastRecv packet proof proofHeight)
  query (.waitTx hash)

/-- The fee preflight; `false` pauses the tick. -/
def preflight : RelayM Bool := do
  let cpMinFee := if a.minFeeBalance = 0 then a.feeAmount else a.minFeeBalance
  let _ ← Comp.ofExcept a.cpAddr
  match ← ask .cpBalance with
  | .ok bal => do
    count fun s => { s with cpFeeBalance := some bal }
    pure (cpMinFee ≤ bal)
  | .error _ => pure true

/-- A packet that still has to be received, up to a number of attempts. -/
def deliver (seq : Nat) (packet : Packet) : RelayM Unit := do
  let s ← get
  let attempts := s.retries[seq]?.getD 0
  if 0 < a.maxRetries ∧ a.maxRetries ≤ attempts then
    if attempts = a.maxRetries then
      modify fun s => { s with retries := s.retries.insert seq (a.maxRetries + 1) }
    else pure ()
  else do
    match ← Comp.attempt (relayRecvPacket a packet) with
    | .ok () => do
      modify fun s => { s with retries := s.retries.erase seq }
      count fun s => { s with recv := s.recv + 1 }
      relayAck a seq
      count fun s => { s with acked := s.acked + 1 }
      match ← ask .latestHeight with
      | .ok height => modify fun s => { s with lastClientHeight := height }
      | .error _ => pure ()
    | .error _ => modify fun s => { s with retries := s.retries.insert seq (attempts + 1) }

variable (decode : Bytes → Except String Packet)

/-- What the scan has found so far. -/
structure Scan where
  lowestPending : Option Nat
  pending : Nat

/-- A packet not acknowledged, as far as the query says. -/
def resolvePending (tip : Nat × Nat) (seq : Nat) : RelayM Unit := do
  match ← query (.packetData seq) with
  | none => pure ()
  | some raw => do
    let packet ← Comp.ofExcept (decode raw)
    if packetTimedOut packet tip.1 tip.2 then do
      relayTimeout a seq
      count fun s => { s with timeouts := s.timeouts + 1 }
    else deliver a seq packet

/-- One sequence of the scan: acknowledge, time out, or deliver. -/
def resolve (tip : Nat × Nat) (seq : Nat) (acc : Scan) : RelayM Scan := do
  let commitment ← query (.commitment seq)
  if commitment.isNone then pure acc
  else do
    let lowestPending := acc.lowestPending.or (some seq)
    if ← cpAcked seq then do
      relayAck a seq
      count fun s => { s with acked := s.acked + 1 }
      pure ⟨lowestPending, acc.pending⟩
    else do
      resolvePending a decode tip seq
      pure ⟨lowestPending, acc.pending + 1⟩

def scan (tip : Nat × Nat) : List Nat → Scan → RelayM Scan
  | [], acc => pure acc
  | seq :: rest, acc => do
    let acc ← resolve a decode tip seq acc
    scan tip rest acc

/-- The next sequence to send, from its stored bytes. -/
def nextOf : Option Bytes → Nat
  | some v => (u64ofBe v).getD 1
  | none => 1

/-- `unwrap_or`. -/
def answerOr {α : Type} (default : α) : Except String α → α
  | .ok x => x
  | .error _ => default

def relayPackets : RelayM Unit := do
  let next ← nextOf <$> query .nextSequenceSend
  let tip ← answerOr (0, 0) <$> ask .cpLatest
  let jcHeight ← answerOr 0 <$> ask .latestHeight
  count fun s => { s with jcHeight, cpHeight := tip.1 }
  let s ← get
  let start := max s.scanFloor 1
  let acc ← scan a decode tip (List.range' start (next - start)) ⟨none, 0⟩
  modify fun s => { s with scanFloor := acc.lowestPending.getD next }
  count fun s => { s with pending := acc.pending }

def keepalive : RelayM Unit := do
  let height ← query .latestHeight
  let latest := height - 1
  let s ← get
  if s.lastClientHeight + a.updateCadence ≤ latest then do
    let _ ← query (.updateClient latest)
    modify fun s => { s with lastClientHeight := latest }
  else pure ()

def relayTick : RelayM Unit := do
  if ← preflight a then do
    let _ ← Comp.ofExcept a.jcAddr
    let _ ← ask .jcBalance
    relayPackets a decode
    keepalive a
  else pure ()

/-- The daemon; the errors of a tick are logged. -/
def relayLoop : Nat → RelayM Unit
  | 0 => pure ()
  | n + 1 => do
    let _ ← Comp.attempt (relayTick a decode)
    relayLoop n

end Tick

/-! ## The counterparty -/

/-- The other chain, as of a block. -/
structure Chain where
  revision : Nat
  height : Nat
  time : Nat
  acked : Nat → Bool

/-- ibc-go's check when it receives a packet. -/
def Chain.Elapsed (c : Chain) (packet : Packet) : Prop :=
  (∃ rev height, packet.timeoutHeight = some (rev, height) ∧ (rev, height) ≠ (0, 0) ∧
      (rev < c.revision ∨ rev = c.revision ∧ height ≤ c.height)) ∨
    (packet.timeoutTimestamp ≠ 0 ∧ packet.timeoutTimestamp ≤ c.time)

/-- A block: acknowledgements stay, and the new ones are for packets that have not
timed out at it. -/
structure Chain.Block (sent : Nat → Packet) (c c' : Chain) : Prop where
  revision : c'.revision = c.revision
  height : c'.height = c.height + 1
  time : c.time ≤ c'.time
  kept : ∀ seq, c.acked seq = true → c'.acked seq = true
  received : ∀ seq, c'.acked seq = true → c.acked seq = true ∨ ¬ c'.Elapsed (sent seq)

abbrev Chain.Later (sent : Nat → Packet) : Chain → Chain → Prop :=
  Relation.ReflTransGen (Chain.Block sent)

/-- What the chains may answer; every operation may fail. A tip may be old. -/
def Answers (decode : Bytes → Except String Packet) (sent : Nat → Packet) (c : Chain) :
    (op : RelayOp) → Except String op.Ans → Prop
  | .cpLatest, .ok tip => tip.1 ≤ c.height ∧ tip.2 ≤ c.time
  | .packetAcknowledgement seq, .ok ack => ack ≠ [] ↔ c.acked seq = true
  | .packetData seq, .ok (some raw) => decode raw = .ok (sent seq)
  | _, _ => True

/-- The chain makes blocks and answers. -/
def relayEnv (decode : Bytes → Except String Packet) (sent : Nat → Packet) : Env relaySig Chain :=
  fun c op r c' => Chain.Later sent c c' ∧ Answers decode sent c' op r

/-! ## What stays true while the chain goes on -/

section Stable

variable {sent : Nat → Packet}

/-- The packets are ones that JunoClaw sends. -/
def SentByLayer (sent : Nat → Packet) : Prop :=
  ∀ seq, ∃ chan portId channelId data timeoutHeight timeoutTimestamp, sent seq =
    Ibc.buildPacket chan portId channelId seq data timeoutHeight timeoutTimestamp

/-- Kept by every block. -/
def Stable (sent : Nat → Packet) (P : Chain → Prop) : Prop :=
  ∀ ⦃c c' : Chain⦄, c.Block sent c' → P c → P c'

theorem Stable.later {P : Chain → Prop} (hP : Stable sent P) {c c' : Chain}
    (h : c.Later sent c') (hc : P c) : P c' := by
  induction h with
  | refl => exact hc
  | tail _ hblock ih => exact hP hblock ih

theorem stable_elapsed (packet : Packet) : Stable sent fun c => c.Elapsed packet := by
  rintro c c' h (⟨rev, height, hheight, hne, hle⟩ | ⟨hne, hle⟩)
  · refine .inl ⟨rev, height, hheight, hne, ?_⟩
    rw [h.revision, h.height]
    omega
  · exact .inr ⟨hne, hle.trans h.time⟩

/-- The chain has been at the tip. -/
def TipSeen (tip : Nat × Nat) (c : Chain) : Prop := tip.1 ≤ c.height ∧ tip.2 ≤ c.time

theorem stable_tipSeen (tip : Nat × Nat) : Stable sent (TipSeen tip) := by
  rintro c c' h ⟨hheight, htime⟩
  refine ⟨?_, htime.trans h.time⟩
  rw [h.height]
  omega

/-- What the relayer takes for timed out at a tip, the chain receives no more. -/
theorem elapsed_of_timedOut (hsent : SentByLayer sent) {tip : Nat × Nat} {c : Chain} {seq : Nat}
    (htip : TipSeen tip c) (h : packetTimedOut (sent seq) tip.1 tip.2 = true) :
    c.Elapsed (sent seq) := by
  obtain ⟨chan, portId, channelId, data, timeoutHeight, timeoutTimestamp, heq⟩ := hsent seq
  rw [heq] at h ⊢
  obtain ⟨hheight, htime⟩ := htip
  simp only [packetTimedOut, Ibc.buildPacket, Bool.or_eq_true, Bool.and_eq_true,
    decide_eq_true_eq] at h
  rcases h with ⟨hne, hle⟩ | ⟨hne, hle⟩
  · refine .inl ⟨0, timeoutHeight, rfl, ?_, ?_⟩
    · intro hzero
      exact hne (Prod.mk.inj hzero).2
    · omega
  · exact .inr ⟨of_decide_eq_true hne, (of_decide_eq_true hle).trans htime⟩

/-- The packet is not acknowledged if it has timed out at the tip. -/
def Open (sent : Nat → Packet) (tip : Nat × Nat) (seq : Nat) (c : Chain) : Prop :=
  TipSeen tip c ∧ (packetTimedOut (sent seq) tip.1 tip.2 = true → c.acked seq = false)

theorem stable_open (hsent : SentByLayer sent) (tip : Nat × Nat) (seq : Nat) :
    Stable sent (Open sent tip seq) := by
  rintro c c' h ⟨htip, hopen⟩
  refine ⟨stable_tipSeen tip h htip, fun htimed => ?_⟩
  have helapsed := stable_elapsed _ h (elapsed_of_timedOut hsent htip htimed)
  rw [← Bool.not_eq_true]
  intro hacked
  rcases h.received seq hacked with hbefore | hnot
  · rw [hopen htimed] at hbefore
    cases hbefore
  · exact hnot helapsed

end Stable

/-! ## The relayer's exchanges -/

/-- The query for the acknowledgement of a packet past its timeout does not fail if there
is one. -/
def AckAnswered (sent : Nat → Packet) (c : Chain) : Exchange relaySig → Prop
  | ⟨.packetAcknowledgement seq, .error _⟩ => c.Elapsed (sent seq) → c.acked seq = false
  | _ => True

/-- A timeout is submitted only for a packet that is not acknowledged. -/
def NoLateTimeout (c : Chain) : Exchange relaySig → Prop
  | ⟨.broadcastLayer (.timeout seq), _⟩ => c.acked seq = false
  | _ => True

/-- The environment in which those queries are answered. -/
def ackedEnv (decode : Bytes → Except String Packet) (sent : Nat → Packet) : Env relaySig Chain :=
  fun c op r c' => relayEnv decode sent c op r c' ∧ AckAnswered sent c' ⟨op, r⟩

section Exchanges

variable {decode : Bytes → Except String Packet} {sent : Nat → Packet} {P : Chain → Prop}
  {α β : Type}

/-- From a chain with `P`, no late timeout. -/
abbrev SafeRelay (decode : Bytes → Except String Packet) (sent : Nat → Packet) (P : Chain → Prop)
    (p : RelayM α) (Q : α → Chain → Prop) (R : String → Chain → Prop) : Prop :=
  Safe (ackedEnv decode sent) NoLateTimeout P p Q R

variable {op : RelayOp} {p : RelayM α}

theorem safe_ask {Q : Except String op.Ans → Chain → Prop} {R : String → Chain → Prop}
    (h : ∀ c c' r, P c → ackedEnv decode sent c op r c' → NoLateTimeout c' ⟨op, r⟩ ∧ Q r c') :
    SafeRelay decode sent P (ask op) Q R :=
  fun _ c hc r c' henv => h c c' r hc henv

/-- An operation that is no submission of a timeout. -/
def Harmless (op : RelayOp) : Prop := ∀ c r, NoLateTimeout c ⟨op, r⟩

/-- A harmless question, and what its answer says. -/
theorem safe_ask_harmless {R : String → Chain → Prop} (hop : Harmless op) (hP : Stable sent P) :
    SafeRelay decode sent P (ask op) (fun r c => P c ∧ Answers decode sent c op r) R :=
  safe_ask fun _ c' r hc henv => ⟨hop c' r, hP.later henv.1.1 hc, henv.1.2⟩

theorem safe_query_harmless (hop : Harmless op) (hP : Stable sent P) :
    SafeRelay decode sent P (query op) (fun x c => P c ∧ Answers decode sent c op (.ok x))
      fun _ => P := by
  refine Safe.bind (safe_ask_harmless hop hP) fun r => Safe.ofExcept ?_ ?_
  · rintro x c rfl hc
    exact hc
  · rintro e c rfl hc
    exact hc.1

/-- The program keeps whatever the chain keeps. -/
def Calm (decode : Bytes → Except String Packet) (sent : Nat → Packet) (p : RelayM α) : Prop :=
  ∀ ⦃P : Chain → Prop⦄, Stable sent P → SafeRelay decode sent P p (fun _ => P) fun _ => P

theorem Calm.pure (x : α) : Calm decode sent (pure x) := fun _ _ => Safe.pure fun _ hc => hc

theorem Calm.ofExcept (x : Except String α) : Calm decode sent (Comp.ofExcept x) :=
  fun _ _ => Safe.ofExcept (fun _ _ _ hc => hc) fun _ _ _ hc => hc

theorem Calm.bind {f : α → RelayM β} (hp : Calm decode sent p) (hf : ∀ x, Calm decode sent (f x)) :
    Calm decode sent (p >>= f) :=
  fun _ hP => Safe.bind (hp hP) fun x => hf x hP

theorem Calm.ite {c : Prop} [Decidable c] {q : RelayM α} (hp : Calm decode sent p)
    (hq : Calm decode sent q) : Calm decode sent (if c then p else q) :=
  fun _ hP => Safe.ite (fun _ => hp hP) fun _ => hq hP

theorem Calm.attempt (hp : Calm decode sent p) :
    Calm decode sent (Comp.attempt p) := fun _ hP => Safe.attempt (hp hP)

theorem Calm.ask (hop : Harmless op) : Calm decode sent (ask op) :=
  fun _ hP => (safe_ask_harmless hop hP).conseq (fun _ hc => hc) (fun _ _ hc => hc.1)
    fun _ _ hc => hc

theorem Calm.query (hop : Harmless op) : Calm decode sent (query op) :=
  Calm.bind (.ask hop) fun r => .ofExcept r

theorem Calm.get : Calm decode sent get := fun _ _ _ _ hc => hc

theorem Calm.modify (f : RelayState → RelayState) : Calm decode sent (modify f) :=
  fun _ _ _ _ hc => hc

end Exchanges

/-! ## The parts of a tick -/

section Parts

variable {decode : Bytes → Except String Packet} {sent : Nat → Packet} {P : Chain → Prop}
  {a : Args}

theorem calm_submitAck (seq : Nat) : Calm decode sent (relayAck a seq) := by
  refine .bind (.ofExcept _) fun _ => .bind (.query fun _ _ => trivial) fun _ => .ite ?_ ?_
  · exact .query fun _ _ => trivial
  · exact .bind (.query fun _ _ => trivial) fun _ => .query fun _ _ => trivial

theorem calm_relayRecvPacket (packet : Packet) :
    Calm decode sent (relayRecvPacket a packet) := by
  refine .bind (.query fun _ _ => trivial) fun proof => ?_
  refine .bind (.query fun _ _ => trivial) fun _ => .bind (.ofExcept _) fun _ => ?_
  refine .bind (.query fun _ _ => trivial) fun _ => ?_
  exact .bind (.query fun _ _ => trivial) fun _ => .query fun _ _ => trivial

theorem calm_deliver (seq : Nat) (packet : Packet) : Calm decode sent (deliver a seq packet) := by
  refine .bind .get fun s => .ite (.ite (.modify _) (.pure ())) ?_
  refine .bind (calm_relayRecvPacket packet).attempt fun r => ?_
  cases r with
  | error e => exact .modify _
  | ok u =>
    refine .bind (.modify _) fun _ => .bind (.modify _) fun _ => ?_
    refine .bind (calm_submitAck seq) fun _ => .bind (.modify _) fun _ => ?_
    refine .bind (.ask fun _ _ => trivial) fun r => ?_
    cases r with
    | ok height => exact .modify _
    | error e => exact .pure ()

/-- The submission of a timeout, for a packet that stays unacknowledged. -/
theorem safe_relayTimeout {seq : Nat} (hP : Stable sent P)
    (hopen : ∀ c, P c → c.acked seq = false) :
    SafeRelay decode sent P (relayTimeout a seq) (fun _ => P) fun _ => P := by
  have hquery {op : RelayOp} (hop : Harmless op) :
      SafeRelay decode sent P (query op) (fun _ => P) fun _ => P := Calm.query hop hP
  refine Safe.bind (Calm.ofExcept _ hP) fun _ => ?_
  refine Safe.bind (hquery (by exact fun _ _ => trivial)) fun _ =>
    Safe.ite (fun _ => ?_) fun _ => ?_
  · exact hquery fun _ _ => trivial
  · refine Safe.bind (Q := fun _ => P) ?_ fun _ => hquery (by exact fun _ _ => trivial)
    refine Safe.bind (Q := fun _ => P) (safe_ask fun c c' r hc henv => ?_) fun r =>
      Calm.ofExcept r hP
    have hc' := hP.later henv.1.1 hc
    exact ⟨hopen c' hc', hc'⟩

theorem safe_cpAcked (hsent : SentByLayer sent) (tip : Nat × Nat) (seq : Nat) :
    SafeRelay decode sent (TipSeen tip) (cpAcked seq)
      (fun acked c => TipSeen tip c ∧ (acked = false → Open sent tip seq c))
      fun _ => TipSeen tip := by
  refine Safe.bind (Q := fun r c => TipSeen tip c ∧ Answers decode sent c _ r ∧
    AckAnswered sent c ⟨_, r⟩) (safe_ask fun c c' r hc henv => ⟨trivial, ?_⟩) fun r => ?_
  · exact ⟨(stable_tipSeen tip).later henv.1.1 hc, henv.1.2, henv.2⟩
  · cases r with
    | ok ack =>
      refine Safe.pure fun c hc => ⟨hc.1, fun hempty => ⟨hc.1, fun _ => ?_⟩⟩
      rw [← Bool.not_eq_true]
      exact fun hacked => of_decide_eq_false hempty (hc.2.1.mpr hacked)
    | error e =>
      exact Safe.pure fun c hc => ⟨hc.1, fun _ => ⟨hc.1, fun htimed =>
        hc.2.2 (elapsed_of_timedOut hsent hc.1 htimed)⟩⟩

/-- A packet known to be open, or past its timeout and unacknowledged, is resolved. -/
theorem safe_resolvePending (hsent : SentByLayer sent) (tip : Nat × Nat) (seq : Nat) :
    SafeRelay decode sent (Open sent tip seq) (resolvePending a decode tip seq)
      (fun _ => Open sent tip seq) fun _ => Open sent tip seq := by
  have hstable := stable_open hsent tip seq
  refine Safe.bind (safe_query_harmless (by exact fun _ _ => trivial) hstable) fun raw => ?_
  cases raw with
  | none => exact Safe.pure fun c hc => hc.1
  | some raw =>
    refine Safe.bind (Q := fun packet c => Open sent tip seq c ∧ packet = sent seq)
      (Safe.ofExcept (fun packet c hdecode hc => ⟨hc.1, ?_⟩) fun _ _ _ hc => hc.1)
      fun packet => ?_
    · have hraw : decode raw = .ok (sent seq) := hc.2
      rw [hdecode] at hraw
      exact Except.ok.inj hraw
    · refine Safe.ite (fun htimed => ?_) fun _ => ?_
      · -- the packet is known to be the one that timed out only inside the run
        intro s c hc
        obtain ⟨hopen, rfl⟩ := hc
        have hexpired : Stable sent fun c => Open sent tip seq c ∧ c.acked seq = false :=
          fun c c' h hc => ⟨hstable h hc.1, (hstable h hc.1).2 htimed⟩
        refine Safe.conseq (Safe.bind (safe_relayTimeout hexpired fun c hc => hc.2) fun _ =>
          Calm.modify _ hexpired) (fun _ hc => hc) (fun _ _ hc => hc.1) (fun _ _ hc => hc.1)
          s c ?_
        exact ⟨hopen, hopen.2 htimed⟩
      · exact (calm_deliver seq packet hstable).conseq (fun _ hc => hc.1) (fun _ _ hc => hc)
          fun _ _ hc => hc

theorem safe_resolve (hsent : SentByLayer sent) (tip : Nat × Nat) (seq : Nat) (acc : Scan) :
    SafeRelay decode sent (TipSeen tip) (resolve a decode tip seq acc) (fun _ => TipSeen tip)
      fun _ => TipSeen tip := by
  have hstable : Stable sent (TipSeen tip) := stable_tipSeen tip
  refine Safe.bind (Calm.query (by exact fun _ _ => trivial) hstable) fun commitment => ?_
  refine Safe.ite (fun _ => Calm.pure _ hstable) fun _ => ?_
  refine Safe.bind (safe_cpAcked hsent tip seq) fun acked => ?_
  cases acked with
  | true =>
    refine Safe.bind ((calm_submitAck seq hstable).conseq (fun c hc => hc.1) (fun _ _ hc => hc)
      fun _ _ hc => hc) fun _ => ?_
    exact Safe.bind (Calm.modify _ hstable) fun _ => Calm.pure _ hstable
  | false =>
    refine Safe.bind (Safe.conseq (safe_resolvePending hsent tip seq) (fun c hc => hc.2 rfl)
      (fun _ _ hc => hc.1) fun _ _ hc => hc.1) fun _ => Calm.pure _ hstable

theorem safe_scan (hsent : SentByLayer sent) (tip : Nat × Nat) : ∀ (seqs : List Nat) (acc : Scan),
    SafeRelay decode sent (TipSeen tip) (scan a decode tip seqs acc) (fun _ => TipSeen tip)
      fun _ => TipSeen tip
  | [], _ => Safe.pure fun _ hc => hc
  | seq :: rest, acc =>
    Safe.bind (safe_resolve hsent tip seq acc) fun acc => safe_scan hsent tip rest acc

/-- Nothing is known of the chain. -/
abbrev Anywhere : Chain → Prop := fun _ => True

theorem stable_anywhere : Stable sent Anywhere := fun _ _ _ _ => trivial

/-- An error leaves the tick, and nothing is known after it. -/
theorem Calm.safe {α : Type} {p : RelayM α} (hp : Calm decode sent p) (hP : Stable sent P) :
    SafeRelay decode sent P p (fun _ => P) fun _ => Anywhere :=
  (hp hP).conseq (fun _ hc => hc) (fun _ _ hc => hc) fun _ _ _ => trivial

/-- The tip is asked for before any acknowledgement. -/
theorem safe_relayPackets (hsent : SentByLayer sent) :
    SafeRelay decode sent Anywhere (relayPackets a decode) (fun _ => Anywhere)
      fun _ => Anywhere := by
  have hnext : Calm decode sent (query .nextSequenceSend) := .query fun _ _ => trivial
  have hheight : Calm decode sent (ask .latestHeight) := .ask fun _ _ => trivial
  have htip : SafeRelay decode sent Anywhere (ask .cpLatest)
      (fun r c => TipSeen (answerOr (0, 0) r) c) fun _ => Anywhere := by
    refine safe_ask fun c c' r _ henv => ⟨trivial, ?_⟩
    cases r with
    | ok tip => exact henv.1.2
    | error e => exact ⟨Nat.zero_le _, Nat.zero_le _⟩
  refine Safe.bind (Q := fun _ => Anywhere) (Safe.map (hnext stable_anywhere)) fun next => ?_
  refine Safe.bind (Q := TipSeen) (Safe.map htip) fun tip => ?_
  have hstable : Stable sent (TipSeen tip) := stable_tipSeen tip
  refine Safe.bind (Q := fun _ => TipSeen tip) (Safe.map (hheight.safe hstable)) fun jcHeight => ?_
  refine Safe.bind (Calm.safe (.modify _) hstable) fun _ => ?_
  refine Safe.bind (Calm.safe .get hstable) fun s => ?_
  refine Safe.bind ((safe_scan hsent tip _ _).conseq (fun _ hc => hc) (fun _ _ hc => hc)
    fun _ _ _ => trivial) fun acc => ?_
  refine Safe.bind (Calm.safe (.modify _) hstable) fun _ => ?_
  exact (Calm.safe (.modify _) hstable).conseq (fun _ hc => hc) (fun _ _ _ => trivial)
    fun _ _ hc => hc

theorem calm_keepalive : Calm decode sent (keepalive a) := by
  refine .bind (.query fun _ _ => trivial) fun height => .bind .get fun s => .ite ?_ (.pure ())
  exact .bind (.query fun _ _ => trivial) fun _ => .modify _

theorem calm_preflight : Calm decode sent (preflight a) := by
  refine .bind (.ofExcept _) fun _ => .bind (.ask fun _ _ => trivial) fun r => ?_
  cases r with
  | ok bal => exact .bind (.modify _) fun _ => .pure _
  | error e => exact .pure _

/-- Step: one tick. -/
theorem safe_relayTick (hsent : SentByLayer sent) :
    SafeRelay decode sent Anywhere (relayTick a decode) (fun _ => Anywhere) fun _ => Anywhere := by
  have hbalance : Calm decode sent (ask .jcBalance) := .ask fun _ _ => trivial
  refine Safe.bind (calm_preflight stable_anywhere) fun go => Safe.ite (fun _ => ?_) fun _ => ?_
  · refine Safe.bind (Calm.ofExcept _ stable_anywhere) fun _ => ?_
    refine Safe.bind (hbalance stable_anywhere) fun _ => ?_
    exact Safe.bind (safe_relayPackets hsent) fun _ => calm_keepalive stable_anywhere
  · exact Safe.pure fun _ hc => hc

/-- Run: the daemon. -/
theorem safe_relayLoop (hsent : SentByLayer sent) : ∀ n : Nat,
    SafeRelay decode sent Anywhere (relayLoop a decode n) (fun _ => Anywhere) fun _ => Anywhere
  | 0 => Safe.pure fun _ hc => hc
  | n + 1 => Safe.bind (Safe.attempt (safe_relayTick hsent)) fun _ => safe_relayLoop hsent n

end Parts

/-- **No timeout of an acknowledged packet.** In every run of the daemon, whatever fails in
it and whatever the counterparty does meanwhile: if no query for an acknowledgement fails
that exists and whose packet is past its timeout, every timeout is submitted while its packet
is not acknowledged. -/
theorem submits_no_late_timeout {decode : Bytes → Except String Packet} {sent : Nat → Packet}
    (hsent : SentByLayer sent) (a : Args) (ticks : Nat) (s : RelayState) (c : Chain)
    {log : List (Chain × Exchange relaySig)}
    (hplayed : Played (relayEnv decode sent) ((relayLoop a decode ticks).toProg s) c log)
    (hqueries : ∀ x ∈ log, AckAnswered sent x.1 x.2) : ∀ x ∈ log, NoLateTimeout x.1 x.2 :=
  (safe_relayLoop hsent ticks s c trivial).played (hplayed.restrict hqueries)

/-! ### A tick that times a packet out -/

/-- The packets time out at height 100. -/
def samplePacket (seq : Nat) : Packet :=
  Ibc.buildPacket ⟨3, 1, some ⟨"transfer", "channel-7"⟩, ["connection-0"], "ics20-1"⟩ "transfer"
    "channel-0" seq [0x7b, 0x7d] 100 0

theorem samplePacket_sent : SentByLayer samplePacket := fun _ => ⟨_, _, _, _, _, _, rfl⟩

/-- The decoder, on the bytes of the first packet. -/
def sampleDecode (raw : Bytes) : Except String Packet :=
  if raw = (samplePacket 1).proto then .ok (samplePacket 1) else .error "invalid packet"

def sampleArgs : Args := ⟨0, 5, 60, 50, false, .ok "juno1relayer", .ok "slay1relayer"⟩

def sampleRelayState : RelayState := ⟨0, 1, ∅, ⟨0, 0, 0, 0, 0, 0, none⟩⟩

/-- Packet 1 is pending, the query for its acknowledgement fails, and its timeout is
submitted. -/
def timeoutLog (c₁ c₂ : Chain) : List (Chain × Exchange relaySig) :=
  [(c₁, ⟨.cpBalance, .ok 10⟩), (c₁, ⟨.jcBalance, .ok 10⟩),
    (c₁, ⟨.nextSequenceSend, .ok (some [0, 0, 0, 0, 0, 0, 0, 2])⟩),
    (c₂, ⟨.cpLatest, .ok (100, 0)⟩), (c₂, ⟨.latestHeight, .ok 7⟩),
    (c₂, ⟨.commitment 1, .ok (some [1])⟩),
    (c₂, ⟨.packetAcknowledgement 1, .error "transport error"⟩),
    (c₂, ⟨.packetData 1, .ok (some (samplePacket 1).proto)⟩), (c₂, ⟨.layerAccount, .ok ()⟩),
    (c₂, ⟨.broadcastLayer (.timeout 1), .ok "hash"⟩)]

theorem played_timeoutLog {c₀ c₁ c₂ : Chain} (h₁ : c₀.Later samplePacket c₁)
    (h₂ : c₁.Later samplePacket c₂) (htip : 100 ≤ c₂.height) :
    Played (relayEnv sampleDecode samplePacket)
      ((relayLoop sampleArgs sampleDecode 1).toProg sampleRelayState) c₀ (timeoutLog c₁ c₂) := by
  have hstay : c₂.Later samplePacket c₂ := .refl
  refine .inr ⟨_, _, _, rfl, ⟨h₁, trivial⟩, ?_⟩
  refine .inr ⟨_, _, _, rfl, ⟨.refl, trivial⟩, ?_⟩
  refine .inr ⟨_, _, _, rfl, ⟨.refl, trivial⟩, ?_⟩
  refine .inr ⟨_, _, _, rfl, ⟨h₂, htip, Nat.zero_le _⟩, ?_⟩
  refine .inr ⟨_, _, _, rfl, ⟨hstay, trivial⟩, ?_⟩
  refine .inr ⟨_, _, _, rfl, ⟨hstay, trivial⟩, ?_⟩
  refine .inr ⟨_, _, _, rfl, ⟨hstay, trivial⟩, ?_⟩
  refine .inr ⟨_, _, _, rfl, ⟨hstay, rfl⟩, ?_⟩
  refine .inr ⟨_, _, _, rfl, ⟨hstay, trivial⟩, ?_⟩
  refine .inr ⟨_, _, _, rfl, ⟨hstay, trivial⟩, ?_⟩
  exact .inl rfl

/-- A chain at a height, on which the packets in the list are acknowledged. -/
def chainAt (height : Nat) (acked : List Nat) : Chain :=
  ⟨0, height, 0, fun seq => acked.contains seq⟩

/-- Nobody delivers the packet, and it is timed out. -/
theorem submits_no_late_timeout_sample :
    (chainAt 100 [], ⟨.broadcastLayer (.timeout 1), .ok "hash"⟩) ∈
        timeoutLog (chainAt 100 []) (chainAt 100 []) ∧
      ∀ x ∈ timeoutLog (chainAt 100 []) (chainAt 100 []), NoLateTimeout x.1 x.2 := by
  refine ⟨by simp [timeoutLog], submits_no_late_timeout samplePacket_sent sampleArgs 1
    sampleRelayState (chainAt 100 []) (played_timeoutLog .refl .refl (Nat.le_refl _)) ?_⟩
  simp only [timeoutLog, List.forall_mem_cons]
  exact ⟨trivial, trivial, trivial, trivial, trivial, trivial, fun _ => rfl, trivial, trivial,
    trivial, fun x hx => by cases hx⟩

/-- Block 99 receives packet 1; at block 100 the query for its acknowledgement fails, and its
timeout is submitted. -/
theorem acked_packet_timed_out :
    Chain.Later samplePacket (chainAt 98 []) (chainAt 99 [1]) ∧
      Played (relayEnv sampleDecode samplePacket)
        ((relayLoop sampleArgs sampleDecode 1).toProg sampleRelayState) (chainAt 98 [])
        (timeoutLog (chainAt 99 [1]) (chainAt 100 [1])) ∧
      (chainAt 100 [1], ⟨.broadcastLayer (.timeout 1), .ok "hash"⟩) ∈
        timeoutLog (chainAt 99 [1]) (chainAt 100 [1]) ∧
      (chainAt 100 [1]).acked 1 = true := by
  have hreceived : (chainAt 98 []).Block samplePacket (chainAt 99 [1]) :=
    { revision := rfl
      height := rfl
      time := Nat.le_refl _
      kept := fun seq h => by cases h
      received := fun seq h => .inr (by
        rintro (⟨rev, height, heq, -, hlt | ⟨-, hle⟩⟩ | ⟨hne, -⟩)
        · exact Nat.not_lt_zero _ hlt
        · cases heq
          exact absurd hle (by decide)
        · exact hne rfl) }
  have hnext : (chainAt 99 [1]).Block samplePacket (chainAt 100 [1]) :=
    ⟨rfl, rfl, Nat.le_refl _, fun _ h => h, fun _ h => .inl h⟩
  refine ⟨.single hreceived, played_timeoutLog (.single hreceived) (.single hnext) (Nat.le_refl _),
    ?_, rfl⟩
  simp [timeoutLog]

end LayerSdk.Relay
