import LayerSdk.IbcEffect

/-!
# Runs of IBC messages

A run keeps the events of the messages that went through, oldest first. The
handshakes, the next sequence and the packets under `ibc/` are what its events
say: each part of the table has a rule for one more event, and a run keeps all
of them (`Ordered`).

Keys are texts, so a channel is kept apart from others by its text. Where
neither identifier has a slash in it, no other identifiers have that text.
-/

namespace LayerSdk

open EffectProg

theorem length_u64be (n : Nat) : (u64be n).length = 8 := rfl

theorem u64ofBe_u64be {n : Nat} (h : n ≤ u64Max) : u64ofBe (u64be n) = some n := by
  have hlength : ¬ (u64be n).length < 8 := by
    rw [length_u64be]
    decide
  rw [u64ofBe, if_neg hlength]
  have hle : n < 2 ^ 64 := by
    rw [u64Max] at h
    omega
  simp only [u64be, List.take_succ_cons, List.take_zero, List.foldl_cons, List.foldl_nil,
    UInt8.toNat_ofNat']
  congr 1
  omega

namespace Ibc

/-! ## What a run says -/

namespace Event

def connectionStep (id : String) : Event → Option Handshake
  | connection id' step => if id' = id then some step else none
  | _ => none

def channelStep (p c : String) : Event → Option Handshake
  | channel p' c' step => if p' = p ∧ c' = c then some step else none
  | _ => none

def sequence (p c : String) : Event → Option Nat
  | sent p' c' n => if p' = p ∧ c' = c then some n else none
  | _ => none

/-- The channel an event is about. -/
def on : Event → Option (String × String)
  | connection .. => none
  | channel p c _ => some (p, c)
  | sent p c _ => some (p, c)
  | settled p c _ => some (p, c)

theorem channelStep_of_on {e : Event} {p c : String} (h : e.on ≠ some (p, c)) :
    e.channelStep p c = none := by
  cases e with
  | channel p' c' step => exact if_neg fun heq => h (by rw [on, heq.1, heq.2])
  | _ => rfl

theorem sequence_of_on {e : Event} {p c : String} (h : e.on ≠ some (p, c)) :
    e.sequence p c = none := by
  cases e with
  | sent p' c' n => exact if_neg fun heq => h (by rw [on, heq.1, heq.2])
  | _ => rfl

end Event

/-- The messages of a connection's handshake. -/
def connectionSteps (id : String) (log : List Event) : List Handshake :=
  log.filterMap (Event.connectionStep id)

/-- The messages of a channel's handshake. -/
def channelSteps (p c : String) (log : List Event) : List Handshake :=
  log.filterMap (Event.channelStep p c)

/-- The sequences a channel's transfers got. -/
def sentSequences (p c : String) (log : List Event) : List Nat :=
  log.filterMap (Event.sequence p c)

/-- The packet was sent, and neither acknowledged nor timed out since. -/
def Pending (p c : String) (n : Nat) (log : List Event) : Prop :=
  ∃ older newer, log = older ++ .sent p c n :: newer ∧ .settled p c n ∉ newer

theorem pending_append_singleton {p c : String} {n : Nat} {log : List Event} {e : Event} :
    Pending p c n (log ++ [e]) ↔ e = .sent p c n ∨ Pending p c n log ∧ e ≠ .settled p c n := by
  constructor
  · rintro ⟨older, newer, hlog, hnot⟩
    rcases List.eq_nil_or_concat newer with rfl | ⟨newer, e', rfl⟩
    · exact .inl (List.head_eq_of_cons_eq (List.append_inj' hlog rfl).2)
    · rw [List.concat_eq_append, ← List.cons_append, ← List.append_assoc] at hlog
      obtain ⟨rfl, he⟩ := List.append_inj' hlog rfl
      obtain rfl := List.head_eq_of_cons_eq he
      rw [List.concat_eq_append, List.mem_append, not_or, List.mem_singleton] at hnot
      exact .inr ⟨⟨older, newer, rfl, hnot.1⟩, Ne.symm hnot.2⟩
  · rintro (rfl | ⟨⟨older, newer, rfl, hnot⟩, hne⟩)
    · exact ⟨log, [], rfl, List.not_mem_nil⟩
    · refine ⟨older, newer ++ [e], by simp, ?_⟩
      rw [List.mem_append, List.mem_singleton]
      exact not_or.mpr ⟨hnot, Ne.symm hne⟩

/-! ## Handshakes -/

/-- How far a handshake is. -/
inductive Phase where
  | absent
  | init
  | opened
deriving DecidableEq

namespace Phase

/-- The messages that lead to the phase. -/
def steps : Phase → List Handshake
  | absent => []
  | init => [.openInit]
  | opened => [.openInit, .openAck]

/-- The number stored; connections and channels have the same ones. -/
def number : Phase → Option Nat
  | absent => none
  | init => some connectionStateInit
  | opened => some connectionStateOpen

end Phase

/-- The state in a stored record, if there is one and it can be read. -/
def storedState {α : Type} (codec : ProtoCodec α) (state : α → Nat) (raw : Option Bytes) :
    Option (Except String Nat) :=
  raw.map fun b => (codec.decode b).map state

/-- The stored state is the one the messages lead to, and they are in order. -/
def Shows {α : Type} (codec : ProtoCodec α) (state : α → Nat) (steps : List Handshake)
    (raw : Option Bytes) : Prop :=
  ∃ phase : Phase, steps = phase.steps ∧ storedState codec state raw = phase.number.map .ok

section Handshakes

variable {α : Type} {codec : ProtoCodec α} {state : α → Nat} {steps : List Handshake}
  {raw : Option Bytes} {x y : α}

theorem Holds.storedState (h : Holds codec raw x) :
    Ibc.storedState codec state raw = some (.ok (state x)) := by
  obtain ⟨b, rfl, hdecode⟩ := h
  rw [Ibc.storedState, Option.map_some, hdecode]
  rfl

theorem Holds.unique (h : Holds codec raw x) (h' : Holds codec raw y) : x = y := by
  obtain ⟨b, rfl, hdecode⟩ := h
  obtain ⟨b', hb, hdecode'⟩ := h'
  cases hb
  exact Except.ok.inj (hdecode.symm.trans hdecode')

theorem shows_nil : Shows codec state [] none := ⟨.absent, rfl, rfl⟩

theorem Shows.openInit (h : Shows codec state steps none) (hx : state x = connectionStateInit) :
    Shows codec state (steps ++ [.openInit]) (some (codec.encode x)) := by
  obtain ⟨phase, rfl, hstored⟩ := h
  refine ⟨.init, ?_, by rw [(holds_encode x).storedState, hx]; rfl⟩
  cases phase with
  | absent => rfl
  | init | opened => cases hstored

theorem Shows.openAck (h : Shows codec state steps raw) (hx : Holds codec raw x)
    (hinit : state x = connectionStateInit) (hopen : state y = connectionStateOpen) :
    Shows codec state (steps ++ [.openAck]) (some (codec.encode y)) := by
  obtain ⟨phase, rfl, hstored⟩ := h
  rw [hx.storedState, hinit] at hstored
  refine ⟨.opened, ?_, by rw [(holds_encode y).storedState, hopen]; rfl⟩
  cases phase with
  | absent => cases hstored
  | init => rfl
  | opened => cases hstored

/-- Where a record is, the handshake has begun. -/
theorem Shows.ne_nil (h : Shows codec state steps raw) (hx : Holds codec raw x) : steps ≠ [] := by
  obtain ⟨phase, rfl, hstored⟩ := h
  rw [hx.storedState] at hstored
  cases phase with
  | absent => cases hstored
  | init | opened => exact List.cons_ne_nil _ _

/-- Where none is, it has not. -/
theorem Shows.eq_nil (h : Shows codec state steps none) : steps = [] := by
  obtain ⟨phase, rfl, hstored⟩ := h
  cases phase with
  | absent => rfl
  | init | opened => cases hstored

end Handshakes

/-! ## One more event -/

variable (E : Externals)

/-- Without slashes in the identifiers, the text is theirs alone. -/
theorem channelText_inj {p c p' c' : String} (hp : '/' ∉ p.toList) (hc : '/' ∉ c.toList)
    (h : channelText p' c' = channelText p c) : p' = p ∧ c' = c := by
  have hlist : p'.toList ++ '/' :: ("channels".toList ++ '/' :: c'.toList) =
      p.toList ++ '/' :: ("channels".toList ++ '/' :: c.toList) := by
    simpa [channelText] using congrArg String.toList h
  -- the slashes are counted: there is none left for the other identifiers
  have hcount := congrArg (List.count '/') hlist
  simp only [List.count_append, List.count_cons_self, List.count_eq_zero_of_not_mem hp,
    List.count_eq_zero_of_not_mem hc] at hcount
  have hp' : '/' ∉ p'.toList := List.count_eq_zero.mp (by omega)
  obtain ⟨hport, hrest⟩ := append_sep_inj hp' hp hlist
  have hchannel := List.append_cancel_left hrest
  exact ⟨String.toList_inj.mp hport, String.toList_inj.mp (List.cons.inj hchannel).2⟩

/-- The connection is there and open. -/
def OpenAt (v : Table) (id : String) : Prop :=
  ∃ conn, Holds E.codecs.connectionEnd (v (.connection id)) conn ∧
    conn.state = connectionStateOpen

/-- What the table has for a channel, by the events so far. -/
structure Ordered (p c : String) (log : List Event) (v : Table) : Prop where
  phase : Shows E.codecs.channel Channel.state (channelSteps p c log)
    (v (.channel (channelText p c)))
  connected : ∀ chan, Holds E.codecs.channel (v (.channel (channelText p c))) chan →
    ∃ id, chan.connectionHops = [id] ∧ OpenAt E v id
  sequences : sentSequences p c log = List.range' 1 (sentSequences p c log).length
  unsent : channelSteps p c log = [] → sentSequences p c log = []
  next : channelSteps p c log ≠ [] →
    v (.nextSequence (channelText p c)) = some (u64be (1 + (sentSequences p c log).length))
  bound : 1 + (sentSequences p c log).length ≤ u64Max
  commitment : ∀ n, v (.commitment (channelText p c) n) ≠ none ↔ Pending p c n log
  packet : ∀ n, v (.packet (channelText p c) n) ≠ none ↔ Pending p c n log

variable {E} {v v' : Table} {log : List Event} {p c : String}

/-- An open connection stays. -/
theorem Effect.openAt {event : Option Event} (h : Effect E event v v') {id : String}
    (hopen : OpenAt E v id) : OpenAt E v' id := by
  obtain ⟨conn, hconn, hstate⟩ := hopen
  have hsame : v' (.connection id) = v (.connection id) → OpenAt E v' id := fun heq =>
    ⟨conn, heq ▸ hconn, hstate⟩
  cases h with
  | client => exact hsame (by simp)
  | connInit conn' hfree hinit =>
    refine hsame (Function.update_of_ne ?_ _ _)
    rintro ⟨⟩
    obtain ⟨raw, hraw, -⟩ := hconn
    exact Option.some_ne_none raw (hraw.symm.trans hfree)
  | connAck conn' hfound hinit hopen =>
    refine hsame (Function.update_of_ne ?_ _ _)
    rintro ⟨⟩
    rw [hfound.unique hconn, hstate] at hinit
    cases hinit
  | chanInit | chanAck | sent | settled => exact hsame (by simp)

namespace Ordered

/-- Neither a step of the handshake nor a packet sent. -/
theorem keep (h : Ordered E p c log v) {log' : List Event}
    (hsteps : channelSteps p c log' = channelSteps p c log)
    (hsent : sentSequences p c log' = sentSequences p c log)
    (hchannel : v' (.channel (channelText p c)) = v (.channel (channelText p c)))
    (hnext : v' (.nextSequence (channelText p c)) = v (.nextSequence (channelText p c)))
    (hopen : ∀ id, OpenAt E v id → OpenAt E v' id)
    (hcommitment : ∀ n, v' (.commitment (channelText p c) n) ≠ none ↔ Pending p c n log')
    (hpacket : ∀ n, v' (.packet (channelText p c) n) ≠ none ↔ Pending p c n log') :
    Ordered E p c log' v' := by
  refine ⟨?_, fun chan hchan => ?_, ?_, ?_, ?_, ?_, hcommitment, hpacket⟩
  · rw [hsteps, hchannel]
    exact h.phase
  · obtain ⟨id, hhops, hid⟩ := h.connected chan (hchannel ▸ hchan)
    exact ⟨id, hhops, hopen id hid⟩
  · rw [hsent]
    exact h.sequences
  · rw [hsteps, hsent]
    exact h.unsent
  · rw [hsteps, hsent, hnext]
    exact h.next
  · rw [hsent]
    exact h.bound

/-- The events of others, and what else is in the table. -/
theorem frame (h : Ordered E p c log v) {event : Option Event}
    (hevent : ∀ e ∈ event, e.on ≠ some (p, c))
    (hchannel : v' (.channel (channelText p c)) = v (.channel (channelText p c)))
    (hnext : v' (.nextSequence (channelText p c)) = v (.nextSequence (channelText p c)))
    (hcommitment : ∀ n, v' (.commitment (channelText p c) n) = v (.commitment (channelText p c) n))
    (hpacket : ∀ n, v' (.packet (channelText p c) n) = v (.packet (channelText p c) n))
    (hopen : ∀ id, OpenAt E v id → OpenAt E v' id) :
    Ordered E p c (log ++ event.toList) v' := by
  have hsteps : channelSteps p c (log ++ event.toList) = channelSteps p c log := by
    cases event with
    | none => simp
    | some e => simp [channelSteps, Event.channelStep_of_on (hevent e rfl)]
  have hsent : sentSequences p c (log ++ event.toList) = sentSequences p c log := by
    cases event with
    | none => simp
    | some e => simp [sentSequences, Event.sequence_of_on (hevent e rfl)]
  have hpending (n : Nat) : Pending p c n (log ++ event.toList) ↔ Pending p c n log := by
    cases event with
    | none => simp
    | some e =>
      have hne : e ≠ .sent p c n ∧ e ≠ .settled p c n := by
        constructor <;> rintro rfl <;> exact hevent _ rfl rfl
      simp [pending_append_singleton, hne]
  refine h.keep hsteps hsent hchannel hnext hopen (fun n => ?_) fun n => ?_
  · rw [hpending, hcommitment]
    exact h.commitment n
  · rw [hpending, hpacket]
    exact h.packet n

/-- A step of the handshake. -/
theorem handshake (h : Ordered E p c log v) {step : Handshake} {chan : Channel}
    (hphase : Shows E.codecs.channel Channel.state (channelSteps p c log ++ [step])
      (some (E.codecs.channel.encode chan)))
    (hconnected : ∃ id, chan.connectionHops = [id] ∧ OpenAt E v' id)
    (hchannel : v' (.channel (channelText p c)) = some (E.codecs.channel.encode chan))
    (hnext : v' (.nextSequence (channelText p c)) =
      some (u64be (1 + (sentSequences p c log).length)))
    (hcommitment : ∀ n, v' (.commitment (channelText p c) n) = v (.commitment (channelText p c) n))
    (hpacket : ∀ n, v' (.packet (channelText p c) n) = v (.packet (channelText p c) n)) :
    Ordered E p c (log ++ [.channel p c step]) v' := by
  have hsent : sentSequences p c (log ++ [.channel p c step]) = sentSequences p c log := by
    simp [sentSequences, Event.sequence]
  have hsteps : channelSteps p c (log ++ [.channel p c step]) = channelSteps p c log ++ [step] := by
    simp [channelSteps, Event.channelStep]
  refine ⟨?_, fun chan' hchan' => ?_, hsent ▸ h.sequences, fun hnil => ?_, fun _ => hsent ▸ hnext,
    hsent ▸ h.bound, fun n => ?_, fun n => ?_⟩
  · rw [hsteps, hchannel]
    exact hphase
  · rw [hchannel] at hchan'
    rwa [← (holds_encode chan).unique hchan']
  · rw [hsteps] at hnil
    exact absurd hnil (List.append_ne_nil_of_right_ne_nil _ (List.cons_ne_nil _ _))
  · simpa [hcommitment, pending_append_singleton] using h.commitment n
  · simpa [hpacket, pending_append_singleton] using h.packet n

theorem sent (h : Ordered E p c log v) {chan : Channel} {raw com packet : Bytes} {n : Nat}
    (hchan : Holds E.codecs.channel (v (.channel (channelText p c))) chan)
    (hseq : v (.nextSequence (channelText p c)) = some raw) (hn : u64ofBe raw = some n)
    (hmax : n ≠ u64Max) (hkept : ∀ id, OpenAt E v id → OpenAt E v' id)
    (hv' : v' = Function.update
      (Function.update
        (Function.update v (.commitment (channelText p c) n) (some com))
        (.nextSequence (channelText p c)) (some (u64be (n + 1))))
      (.packet (channelText p c) n) (some packet)) :
    Ordered E p c (log ++ [.sent p c n]) v' := by
  have hbegun := h.phase.ne_nil hchan
  -- the sequence found is the one after the last
  have hlast : 1 + (sentSequences p c log).length = n := by
    rw [h.next hbegun] at hseq
    cases hseq
    exact Option.some.inj ((u64ofBe_u64be h.bound).symm.trans hn)
  have hsent : sentSequences p c (log ++ [.sent p c n]) = sentSequences p c log ++ [n] := by
    simp [sentSequences, Event.sequence]
  have hsteps : channelSteps p c (log ++ [.sent p c n]) = channelSteps p c log := by
    simp [channelSteps, Event.channelStep]
  have hchannel : v' (.channel (channelText p c)) = v (.channel (channelText p c)) := by
    simp [hv']
  have hbound := h.bound
  refine ⟨?_, ?_, ?_, ?_, ?_, ?_, ?_, ?_⟩
  · rw [hsteps, hchannel]
    exact h.phase
  · intro chan₁ hchan₁
    obtain ⟨id, hid, hopen⟩ := h.connected chan₁ (hchannel ▸ hchan₁)
    exact ⟨id, hid, hkept id hopen⟩
  · rw [hsent, List.length_append, List.length_singleton, List.range'_concat, ← h.sequences]
    simp [hlast]
  · intro hnil
    exact absurd (hsteps ▸ hnil) hbegun
  · intro _
    rw [hsent, List.length_append, List.length_singleton, ← Nat.add_assoc, hlast]
    simp [hv']
  · rw [hsent, List.length_append, List.length_singleton]
    omega
  · intro k
    rw [pending_append_singleton, ← h.commitment k]
    obtain rfl | hk := eq_or_ne n k
    · simp [hv']
    · simp [hv', hk, hk.symm]
  · intro k
    rw [pending_append_singleton, ← h.packet k]
    obtain rfl | hk := eq_or_ne n k
    · simp [hv']
    · simp [hv', hk, hk.symm]

theorem step (hp : '/' ∉ p.toList) (hc : '/' ∉ c.toList) (h : Ordered E p c log v)
    {event : Option Event} (heffect : Effect E event v v') :
    Ordered E p c (log ++ event.toList) v' := by
  have hkept (id : String) : OpenAt E v id → OpenAt E v' id := heffect.openAt
  have htext {p' c' : String} (hne : ¬ (p' = p ∧ c' = c)) : channelText p' c' ≠ channelText p c :=
    fun heq => hne (channelText_inj hp hc heq)
  cases heffect with
  | client => exact h.frame nofun (by simp) (by simp) (by simp) (by simp) hkept
  | connInit
  | connAck => exact h.frame (by simp [Event.on]) (by simp) (by simp) (by simp) (by simp) hkept
  | @chanInit _ p' c' id conn chan hconn hopen hfree hinit hhops =>
    by_cases hon : p' = p ∧ c' = c
    · obtain ⟨rfl, rfl⟩ := hon
      have hphase := h.phase
      rw [hfree] at hphase
      exact h.handshake (hphase.openInit hinit) ⟨id, hhops, hkept id ⟨conn, hconn, hopen⟩⟩ (by simp)
        (by simp [h.unsent hphase.eq_nil]) (by simp) (by simp)
    · have hne := htext hon
      refine h.frame ?_ ?_ ?_ ?_ ?_ hkept <;> simp [Event.on, hon, Ne.symm hne]
  | @chanAck _ p' c' chan chan' hfound hinit hopen hhops =>
    by_cases hon : p' = p ∧ c' = c
    · obtain ⟨rfl, rfl⟩ := hon
      obtain ⟨id, hid, hat⟩ := h.connected chan hfound
      exact h.handshake (h.phase.openAck hfound hinit hopen) ⟨id, hhops.trans hid, hkept id hat⟩
        (by simp) (by simp [h.next (h.phase.ne_nil hfound)]) (by simp) (by simp)
    · have hne := htext hon
      refine h.frame ?_ ?_ ?_ ?_ ?_ hkept <;> simp [Event.on, hon, Ne.symm hne]
  | @sent _ p' c' chan raw n com packet hchan hopen hseq hn hmax =>
    by_cases hon : p' = p ∧ c' = c
    · obtain ⟨rfl, rfl⟩ := hon
      exact h.sent hchan hseq hn hmax hkept rfl
    · have hne := htext hon
      refine h.frame ?_ ?_ ?_ ?_ ?_ hkept <;> simp [Event.on, hon, Ne.symm hne]
  | @settled _ p' c' n =>
    by_cases hon : p' = p ∧ c' = c
    · obtain ⟨rfl, rfl⟩ := hon
      refine h.keep (by simp [channelSteps, Event.channelStep])
        (by simp [sentSequences, Event.sequence]) (by simp) (by simp) hkept (fun k => ?_) fun k => ?_
      · rw [Option.toList_some, pending_append_singleton, ← h.commitment k]
        obtain rfl | hk := eq_or_ne n k
        · simp
        · simp [hk, hk.symm]
      · rw [Option.toList_some, pending_append_singleton, ← h.packet k]
        obtain rfl | hk := eq_or_ne n k
        · simp
        · simp [hk, hk.symm]
    · have hne := htext hon
      refine h.frame ?_ ?_ ?_ ?_ ?_ hkept <;> simp [Event.on, hon, Ne.symm hne]

end Ordered

theorem shows_connection_step {id : String} {event : Option Event}
    (h : Shows E.codecs.connectionEnd ConnectionEnd.state (connectionSteps id log)
      (v (.connection id)))
    (heffect : Effect E event v v') :
    Shows E.codecs.connectionEnd ConnectionEnd.state (connectionSteps id (log ++ event.toList))
      (v' (.connection id)) := by
  have hframe (hevent : ∀ e ∈ event, e.connectionStep id = none)
      (hv' : v' (.connection id) = v (.connection id)) : Shows E.codecs.connectionEnd
      ConnectionEnd.state (connectionSteps id (log ++ event.toList)) (v' (.connection id)) := by
    have hsteps : connectionSteps id (log ++ event.toList) = connectionSteps id log := by
      cases event with
      | none => simp
      | some e => simp [connectionSteps, hevent e rfl]
    rw [hsteps, hv']
    exact h
  cases heffect with
  | client => exact hframe nofun (by simp)
  | @connInit _ id' conn hfree hinit =>
    obtain rfl | hne := eq_or_ne id' id
    · rw [hfree] at h
      simpa [connectionSteps, Event.connectionStep] using h.openInit hinit
    · exact hframe (by simp [Event.connectionStep, hne]) (by simp [hne.symm])
  | @connAck _ id' conn conn' hfound hinit hopen =>
    obtain rfl | hne := eq_or_ne id' id
    · simpa [connectionSteps, Event.connectionStep] using h.openAck hfound hinit hopen
    · exact hframe (by simp [Event.connectionStep, hne]) (by simp [hne.symm])
  | chanInit | chanAck | sent | settled => exact hframe (by simp [Event.connectionStep]) (by simp)

/-! ## Messages -/

variable (E)

/-- The message goes through on a storage that shows `st`, and leaves it showing `st'`. -/
def Processes (msg : IbcMsg) (st st' : Store) (res : MsgResult) : Prop :=
  ∃ (σ : Type) (h : StorageObj σ) (view : σ → Store), Storing h id view ∧
    ∃ depth signer block m m' s s', view s = st ∧ view s' = st' ∧
      Comp.exec h (processMsgOn E (sm E depth) signer block (.ibc msg)) m s = some (s', .ok res, m')

variable {E} {st st' : Store} {res : MsgResult}

theorem Processes.of_spec {msg : IbcMsg} (h : Processes E msg st st' res) {P : Store → Prop}
    {Q : MsgResult → Store → Prop} (hst : P st)
    (hspec : ∀ depth block signer,
      Spec id P (processMsg E (sm E depth) block signer msg) Q Failed) : Q res st' := by
  obtain ⟨σ, obj, view, hs, depth, signer, block, m, m', s, s', rfl, rfl, hexec⟩ := h
  exact (hspec depth block signer).appMeter hs hexec hst

theorem Processes.effect {msg : IbcMsg} (h : Processes E msg st st' res) :
    Effect E (eventOf msg res.data) (tableOf st) (tableOf st') :=
  h.of_spec (P := At (tableOf st)) rfl fun depth _ _ => spec_processMsg (quiet_sm E depth) msg

theorem Processes.timeout_found {sender : AccountId} {n : Nat} {proof : Bytes} {height : Nat}
    (h : Processes E (.timeout sender p c n proof height) st st' res) :
    st[packetDataPath p c n]? ≠ none := by
  rw [packetDataPath_eq]
  refine h.of_spec (P := At (tableOf st)) (Q := fun _ _ => _ ≠ none) rfl fun depth _ _ => ?_
  refine .bind (spec_outside inferInstance) fun _ => ?_
  exact .bind (spec_timeout (quiet_sm E depth)) fun _ => .pure fun _ h => h.1

theorem Processes.acknowledgement_eq {sender : AccountId} {n : Nat} {ack proof : Bytes}
    {height : Nat} (h : Processes E (.acknowledgement sender p c n ack proof height) st st' res)
    (hcommitment : st[packetCommitmentPath p c n]? = none)
    (hpacket : st[packetDataPath p c n]? = none) : st' = st := by
  refine h.of_spec (P := fun st₁ => st₁ = st) (Q := fun _ st₁ => st₁ = st) rfl fun _ _ signer => ?_
  have hguard : Only (WritesAt fun _ => False) (ensureEq signer sender (unauthorized E signer)) :=
    inferInstance
  refine .bind ((hguard.keeps fun _ _ _ hkey _ => hkey.elim).conseq (fun _ h => h) (fun _ _ h => h)
    fun _ _ _ => trivial) fun _ => ?_
  refine .bind (Q := fun _ st₁ => st₁ = st) ?_ fun _ => .pure fun _ h => h
  refine .bind (Q := fun _ st₁ => st₁ = st) (.remove ?_ fun _ _ _ => trivial) fun _ =>
    .remove ?_ fun _ _ _ => trivial
  · rintro _ rfl
    exact OrdMap.update_eq_self hcommitment
  · rintro _ rfl
    exact OrdMap.update_eq_self hpacket

/-! ## Runs -/

variable (E)

/-- A storage after messages with the given events. A message that fails is taken
back with its transaction; what else happens is not under `ibc/`. -/
inductive Run : List Event → Store → Prop
  | start (st : Store) (h : ∀ x, tableOf st x = none) : Run [] st
  | message {log : List Event} {msg : IbcMsg} {st st' : Store} {res : MsgResult} (h : Run log st)
      (hmsg : Processes E msg st st' res) : Run (log ++ (eventOf msg res.data).toList) st'
  | elsewhere {log : List Event} {st st' : Store} (h : Run log st)
      (hsame : tableOf st' = tableOf st) : Run log st'

variable {E}

theorem Run.shows_connection {log : List Event} {st : Store} (h : Run E log st) (id : String) :
    Shows E.codecs.connectionEnd ConnectionEnd.state (connectionSteps id log)
      (tableOf st (.connection id)) := by
  induction h with
  | start st h =>
    rw [h]
    exact shows_nil
  | message _ hmsg ih => exact shows_connection_step ih hmsg.effect
  | elsewhere _ hsame ih => exact hsame ▸ ih

theorem ordered_nil (h : ∀ x, v x = none) : Ordered E p c [] v where
  phase := h _ ▸ shows_nil
  connected chan hchan := by
    obtain ⟨raw, hraw, -⟩ := hchan
    exact absurd ((h _).symm.trans hraw) (Option.some_ne_none raw).symm
  sequences := rfl
  unsent _ := rfl
  next hbegun := absurd rfl hbegun
  bound := show 1 ≤ u64Max by decide
  commitment n := by simp [h, Pending]
  packet n := by simp [h, Pending]

theorem Run.ordered {log : List Event} {st : Store} (h : Run E log st) (hp : '/' ∉ p.toList)
    (hc : '/' ∉ c.toList) : Ordered E p c log (tableOf st) := by
  induction h with
  | start st h => exact ordered_nil h
  | message _ hmsg ih => exact ih.step hp hc hmsg.effect
  | elsewhere _ hsame ih => exact hsame ▸ ih

variable (E)

/-- What is stored for a channel, and what its packets can still be used for. -/
structure Disciplined (p c : String) (log : List Event) (st : Store) : Prop where
  /-- The channel is absent, initialised once, or initialised and opened once. -/
  phase : Shows E.codecs.channel Channel.state (channelSteps p c log) st[channelPath p c]?
  connected : ∀ chan, Holds E.codecs.channel st[channelPath p c]? chan →
    chan.state = channelStateOpen → ∃ id conn, chan.connectionHops = [id] ∧
      Holds E.codecs.connectionEnd st[connectionPath id]? conn ∧ conn.state = connectionStateOpen
  nextSequence : channelSteps p c log ≠ [] →
    st[nextSequenceSendPath p c]?.bind u64ofBe = some (1 + (sentSequences p c log).length)
  once : (sentSequences p c log).Nodup
  commitment : ∀ n, st[packetCommitmentPath p c n]? ≠ none ↔ Pending p c n log
  packet : ∀ n, st[packetDataPath p c n]? ≠ none ↔ Pending p c n log
  timeout : ∀ n, ¬ Pending p c n log → ∀ sender proof height st' res,
    ¬ Processes E (.timeout sender p c n proof height) st st' res
  acknowledgement : ∀ n, ¬ Pending p c n log → ∀ sender ack proof height st' res,
    Processes E (.acknowledgement sender p c n ack proof height) st st' res → st' = st

/-- **Handshakes and sequences.** After every run, a connection is absent, initialised
once, or initialised and opened once, as stored; and so is a channel whose identifiers have
no slash, with the rest of what is stored for it. -/
theorem run_disciplined {log : List Event} {st : Store} (h : Run E log st) :
    (∀ id, Shows E.codecs.connectionEnd ConnectionEnd.state (connectionSteps id log)
      st[connectionPath id]?) ∧
    ∀ p c, '/' ∉ p.toList → '/' ∉ c.toList → Disciplined E p c log st := by
  have hat {key : Bytes} {x : Place} (hkey : key = x.key) : st[key]? = tableOf st x := hkey ▸ rfl
  refine ⟨fun id => ?_, fun p c hp hc => ?_⟩
  · rw [hat (connectionPath_eq id)]
    exact h.shows_connection id
  have hordered := h.ordered hp hc
  have hcommitment (n : Nat) : st[packetCommitmentPath p c n]? ≠ none ↔ Pending p c n log := by
    rw [hat (packetCommitmentPath_eq p c n)]
    exact hordered.commitment n
  have hpacket (n : Nat) : st[packetDataPath p c n]? ≠ none ↔ Pending p c n log := by
    rw [hat (packetDataPath_eq p c n)]
    exact hordered.packet n
  refine ⟨?_, ?_, ?_, ?_, hcommitment, hpacket, ?_, ?_⟩
  · rw [hat (channelPath_eq p c)]
    exact hordered.phase
  · intro chan hchan _
    rw [hat (channelPath_eq p c)] at hchan
    obtain ⟨id, hhops, conn, hconn, hopen⟩ := hordered.connected chan hchan
    rw [← hat (connectionPath_eq id)] at hconn
    exact ⟨id, conn, hhops, hconn, hopen⟩
  · intro hbegun
    rw [hat (nextSequenceSendPath_eq p c), hordered.next hbegun]
    exact u64ofBe_u64be hordered.bound
  · rw [hordered.sequences]
    exact List.nodup_range' _ Nat.one_pos
  · intro n hn sender proof height st' res hmsg
    exact hn ((hpacket n).mp hmsg.timeout_found)
  · intro n hn sender ack proof height st' res hmsg
    exact hmsg.acknowledgement_eq (not_not.mp (mt (hcommitment n).mp hn))
      (not_not.mp (mt (hpacket n).mp hn))

/-! ### A run -/

/-- Messages that go through one after the other on a writer. -/
def processAll (depth : Nat) (signer : AccountId) (block : BlockInfo) :
    List IbcMsg → List Event → Writer → Option (List Event × Writer)
  | [], log, s => some (log, s)
  | msg :: rest, log, s =>
    match Comp.exec (writerObj .memory) (processMsgOn E (sm E depth) signer block (.ibc msg))
        .infinite s with
    | some (s', .ok res, _) =>
      processAll depth signer block rest (log ++ (eventOf msg res.data).toList) s'
    | _ => none

theorem run_processAll {depth : Nat} {signer : AccountId} {block : BlockInfo} :
    ∀ {msgs : List IbcMsg} {log log' : List Event} {s s' : Writer}, Run E log s.view →
      processAll E depth signer block msgs log s = some (log', s') → Run E log' s'.view
  | [], log, log', s, s', hrun, h => by
    cases h
    exact hrun
  | msg :: rest, log, log', s, s', hrun, h => by
    rw [processAll] at h
    split at h
    · next s₁ res m' hexec =>
        refine run_processAll (hrun.message ?_) h
        exact ⟨Writer, writerObj .memory, Writer.view, storing_writerObj .memory, depth, signer,
          block, .infinite, m', s, s₁, rfl, rfl, hexec⟩
    · cases h

def transferor : AccountId := ⟨List.replicate 20 8, by decide⟩

def initConnection : ConnectionEnd :=
  ⟨"08-wasm-0", [("1", ["ORDER_ORDERED", "ORDER_UNORDERED"])], connectionStateInit,
    some ⟨"07-tendermint-4", "", some (str "ibc")⟩, 0⟩

def ackedConnection : ConnectionEnd :=
  { initConnection with
    state := connectionStateOpen
    counterparty := some ⟨"07-tendermint-4", "connection-9", some (str "ibc")⟩ }

def ackedChannel : Channel :=
  { freshChannel with state := channelStateOpen, counterparty := some ⟨"transfer", "channel-7"⟩ }

/-- What the two transfers below send. -/
def transferred : FungibleTokenPacketData :=
  ⟨"4", "ulayer", (Externals.ofValues {}).display transferor⟩

def transferPacket (n : Nat) : Packet :=
  buildPacket ackedChannel "transfer" "channel-0" n
    (str (packetText ⟨"ulayer", 4⟩ "cosmos1x" transferred.sender)) 100 0

def runExternals : Externals :=
  .ofValues
    { connections := [initConnection, ackedConnection]
      channels := [freshChannel, ackedChannel]
      amounts := List.range 11
      packets := [transferPacket 1, transferPacket 2]
      packetData := [((transferPacket 1).data, transferred)] }

/-- The key of a table entry in a module's namespace. -/
def entryKey (ns name : Bytes) (parts : List Bytes) (last : Bytes) : Bytes :=
  lengthPrefixed ns ++ (((name :: parts).map lengthPrefixed).flatten ++ last)

/-- The one balance there is. -/
def fundedStore : Store :=
  OrdMap.update ∅ (entryKey namespaceBank (str "balances") [transferor.bytes] (str "ulayer"))
    (some (textJson "10"))

def runMessages : List IbcMsg :=
  [.connectionOpenInit transferor "08-wasm-0" "connection-0" "07-tendermint-4" "" "ibc",
    .connectionOpenAck transferor "connection-0" "connection-9" [] 0,
    .channelOpenInit transferor "transfer" "channel-0" "connection-0" "transfer" "" "unordered"
      "ics20-1",
    .channelOpenAck transferor "transfer" "channel-0" "channel-7" "ics20-1" [] 0,
    .transfer transferor "transfer" "channel-0" ⟨"ulayer", 4⟩ "cosmos1x" 100 0,
    .acknowledgement transferor "transfer" "channel-0" 1 [] [] 0,
    .transfer transferor "transfer" "channel-0" ⟨"ulayer", 4⟩ "cosmos1x" 100 0,
    .timeout transferor "transfer" "channel-0" 2 [] 0]

def runLog : List Event :=
  [.connection "connection-0" .openInit, .connection "connection-0" .openAck,
    .channel "transfer" "channel-0" .openInit, .channel "transfer" "channel-0" .openAck,
    .sent "transfer" "channel-0" 1, .settled "transfer" "channel-0" 1,
    .sent "transfer" "channel-0" 2, .settled "transfer" "channel-0" 2]

theorem exists_run : ∃ st, Run runExternals runLog st := by
  have hlog : (processAll runExternals 2 transferor ⟨1, 0, "layer"⟩ runMessages []
      ⟨fundedStore, ∅, .new []⟩).map Prod.fst = some runLog := by decide +kernel
  obtain ⟨⟨log, s⟩, hall, rfl⟩ := Option.map_eq_some_iff.mp hlog
  refine ⟨s.view, run_processAll _ (.start _ fun x => ?_) hall⟩
  have hview : Writer.view ⟨fundedStore, ∅, .new []⟩ = fundedStore := rfl
  rw [hview, fundedStore, entryKey,
    tableOf_update_outside (outside_lengthPrefixed (by decide) _)]
  exact Std.ExtTreeMap.getElem?_empty

/-- The third transfer will get sequence 3, and neither packet can be timed out again. -/
theorem run_disciplined_sample : ∃ st, Run runExternals runLog st ∧
    st[nextSequenceSendPath "transfer" "channel-0"]?.bind u64ofBe = some 3 ∧
    ∀ sender proof height st' res,
      ¬ Processes runExternals (.timeout sender "transfer" "channel-0" 2 proof height) st st'
        res := by
  obtain ⟨st, hrun⟩ := exists_run
  have h := (run_disciplined runExternals hrun).2 "transfer" "channel-0" (by decide) (by decide)
  refine ⟨st, hrun, h.nextSequence (by decide), h.timeout 2 ?_⟩
  have hlast : runLog = runLog.dropLast ++ [.settled "transfer" "channel-0" 2] := rfl
  rw [hlast, pending_append_singleton]
  rintro (hsent | ⟨-, hne⟩)
  · cases hsent
  · exact hne rfl

end Ibc

end LayerSdk
