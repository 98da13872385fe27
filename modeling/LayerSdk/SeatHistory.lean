import LayerSdk.SeatRegistry

/-!
# Seat attestation: who held a key

What was attested is recorded beside the contract (`Attestation`): the record,
and when it ended. The contract itself keeps the active record and, for the
rotated ones, a history entry. An entry has the seat's number and two of the
four keys; whose it was is read off the seat's active record.

So an attestation can be found again as long as the seat stays with its member
and, for the keys an entry does not have, as long as it is not rotated
(`keys_attributable`). After a revocation nothing of it is left: two runs that
attested different keys end in the same state (`revoked_keys_lost`).
-/

namespace LayerSdk.Seats

open KeyIndex

/-! ## What the contract can tell -/

inductive KeyRole where
  | hot
  | bls
  | mayo
  | npub
deriving DecidableEq, Repr

def SeatRecord.key (r : SeatRecord) : KeyRole → Option Bytes
  | .hot => some r.hotEd25519
  | .bls => some r.blsSharePubkey
  | .mayo => r.mayoPubkey
  | .npub => some r.npub

def KeyHistoryEntry.key (e : KeyHistoryEntry) : KeyRole → Option Bytes
  | .hot => some e.hotEd25519
  | .npub => some e.npub
  | .bls => none
  | .mayo => none

/-- An entry of the history has a key in this role. -/
def KeyRole.kept : KeyRole → Bool
  | .hot => true
  | .npub => true
  | .bls => false
  | .mayo => false

/-- The query `GetKeyHistory`. -/
def getKeyHistory (s : State) (seatIndex : UInt8) : List KeyHistoryEntry :=
  (s.keyHistory.toList.filter fun x => x.1.1 = seatIndex).map Prod.snd

theorem mem_getKeyHistory {s : State} {i : UInt8} {n : Nat} {e : KeyHistoryEntry}
    (h : s.keyHistory[((i, n) : SeatKey)]? = some e) : e ∈ getKeyHistory s i := by
  refine List.mem_map.mpr ⟨((i, n), e), List.mem_filter.mpr ⟨?_, decide_eq_true rfl⟩, rfl⟩
  exact Std.ExtTreeMap.mem_toList_iff_getElem?_eq_some.mpr h

/-- Member and validity interval of a key of a seat, from the active record and the history. -/
def attributions (s : State) (i : UInt8) (role : KeyRole) (key : Bytes) :
    List (String × Nat × Option Nat) :=
  match s.seats[i]? with
  | none => []
  | some r =>
    (if r.key role = some key then [(r.memberAddr, r.attestedAt, none)] else []) ++
      ((getKeyHistory s i).filter fun e => e.key role = some key).map fun e =>
        (r.memberAddr, e.attestedAt, some e.supersededAt)

theorem mem_attributions_active {s : State} {i : UInt8} {r : SeatRecord} {role : KeyRole}
    {key : Bytes} (hseat : s.seats[i]? = some r) (hkey : r.key role = some key) :
    (r.memberAddr, r.attestedAt, none) ∈ attributions s i role key := by
  simp [attributions, hseat, hkey]

theorem mem_attributions_retired {s : State} {i : UInt8} {r : SeatRecord} {n : Nat}
    {e : KeyHistoryEntry} {role : KeyRole} {key : Bytes} (hseat : s.seats[i]? = some r)
    (hentry : s.keyHistory[((i, n) : SeatKey)]? = some e) (hkey : e.key role = some key) :
    (r.memberAddr, e.attestedAt, some e.supersededAt) ∈ attributions s i role key := by
  simp only [attributions, hseat]
  refine List.mem_append_right _ (List.mem_map.mpr ⟨e, ?_, rfl⟩)
  exact List.mem_filter.mpr ⟨mem_getKeyHistory hentry, decide_eq_true hkey⟩

/-! ## What was attested -/

/-- An accepted attestation, and the time at which it ended. -/
structure Attestation where
  record : SeatRecord
  ended : Option Nat
deriving DecidableEq, Repr

/-- What is in force for a seat ends. -/
def endSeat (i : UInt8) (now : Nat) (log : List Attestation) : List Attestation :=
  log.map fun a =>
    if a.record.seatIndex = i ∧ a.ended = none then { a with ended := some now } else a

/-- What an accepted message attests and ends. -/
def noteMsg (env : Env) (log : List Attestation) : ExecuteMsg → List Attestation
  | .updateAttestation i hot bls mayo npub =>
    endSeat i env.time log ++ [⟨⟨i, env.sender, hot, bls, mayo, npub, env.time⟩, none⟩]
  | .revokeAttestation i => endSeat i env.time log
  | .pruneSeat i => endSeat i env.time log
  | .updateConfig _ _ => log
  | .submitEvidence _ _ _ _ _ _ => log

def Call.accepted (call : Call) (s : State) : Bool := (execute call.env s call.msg).isOk

/-- The attestations of a run, from a state on. -/
def attested (log : List Attestation) : State → List Call → List Attestation
  | _, [] => log
  | s, call :: calls =>
    attested (if call.accepted s then noteMsg call.env log call.msg else log) (apply s call) calls

/-- The call neither takes the seat from its member nor, for a role that the history does not
keep, rotates its keys. -/
def Spares (i : UInt8) (role : KeyRole) (s : State) (call : Call) : Prop :=
  call.accepted s = true → call.msg ≠ .revokeAttestation i ∧ call.msg ≠ .pruneSeat i ∧
    (role.kept = false → ∀ hot bls mayo npub, call.msg = .updateAttestation i hot bls mayo npub →
      s.seats[i]? = none)

/-! ## The invariant -/

/-- The attestation of a seat is its active record, or an entry of its history has what it
keeps of it and the seat is still with the member. -/
def Found (i : UInt8) (role : KeyRole) (s : State) (a : Attestation) : Prop :=
  match a.ended with
  | none => s.seats[i]? = some a.record
  | some ended => role.kept = true ∧
      ∃ r n, s.seats[i]? = some r ∧ r.memberAddr = a.record.memberAddr ∧
        s.keyHistory[((i, n) : SeatKey)]? =
          some ⟨n, a.record.hotEd25519, a.record.npub, a.record.attestedAt, ended⟩

def AllFound (i : UInt8) (role : KeyRole) (s : State) (log : List Attestation) : Prop :=
  ∀ a ∈ log, a.record.seatIndex = i → Found i role s a

variable {i : UInt8} {role : KeyRole} {s s' : State} {a : Attestation} {r : SeatRecord}
  {log : List Attestation} {now : Nat}

theorem Found.attributed {key : Bytes} (h : Found i role s a)
    (hkey : a.record.key role = some key) :
    (a.record.memberAddr, a.record.attestedAt, a.ended) ∈ attributions s i role key := by
  unfold Found at h
  cases hended : a.ended with
  | none =>
    rw [hended] at h
    exact mem_attributions_active h hkey
  | some ended =>
    rw [hended] at h
    obtain ⟨hkept, r, n, hseat, hmember, hentry⟩ := h
    rw [← hmember]
    refine mem_attributions_retired hseat hentry ?_
    cases role with
    | hot | npub => exact hkey
    | bls | mayo => cases hkept

/-- What is found stays found while the history and the seat's member stay, and, for the
active record, the seat as a whole. -/
theorem Found.mono (h : Found i role s a)
    (hopen : a.ended = none → s'.seats[i]? = s.seats[i]?)
    (hseat : ∀ r, s.seats[i]? = some r →
      ∃ r', s'.seats[i]? = some r' ∧ r'.memberAddr = r.memberAddr)
    (hhistory : ∀ (key : SeatKey) (e : KeyHistoryEntry), s.keyHistory[key]? = some e →
      s'.keyHistory[key]? = some e) : Found i role s' a := by
  unfold Found at h ⊢
  cases hend : a.ended with
  | none =>
    rw [hend] at h
    exact (hopen hend).trans h
  | some ended =>
    rw [hend] at h
    obtain ⟨hkept, r, n, hr, hm, hentry⟩ := h
    obtain ⟨r', hr', hmember⟩ := hseat r hr
    exact ⟨hkept, r', n, hr', hmember.trans hm, hhistory _ _ hentry⟩

theorem mem_endSeat (h : a ∈ endSeat i now log) :
    a ∈ log ∧ (a.record.seatIndex = i → a.ended ≠ none) ∨
      ∃ b ∈ log, b.record.seatIndex = i ∧ b.ended = none ∧ a = { b with ended := some now } := by
  obtain ⟨b, hb, rfl⟩ := List.mem_map.mp h
  by_cases hopen : b.record.seatIndex = i ∧ b.ended = none
  · rw [if_pos hopen]
    exact .inr ⟨b, hb, hopen.1, hopen.2, rfl⟩
  · rw [if_neg hopen]
    exact .inl ⟨hb, fun hi hnone => hopen ⟨hi, hnone⟩⟩

/-- Ending another seat is nothing to this one. -/
theorem AllFound.endSeat_ne {j : UInt8} (h : AllFound i role s log) (hne : j ≠ i) :
    AllFound i role s (endSeat j now log) := by
  intro a ha hi
  rcases mem_endSeat ha with ⟨ha, -⟩ | ⟨b, hb, hj, -, rfl⟩
  · exact h a ha hi
  · exact absurd (hj.symm.trans hi) hne

theorem AllFound.same (h : AllFound i role s log) (hseat : s'.seats[i]? = s.seats[i]?)
    (hhistory : ∀ (key : SeatKey) (e : KeyHistoryEntry), s.keyHistory[key]? = some e →
      s'.keyHistory[key]? = some e) : AllFound i role s' log :=
  fun a ha hi => (h a ha hi).mono (fun _ => hseat) (fun r hr => ⟨r, hseat.trans hr, rfl⟩) hhistory

theorem noteMsg_updateMsg {env : Env} (log : List Attestation)
    (hsender : r.memberAddr = env.sender) (htime : r.attestedAt = env.time) :
    noteMsg env log r.updateMsg = endSeat r.seatIndex env.time log ++ [⟨r, none⟩] := by
  rw [SeatRecord.updateMsg, noteMsg, ← hsender, ← htime]

/-- Step: an attestation. -/
theorem AllFound.update (h : AllFound i role s log)
    (hseats : s'.seats = s.seats.insert r.seatIndex r)
    (hhistory : ∀ (key : SeatKey) (e : KeyHistoryEntry), s.keyHistory[key]? = some e →
      s'.keyHistory[key]? = some e)
    (hold : ∀ old, r.seatIndex = i → s.seats[i]? = some old → role.kept = true ∧
      old.memberAddr = r.memberAddr ∧ ∃ n, s'.keyHistory[((i, n) : SeatKey)]? =
        some ⟨n, old.hotEd25519, old.npub, old.attestedAt, now⟩) :
    AllFound i role s' (endSeat r.seatIndex now log ++ [⟨r, none⟩]) := by
  by_cases hr : r.seatIndex = i
  · have hseat' : s'.seats[i]? = some r := by
      rw [hseats, hr, Std.ExtTreeMap.getElem?_insert_self]
    intro a ha hi
    rcases List.mem_append.mp ha with ha | ha
    · rcases mem_endSeat ha with ⟨ha, hended⟩ | ⟨b, hb, hbi, hopen, rfl⟩
      · -- ended before: the entry is there already
        exact (h a ha hi).mono (fun hopen => absurd hopen (hended (hi.trans hr.symm)))
          (fun old hseat => ⟨r, hseat', (hold old hr hseat).2.1.symm⟩) hhistory
      · -- ended now: it was the active record
        have hseat : s.seats[i]? = some b.record := by
          have hfound := h b hb hi
          rwa [Found, hopen] at hfound
        obtain ⟨hkept, hmember, n, hentry⟩ := hold b.record hr hseat
        exact ⟨hkept, r, n, hseat', hmember.symm, hentry⟩
    · rw [List.mem_singleton.mp ha]
      exact hseat'
  · have hseat' : s'.seats[i]? = s.seats[i]? := by
      rw [hseats, OrdMap.getElem?_insert_of_ne hr]
    intro a ha hi
    rcases List.mem_append.mp ha with ha | ha
    · exact ((h.endSeat_ne hr).same hseat' hhistory) a ha hi
    · rw [List.mem_singleton.mp ha] at hi
      exact absurd hi hr

/-- Step: another seat is given up. -/
theorem AllFound.remove {j : UInt8} (h : AllFound i role s log) (hreg : Registry s)
    (hseat : s.seats[j]? = some r) (hne : j ≠ i) :
    AllFound i role (removeSeat s r) (endSeat j now log) := by
  obtain rfl := hreg.index j r hseat
  exact (h.endSeat_ne hne).same (OrdMap.getElem?_erase_of_ne hne) fun _ _ he => he

/-- Step. -/
theorem AllFound.change {env : Env} {msg : ExecuteMsg} (h : AllFound i role s log)
    (hreg : Registry s) (hc : Change env s msg s') (hrevoke : msg ≠ .revokeAttestation i)
    (hprune : msg ≠ .pruneSeat i) (hrotate : role.kept = false → ∀ hot bls mayo npub,
      msg = .updateAttestation i hot bls mayo npub → s.seats[i]? = none) :
    AllFound i role s' (noteMsg env log msg) := by
  have hhistory : ∀ (key : SeatKey) (e : KeyHistoryEntry), s.keyHistory[key]? = some e →
      s'.keyHistory[key]? = some e := fun key e he => hc.history hreg he
  cases hc with
  | claim r hseat hmember hfree hsender htime =>
    rw [noteMsg_updateMsg log hsender htime]
    refine h.update rfl hhistory fun old hr hold => ?_
    rw [← hr, hseat] at hold
    cases hold
  | rotate old r retired hseat hmember hfree hretired hsender htime =>
    rw [noteMsg_updateMsg log hsender htime]
    obtain rfl := retireKeys_eq_ok hretired
    refine h.update rfl hhistory fun old' hr hold => ?_
    subst hr
    obtain rfl := Option.some.inj (hseat.symm.trans hold)
    have hkept : role.kept = true := by
      by_contra hnot
      have hnone := hrotate (by simpa using hnot) _ _ _ _ rfl
      rw [hseat] at hnone
      cases hnone
    exact ⟨hkept, hmember, _, Std.ExtTreeMap.getElem?_insert_self⟩
  | revoke j r hseat => exact h.remove hreg hseat fun hj => hrevoke (hj ▸ rfl)
  | prune j r hseat => exact h.remove hreg hseat fun hj => hprune (hj ▸ rfl)
  | config | evidence => exact h.same rfl hhistory

/-- Run. -/
theorem AllFound.attested : ∀ {calls : List Call} {s : State}
    {log : List Attestation}, AllFound i role s log → Registry s →
    (∀ done call later, calls = done ++ call :: later → Spares i role (run s done) call) →
    AllFound i role (run s calls) (attested log s calls)
  | [], _, _, h, _, _ => h
  | call :: calls, s, log, h, hreg, hspares => by
    have hrest : ∀ done call' later, calls = done ++ call' :: later →
        Spares i role (run (apply s call) done) call' := fun done call' later heq =>
      hspares (call :: done) call' later (by rw [heq, List.cons_append])
    have hspare := hspares [] call calls rfl
    rw [Seats.attested]
    cases hexec : execute call.env s call.msg with
    | error e =>
      have happly : apply s call = s := by rw [apply, hexec]
      have hno : call.accepted s = false := by rw [Call.accepted, hexec]; rfl
      rw [hno, if_neg Bool.false_ne_true]
      exact AllFound.attested (happly.symm ▸ h) (happly.symm ▸ hreg) hrest
    | ok res =>
      have happly : apply s call = res.1 := by rw [apply, hexec]
      have hyes : call.accepted s = true := by rw [Call.accepted, hexec]; rfl
      have hc : Change call.env s call.msg (apply s call) := by
        rw [happly]
        exact change_of_execute hexec
      obtain ⟨hrevoke, hprune, hrotate⟩ := hspare hyes
      rw [hyes, if_pos rfl]
      exact AllFound.attested (h.change hreg hc hrevoke hprune hrotate) (hreg.change hc) hrest

/-- **Attribution.** In a run in which a seat is not taken from its member and, for the roles
that the history does not keep, not rotated, every key ever attested for the seat is resolved
to the member who attested it and to its validity interval. -/
theorem keys_attributable {api : Api} {msg : InstantiateMsg} {s₀ : State} {resp : Response}
    (hinit : instantiate api msg = .ok (s₀, resp)) (i : UInt8) (role : KeyRole)
    (calls : List Call)
    (hspares : ∀ done call later, calls = done ++ call :: later → Spares i role (run s₀ done) call)
    (a : Attestation) (ha : a ∈ attested [] s₀ calls) (hi : a.record.seatIndex = i) (key : Bytes)
    (hkey : a.record.key role = some key) :
    (a.record.memberAddr, a.record.attestedAt, a.ended) ∈
      attributions (run s₀ calls) i role key := by
  have hstart : AllFound i role s₀ [] := fun _ ha => by cases ha
  exact ((hstart.attested (registry_of_instantiate hinit) hspares) a ha hi).attributed hkey

/-! ### A rotation and a revocation -/

/-- `ada` claims seat 0 and rotates its keys. -/
def rotatedCalls : List Call := sampleCalls.take 2

theorem spares_rotatedCalls (done : List Call) (call : Call) (later : List Call)
    (h : rotatedCalls = done ++ call :: later) : Spares 0 .hot (run sampleState done) call := by
  have hmem : call ∈ rotatedCalls := by simp [h]
  simp only [rotatedCalls, sampleCalls, List.take_succ_cons, List.take_zero, List.mem_cons,
    List.not_mem_nil, or_false] at hmem
  rcases hmem with rfl | rfl <;> exact fun _ => ⟨nofun, nofun, nofun⟩

/-- The first hot key is found in the history. -/
theorem keys_attributable_rotated :
    ("ada", 1000, some 1000) ∈ attributions (run sampleState rotatedCalls) 0 .hot [1] :=
  keys_attributable instantiate_sampleState 0 .hot rotatedCalls spares_rotatedCalls
    ⟨⟨0, "ada", [1], [2], some [3], [4], 1000⟩, some 1000⟩ (by decide +kernel) rfl [1] rfl

/-- `ada` claims seat 0 with a BLS key and revokes the claim. -/
def revokedCalls (bls : Bytes) : List Call :=
  [⟨sampleEnv "ada", .updateAttestation 0 [1] bls none [4]⟩,
    ⟨sampleEnv "ada", .revokeAttestation 0⟩]

/-- Afterwards the state is the same for two keys, so nothing in it tells whose either was. -/
theorem revoked_keys_lost :
    run sampleState (revokedCalls [2]) = run sampleState (revokedCalls [9]) ∧
      (∃ a ∈ attested [] sampleState (revokedCalls [2]), a.record.key .bls = some [2]) ∧
      ∀ a ∈ attested [] sampleState (revokedCalls [9]), a.record.key .bls ≠ some [2] := by
  refine ⟨rfl, ?_, ?_⟩ <;> decide +kernel

end LayerSdk.Seats
