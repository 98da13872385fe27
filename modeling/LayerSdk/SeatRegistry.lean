import LayerSdk.Codec
import LayerSdk.KeyIndex

/-!
# Seat attestation: the registry

The contract that binds a consensus seat to a cw4 member and to the seat's
four keys. Each binding is kept twice, in the seat record and in an index
from the member or the key back to the seat, and every message updates both.

A message is a function from a state to a failure or a new state; the group
contract it asks for weights is an oracle that may answer anything, and
differently each time. What an accepted message can do is said once
(`Change`), and the invariant of the registry is read off that: the five
indexes are instances of `KeyIndex.Indexes`.
-/

namespace LayerSdk.Seats

open Std KeyIndex

/-! ## State -/

structure Config where
  cw4GroupAddr : String
  daoCoreAddr : String
deriving DecidableEq, Repr

structure SeatRecord where
  seatIndex : UInt8
  memberAddr : String
  hotEd25519 : Bytes
  blsSharePubkey : Bytes
  mayoPubkey : Option Bytes
  npub : Bytes
  attestedAt : Nat
deriving DecidableEq, Repr

structure KeyHistoryEntry where
  seq : Nat
  hotEd25519 : Bytes
  npub : Bytes
  attestedAt : Nat
  supersededAt : Nat
deriving DecidableEq, Repr

structure EvidenceRecord where
  seatIndex : UInt8
  memberAddr : String
  view : Nat
  msgA : Bytes
  sigA : Bytes
  msgB : Bytes
  sigB : Bytes
  verified : Bool
  submittedBy : String
  submittedAt : Nat
deriving DecidableEq, Repr

/-- The key `(u8, u64)` of a history entry or an evidence record. -/
abbrev SeatKey := UInt8 × Nat

instance : Ord SeatKey := lexOrd

instance : Std.TransOrd SeatKey := inferInstanceAs (@Std.TransOrd (UInt8 × Nat) lexOrd)

instance : Std.LawfulEqOrd SeatKey := inferInstanceAs (@Std.LawfulEqOrd (UInt8 × Nat) lexOrd)

/-- The contract's storage, one field per namespace. -/
structure State where
  config : Config
  seats : ExtTreeMap UInt8 SeatRecord
  memberSeat : ExtTreeMap String UInt8
  hotKeyOwner : ExtTreeMap Bytes UInt8
  npubOwner : ExtTreeMap Bytes UInt8
  blsKeyOwner : ExtTreeMap Bytes UInt8
  mayoKeyOwner : ExtTreeMap Bytes UInt8
  keyHistorySeq : ExtTreeMap UInt8 Nat
  keyHistory : ExtTreeMap SeatKey KeyHistoryEntry
  evidence : ExtTreeMap SeatKey EvidenceRecord

/-! ## Errors and messages -/

inductive ContractError where
  | std (e : StdError)
  | payment
  | unauthorized
  | notMember
  | seatBoundToOtherMember (seatIndex : UInt8)
  | memberAlreadyBound (seatIndex : UInt8)
  | seatNotFound (seatIndex : UInt8)
  | memberStillActive (seatIndex : UInt8)
  | duplicateEvidence (seatIndex : UInt8) (view : Nat)
  | notEquivocating
  | keyInUse (seatIndex : UInt8)
  | emptyKey
deriving DecidableEq, Repr

/-- A call ends in an error of the contract, or in a trap. -/
inductive Failure where
  | error (e : ContractError)
  | panic
deriving DecidableEq, Repr

inductive ExecuteMsg where
  | updateAttestation (seatIndex : UInt8) (hotEd25519 blsSharePubkey : Bytes)
      (mayoPubkey : Option Bytes) (npub : Bytes)
  | revokeAttestation (seatIndex : UInt8)
  | pruneSeat (seatIndex : UInt8)
  | updateConfig (cw4GroupAddr daoCoreAddr : Option String)
  | submitEvidence (seatIndex : UInt8) (view : Nat) (msgA sigA msgB sigB : Bytes)
deriving DecidableEq, Repr

/-- The attributes of a response. -/
abbrev Response := List (String × String)

/-- The host functions the contract calls. -/
structure Api where
  addrValidate : String → Except StdError String
  hashToG1 : Bytes → Bytes → Option Bytes
  pairingEquality : Bytes → Bytes → Bytes → Bytes → Option Bool
  g2Generator : Bytes

/-- The answers of other contracts while one message is processed. -/
structure Querier where
  member : String → String → Except StdError (Option Nat)
  listMembers : String → Option String → Nat → Except StdError (List (String × Nat))

abbrev SeatM := Except Failure

def fail {α : Type} (e : ContractError) : SeatM α := .error (.error e)

/-- `?` on a `StdResult`. -/
def ofStd {α : Type} : Except StdError α → SeatM α
  | .ok a => .ok a
  | .error e => fail (.std e)

/-- `ensure!`. -/
def ensure (c : Prop) [Decidable c] (e : ContractError) : SeatM Unit := if c then .ok () else fail e

/-! ## Membership -/

def listMembersMaxPages : Nat := 16
def listMembersPageLimit : Nat := 30

/-- The scan when the group does not answer a `member` query. -/
def scanMembers (querier : Querier) (group addr : String) :
    Nat → Option String → Except StdError Nat
  | 0, _ => .ok 0
  | pages + 1, startAfter => do
    let members ← querier.listMembers group startAfter listMembersPageLimit
    if members = [] then .ok 0
    else
      match members.find? fun m => m.1 = addr with
      | some m => .ok m.2
      | none =>
        if members.length < listMembersPageLimit then .ok 0
        else scanMembers querier group addr pages (members.getLast?.map Prod.fst)

def memberWeight (querier : Querier) (config : Config) (addr : String) : Except StdError Nat :=
  match querier.member config.cw4GroupAddr addr with
  | .ok weight => .ok (weight.getD 0)
  | .error _ => scanMembers querier config.cw4GroupAddr addr listMembersMaxPages none

/-! ## Entry points -/

structure InstantiateMsg where
  cw4GroupAddr : String
  daoCoreAddr : String

def instantiate (api : Api) (msg : InstantiateMsg) : SeatM (State × Response) := do
  let cw4GroupAddr ← ofStd (api.addrValidate msg.cw4GroupAddr)
  let daoCoreAddr ← ofStd (api.addrValidate msg.daoCoreAddr)
  .ok (⟨⟨cw4GroupAddr, daoCoreAddr⟩, ∅, ∅, ∅, ∅, ∅, ∅, ∅, ∅, ∅⟩,
    [("action", "instantiate"), ("cw4_group_addr", cw4GroupAddr), ("dao_core_addr", daoCoreAddr)])

def ensureKeyFree (index : ExtTreeMap Bytes UInt8) (key : Bytes) (seatIndex : UInt8) :
    SeatM Unit :=
  match index[key]? with
  | some owner => if owner ≠ seatIndex then fail (.keyInUse owner) else .ok ()
  | none => .ok ()

def removeKeyIndexes (s : State) (record : SeatRecord) : State :=
  { s with
    hotKeyOwner := s.hotKeyOwner.erase record.hotEd25519
    blsKeyOwner := s.blsKeyOwner.erase record.blsSharePubkey
    npubOwner := s.npubOwner.erase record.npub
    mayoKeyOwner :=
      match record.mayoPubkey with
      | some mayo => s.mayoKeyOwner.erase mayo
      | none => s.mayoKeyOwner }

def removeSeat (s : State) (record : SeatRecord) : State :=
  removeKeyIndexes
    { s with
      seats := s.seats.erase record.seatIndex
      memberSeat := s.memberSeat.erase record.memberAddr } record

/-- The six saves at the end of `execute_update_attestation`. -/
def saveSeat (s : State) (record : SeatRecord) : State :=
  { s with
    seats := s.seats.insert record.seatIndex record
    memberSeat := s.memberSeat.insert record.memberAddr record.seatIndex
    hotKeyOwner := s.hotKeyOwner.insert record.hotEd25519 record.seatIndex
    blsKeyOwner := s.blsKeyOwner.insert record.blsSharePubkey record.seatIndex
    npubOwner := s.npubOwner.insert record.npub record.seatIndex
    mayoKeyOwner :=
      match record.mayoPubkey with
      | some mayo => s.mayoKeyOwner.insert mayo record.seatIndex
      | none => s.mayoKeyOwner }

theorem removeKeyIndexes_mayo (s : State) (record : SeatRecord) :
    (removeKeyIndexes s record).mayoKeyOwner =
      drop SeatRecord.mayoPubkey record s.mayoKeyOwner := by
  unfold removeKeyIndexes drop
  cases record.mayoPubkey <;> rfl

theorem saveSeat_mayo (s : State) (record : SeatRecord) :
    (saveSeat s record).mayoKeyOwner =
      add SeatRecord.mayoPubkey record.seatIndex record s.mayoKeyOwner := by
  unfold saveSeat add
  cases record.mayoPubkey <;> rfl

/-- Retire the keys of a rotated record into the history. -/
def retireKeys (s : State) (old : SeatRecord) (seatIndex : UInt8) (now : Nat) : SeatM State :=
  let seq := s.keyHistorySeq[seatIndex]?.getD 0
  -- `seq + 1` traps on overflow
  if seq + 1 < 2 ^ 64 then
    .ok { s with
      keyHistory := s.keyHistory.insert (seatIndex, seq)
        ⟨seq, old.hotEd25519, old.npub, old.attestedAt, now⟩
      keyHistorySeq := s.keyHistorySeq.insert seatIndex (seq + 1) }
  else .error .panic

/-- What a rotation does before the new record is saved. -/
def retireExisting (s : State) (seatIndex : UInt8) (now : Nat) : SeatM State :=
  match s.seats[seatIndex]? with
  | some old => (retireKeys s old seatIndex now).map fun s => removeKeyIndexes s old
  | none => .ok s

structure Env where
  api : Api
  querier : Querier
  /-- Block time in seconds. -/
  time : Nat
  sender : String
  funds : List (String × Nat)

def ensureMayoFree (s : State) (mayoPubkey : Option Bytes) (seatIndex : UInt8) : SeatM Unit :=
  match mayoPubkey with
  | some mayo => do
    ensure (mayo ≠ []) .emptyKey
    ensureKeyFree s.mayoKeyOwner mayo seatIndex
  | none => .ok ()

/-- A claimed seat must be the sender's; a fresh one must be the sender's only one. -/
def ensureClaimable (s : State) (sender : String) (seatIndex : UInt8) : SeatM Unit :=
  match s.seats[seatIndex]? with
  | some record =>
    if record.memberAddr ≠ sender then fail (.seatBoundToOtherMember seatIndex) else .ok ()
  | none =>
    match s.memberSeat[sender]? with
    | some other => fail (.memberAlreadyBound other)
    | none => .ok ()

def executeUpdateAttestation (env : Env) (s : State) (seatIndex : UInt8)
    (hotEd25519 blsSharePubkey : Bytes) (mayoPubkey : Option Bytes) (npub : Bytes) :
    SeatM (State × Response) := do
  ensure (hotEd25519 ≠ [] ∧ blsSharePubkey ≠ [] ∧ npub ≠ []) .emptyKey
  let weight ← ofStd (memberWeight env.querier s.config env.sender)
  ensure (0 < weight) .notMember
  ensureClaimable s env.sender seatIndex
  ensureKeyFree s.hotKeyOwner hotEd25519 seatIndex
  ensureKeyFree s.blsKeyOwner blsSharePubkey seatIndex
  ensureKeyFree s.npubOwner npub seatIndex
  ensureMayoFree s mayoPubkey seatIndex
  let retired ← retireExisting s seatIndex env.time
  .ok (saveSeat retired
      ⟨seatIndex, env.sender, hotEd25519, blsSharePubkey, mayoPubkey, npub, env.time⟩,
    [("action", "update_attestation"), ("seat_index", toString seatIndex.toNat),
      ("member_addr", env.sender)])

/-- The seat's record, which must exist. -/
def loadSeat (s : State) (seatIndex : UInt8) : SeatM SeatRecord :=
  match s.seats[seatIndex]? with
  | some record => .ok record
  | none => fail (.seatNotFound seatIndex)

def executeRevokeAttestation (env : Env) (s : State) (seatIndex : UInt8) :
    SeatM (State × Response) := do
  let record ← loadSeat s seatIndex
  ensure (env.sender = record.memberAddr ∨ env.sender = s.config.daoCoreAddr) .unauthorized
  .ok (removeSeat s record,
    [("action", "revoke_attestation"), ("seat_index", toString seatIndex.toNat),
      ("member_addr", record.memberAddr)])

def executePruneSeat (env : Env) (s : State) (seatIndex : UInt8) : SeatM (State × Response) := do
  let record ← loadSeat s seatIndex
  let weight ← ofStd (memberWeight env.querier s.config record.memberAddr)
  ensure (weight = 0) (.memberStillActive seatIndex)
  .ok (removeSeat s record,
    [("action", "prune_seat"), ("seat_index", toString seatIndex.toNat),
      ("member_addr", record.memberAddr)])

/-- A new address, validated, or the old one. -/
def validatedOr (api : Api) (old : String) : Option String → SeatM String
  | some addr => ofStd (api.addrValidate addr)
  | none => .ok old

def executeUpdateConfig (env : Env) (s : State) (cw4GroupAddr daoCoreAddr : Option String) :
    SeatM (State × Response) := do
  ensure (env.sender = s.config.daoCoreAddr) .unauthorized
  let cw4GroupAddr ← validatedOr env.api s.config.cw4GroupAddr cw4GroupAddr
  let daoCoreAddr ← validatedOr env.api s.config.daoCoreAddr daoCoreAddr
  .ok ({ s with config := ⟨cw4GroupAddr, daoCoreAddr⟩ },
    [("action", "update_config"), ("cw4_group_addr", cw4GroupAddr),
      ("dao_core_addr", daoCoreAddr)])

def blsSigDst : Bytes := str "BLS_SIG_BLS12381G1_XMD:SHA-256_SSWU_RO_POP_"

def verifyPartialSig (api : Api) (msg sig sharePk : Bytes) : Bool :=
  if sig.length ≠ 48 ∨ sharePk.length ≠ 96 then false
  else
    match api.hashToG1 msg blsSigDst with
    | none => false
    | some hm => (api.pairingEquality sig api.g2Generator hm sharePk).getD false

def executeSubmitEvidence (env : Env) (s : State) (seatIndex : UInt8) (view : Nat)
    (msgA sigA msgB sigB : Bytes) : SeatM (State × Response) := do
  ensure (msgA ≠ msgB) .notEquivocating
  let seat ← loadSeat s seatIndex
  ensure (¬ (seatIndex, view) ∈ s.evidence) (.duplicateEvidence seatIndex view)
  let verified := verifyPartialSig env.api msgA sigA seat.blsSharePubkey &&
    verifyPartialSig env.api msgB sigB seat.blsSharePubkey
  .ok ({ s with
      evidence := s.evidence.insert (seatIndex, view)
        ⟨seatIndex, seat.memberAddr, view, msgA, sigA, msgB, sigB, verified, env.sender,
          env.time⟩ },
    [("action", "submit_evidence"), ("seat_index", toString seatIndex.toNat),
      ("view", toString view), ("member_addr", seat.memberAddr), ("verified", toString verified)])

def execute (env : Env) (s : State) (msg : ExecuteMsg) : SeatM (State × Response) := do
  ensure (env.funds = []) .payment
  match msg with
  | .updateAttestation seatIndex hotEd25519 blsSharePubkey mayoPubkey npub =>
    executeUpdateAttestation env s seatIndex hotEd25519 blsSharePubkey mayoPubkey npub
  | .revokeAttestation seatIndex => executeRevokeAttestation env s seatIndex
  | .pruneSeat seatIndex => executePruneSeat env s seatIndex
  | .updateConfig cw4GroupAddr daoCoreAddr => executeUpdateConfig env s cw4GroupAddr daoCoreAddr
  | .submitEvidence seatIndex view msgA sigA msgB sigB =>
    executeSubmitEvidence env s seatIndex view msgA sigA msgB sigB

/-! ## Runs -/

/-- One message with everything around it. -/
structure Call where
  env : Env
  msg : ExecuteMsg

/-- A message that fails leaves the state as it was. -/
def apply (s : State) (call : Call) : State :=
  match execute call.env s call.msg with
  | .ok (s', _) => s'
  | .error _ => s

def run (s : State) (calls : List Call) : State := calls.foldl apply s

/-! ## What a message can do -/

/-- A key is unowned, or owned by the seat itself. -/
def KeyFree (owner : ExtTreeMap Bytes UInt8) (key : Bytes) (seatIndex : UInt8) : Prop :=
  ∀ j, owner[key]? = some j → j = seatIndex

structure KeysFree (s : State) (r : SeatRecord) : Prop where
  hot : KeyFree s.hotKeyOwner r.hotEd25519 r.seatIndex
  bls : KeyFree s.blsKeyOwner r.blsSharePubkey r.seatIndex
  npub : KeyFree s.npubOwner r.npub r.seatIndex
  mayo : ∀ mayo, r.mayoPubkey = some mayo → KeyFree s.mayoKeyOwner mayo r.seatIndex

def SeatRecord.updateMsg (r : SeatRecord) : ExecuteMsg :=
  .updateAttestation r.seatIndex r.hotEd25519 r.blsSharePubkey r.mayoPubkey r.npub

/-- The record of a submission about `seat`. -/
def evidenceOf (env : Env) (seat : SeatRecord) (seatIndex : UInt8) (view : Nat)
    (msgA sigA msgB sigB : Bytes) : EvidenceRecord :=
  ⟨seatIndex, seat.memberAddr, view, msgA, sigA, msgB, sigB,
    verifyPartialSig env.api msgA sigA seat.blsSharePubkey &&
      verifyPartialSig env.api msgB sigB seat.blsSharePubkey, env.sender, env.time⟩

/-- One accepted message. -/
inductive Change (env : Env) (s : State) : ExecuteMsg → State → Prop
  | claim (r : SeatRecord) : s.seats[r.seatIndex]? = none → s.memberSeat[r.memberAddr]? = none →
      KeysFree s r → r.memberAddr = env.sender → r.attestedAt = env.time →
      Change env s r.updateMsg (saveSeat s r)
  | rotate (old r : SeatRecord) (retired : State) :
      s.seats[r.seatIndex]? = some old → old.memberAddr = r.memberAddr → KeysFree s r →
      retireKeys s old r.seatIndex env.time = .ok retired →
      r.memberAddr = env.sender → r.attestedAt = env.time →
      Change env s r.updateMsg (saveSeat (removeKeyIndexes retired old) r)
  | revoke (i : UInt8) (r : SeatRecord) : s.seats[i]? = some r →
      Change env s (.revokeAttestation i) (removeSeat s r)
  | prune (i : UInt8) (r : SeatRecord) : s.seats[i]? = some r →
      Change env s (.pruneSeat i) (removeSeat s r)
  | config (group dao : Option String) (c : Config) :
      Change env s (.updateConfig group dao) { s with config := c }
  | evidence (seat : SeatRecord) (i : UInt8) (view : Nat) (msgA sigA msgB sigB : Bytes) :
      s.seats[i]? = some seat → msgA ≠ msgB → (i, view) ∉ s.evidence →
      Change env s (.submitEvidence i view msgA sigA msgB sigB)
        { s with evidence :=
            s.evidence.insert (i, view) (evidenceOf env seat i view msgA sigA msgB sigB) }

variable {u : Unit} {s s' : State} {i : UInt8} {r : SeatRecord} {resp : Response}

theorem ensure_eq_ok {c : Prop} [Decidable c] {e : ContractError} : ensure c e = .ok u ↔ c := by
  unfold ensure fail
  split <;> simp_all

theorem loadSeat_eq_ok : loadSeat s i = .ok r ↔ s.seats[i]? = some r := by
  unfold loadSeat fail
  split <;> simp_all

theorem ensureKeyFree_eq_ok {index : ExtTreeMap Bytes UInt8} {key : Bytes} :
    ensureKeyFree index key i = .ok u ↔ KeyFree index key i := by
  unfold ensureKeyFree KeyFree fail
  cases index[key]? with
  | none => simp
  | some owner => by_cases h : owner = i <;> simp [h]

theorem ensureMayoFree_eq_ok {mayo : Option Bytes} (h : ensureMayoFree s mayo i = .ok u) :
    ∀ k, mayo = some k → KeyFree s.mayoKeyOwner k i := by
  rintro k rfl
  obtain ⟨_, -, h⟩ := bind_eq_ok.mp h
  exact ensureKeyFree_eq_ok.mp h

theorem ensureClaimable_cases {sender : String} (h : ensureClaimable s sender i = .ok u) :
    (s.seats[i]? = none ∧ s.memberSeat[sender]? = none) ∨
      ∃ old, s.seats[i]? = some old ∧ old.memberAddr = sender := by
  unfold ensureClaimable fail at h
  split at h
  · rename_i record hrecord
    split at h
    · cases h
    · rename_i heq
      exact .inr ⟨record, hrecord, not_not.mp heq⟩
  · rename_i hnone
    split at h
    · cases h
    · rename_i hmember
      exact .inl ⟨hnone, hmember⟩

theorem change_of_updateAttestation {env : Env} {hot bls : Bytes} {mayo : Option Bytes}
    {npub : Bytes} (h : executeUpdateAttestation env s i hot bls mayo npub = .ok (s', resp)) :
    Change env s (.updateAttestation i hot bls mayo npub) s' := by
  obtain ⟨_, -, h⟩ := bind_eq_ok.mp h
  obtain ⟨_, -, h⟩ := bind_eq_ok.mp h
  obtain ⟨_, -, h⟩ := bind_eq_ok.mp h
  obtain ⟨_, hclaim, h⟩ := bind_eq_ok.mp h
  obtain ⟨_, hhot, h⟩ := bind_eq_ok.mp h
  obtain ⟨_, hbls, h⟩ := bind_eq_ok.mp h
  obtain ⟨_, hnpub, h⟩ := bind_eq_ok.mp h
  obtain ⟨_, hmayo, h⟩ := bind_eq_ok.mp h
  obtain ⟨retired, hretired, h⟩ := bind_eq_ok.mp h
  cases h
  have hfree : KeysFree s ⟨i, env.sender, hot, bls, mayo, npub, env.time⟩ :=
    ⟨ensureKeyFree_eq_ok.mp hhot, ensureKeyFree_eq_ok.mp hbls, ensureKeyFree_eq_ok.mp hnpub,
      ensureMayoFree_eq_ok hmayo⟩
  rcases ensureClaimable_cases hclaim with ⟨hseat, hmember⟩ | ⟨old, hold, hsender⟩
  · rw [retireExisting, hseat] at hretired
    cases hretired
    exact .claim ⟨i, env.sender, hot, bls, mayo, npub, env.time⟩ hseat hmember hfree rfl rfl
  · rw [retireExisting, hold] at hretired
    dsimp only at hretired
    cases hretire : retireKeys s old i env.time with
    | error e => rw [hretire] at hretired; cases hretired
    | ok s₁ =>
      rw [hretire] at hretired
      cases hretired
      exact .rotate old ⟨i, env.sender, hot, bls, mayo, npub, env.time⟩ s₁ hold hsender hfree
        hretire rfl rfl

/-- **What an accepted message does.** -/
theorem change_of_execute {env : Env} {msg : ExecuteMsg} (h : execute env s msg = .ok (s', resp)) :
    Change env s msg s' := by
  obtain ⟨_, -, h⟩ := bind_eq_ok.mp h
  cases msg with
  | updateAttestation i hot bls mayo npub => exact change_of_updateAttestation h
  | revokeAttestation i =>
    obtain ⟨r, hr, h⟩ := bind_eq_ok.mp h
    obtain ⟨_, -, h⟩ := bind_eq_ok.mp h
    cases h
    exact .revoke i r (loadSeat_eq_ok.mp hr)
  | pruneSeat i =>
    obtain ⟨r, hr, h⟩ := bind_eq_ok.mp h
    obtain ⟨_, -, h⟩ := bind_eq_ok.mp h
    obtain ⟨_, -, h⟩ := bind_eq_ok.mp h
    cases h
    exact .prune i r (loadSeat_eq_ok.mp hr)
  | updateConfig group dao =>
    obtain ⟨_, -, h⟩ := bind_eq_ok.mp h
    obtain ⟨_, -, h⟩ := bind_eq_ok.mp h
    obtain ⟨_, -, h⟩ := bind_eq_ok.mp h
    cases h
    exact .config group dao _
  | submitEvidence i view msgA sigA msgB sigB =>
    obtain ⟨_, hdiffer, h⟩ := bind_eq_ok.mp h
    obtain ⟨r, hr, h⟩ := bind_eq_ok.mp h
    obtain ⟨_, hnew, h⟩ := bind_eq_ok.mp h
    cases h
    exact .evidence r i view msgA sigA msgB sigB (loadSeat_eq_ok.mp hr)
      (ensure_eq_ok.mp hdiffer) (ensure_eq_ok.mp hnew)

/-! ## The invariant -/

/-- The indexes are the inverses of the record fields, and the history of each
seat is numbered without gaps. -/
structure Registry (s : State) : Prop where
  index : ∀ i, ∀ r : SeatRecord, s.seats[i]? = some r → r.seatIndex = i
  member : Indexes (fun r => some r.memberAddr) s.seats s.memberSeat
  hot : Indexes (fun r => some r.hotEd25519) s.seats s.hotKeyOwner
  bls : Indexes (fun r => some r.blsSharePubkey) s.seats s.blsKeyOwner
  npub : Indexes (fun r => some r.npub) s.seats s.npubOwner
  mayo : Indexes SeatRecord.mayoPubkey s.seats s.mayoKeyOwner
  history : ∀ (i : UInt8) (n : Nat), (i, n) ∈ s.keyHistory ↔ n < s.keyHistorySeq[i]?.getD 0

theorem registry_of_instantiate {api : Api} {msg : InstantiateMsg}
    (h : instantiate api msg = .ok (s, resp)) : Registry s := by
  obtain ⟨_, -, h⟩ := bind_eq_ok.mp h
  obtain ⟨_, -, h⟩ := bind_eq_ok.mp h
  cases h
  exact ⟨fun i r hr => by simp at hr, .empty, .empty, .empty, .empty, .empty,
    fun i n => by simp⟩

theorem KeyFree.indexed {owner : ExtTreeMap Bytes UInt8} {key : Bytes}
    (h : KeyFree owner key i) : ∀ k, some key = some k → ∀ j, owner[k]? = some j → j = i := by
  rintro k heq
  cases heq
  exact h

theorem index_insert (h : ∀ i, ∀ r : SeatRecord, s.seats[i]? = some r → r.seatIndex = i)
    (r : SeatRecord) :
    ∀ i, ∀ r' : SeatRecord, (s.seats.insert r.seatIndex r)[i]? = some r' → r'.seatIndex = i := by
  intro i r' hr'
  rcases OrdMap.getElem?_insert_cases.mp hr' with ⟨rfl, rfl⟩ | ⟨-, hr'⟩
  · rfl
  · exact h i r' hr'

theorem Registry.claim (h : Registry s) (hseat : s.seats[r.seatIndex]? = none)
    (hmember : s.memberSeat[r.memberAddr]? = none) (hfree : KeysFree s r) :
    Registry (saveSeat s r) where
  index := index_insert h.index r
  member := h.member.insert hseat fun k hk j hj => by
    cases hk
    rw [hmember] at hj
    cases hj
  hot := h.hot.insert hseat hfree.hot.indexed
  bls := h.bls.insert hseat hfree.bls.indexed
  npub := h.npub.insert hseat hfree.npub.indexed
  mayo := by
    rw [saveSeat_mayo]
    exact h.mayo.insert hseat hfree.mayo
  history := h.history

theorem retireKeys_eq_ok {old : SeatRecord} {now : Nat} (h : retireKeys s old i now = .ok s') :
    s' = { s with
      keyHistory := s.keyHistory.insert (i, s.keyHistorySeq[i]?.getD 0)
        ⟨s.keyHistorySeq[i]?.getD 0, old.hotEd25519, old.npub, old.attestedAt, now⟩
      keyHistorySeq := s.keyHistorySeq.insert i (s.keyHistorySeq[i]?.getD 0 + 1) } := by
  unfold retireKeys at h
  dsimp only at h
  split at h
  · exact (Except.ok.inj h).symm
  · cases h

/-- One more entry at the end of one seat's history. -/
theorem history_insert (h : ∀ (i : UInt8) (n : Nat),
      (i, n) ∈ s.keyHistory ↔ n < s.keyHistorySeq[i]?.getD 0) (i : UInt8) (e : KeyHistoryEntry)
    (j : UInt8) (n : Nat) : (j, n) ∈ s.keyHistory.insert (i, s.keyHistorySeq[i]?.getD 0) e ↔
      n < (s.keyHistorySeq.insert i (s.keyHistorySeq[i]?.getD 0 + 1))[j]?.getD 0 := by
  rw [ExtTreeMap.mem_insert, h j n, ExtTreeMap.getElem?_insert,
    Std.LawfulEqOrd.compare_eq_iff_eq, Prod.mk.injEq]
  by_cases hij : i = j
  · subst hij
    simp only [true_and, Std.ReflOrd.compare_self, if_true, Option.getD_some]
    omega
  · simp [hij]

theorem Registry.rotate {retired : State} (h : Registry s) {old : SeatRecord} {now : Nat}
    (hseat : s.seats[r.seatIndex]? = some old) (hmember : old.memberAddr = r.memberAddr)
    (hfree : KeysFree s r) (hretired : retireKeys s old r.seatIndex now = .ok retired) :
    Registry (saveSeat (removeKeyIndexes retired old) r) := by
  obtain rfl := retireKeys_eq_ok hretired
  -- the member's entry is written again, not changed
  have hkept : s.memberSeat.insert r.memberAddr r.seatIndex = s.memberSeat := by
    have hadd : add (fun r : SeatRecord => some r.memberAddr) r.seatIndex r s.memberSeat =
        s.memberSeat :=
      add_of_getElem? rfl ((h.member _ _).mpr ⟨old, hseat, congrArg some hmember⟩)
    exact hadd
  exact {
    index := index_insert h.index r
    member := by
      change Indexes _ (s.seats.insert r.seatIndex r)
        (s.memberSeat.insert r.memberAddr r.seatIndex)
      rw [hkept]
      exact h.member.keep hseat (congrArg some hmember.symm)
    hot := h.hot.replace hseat hfree.hot.indexed
    bls := h.bls.replace hseat hfree.bls.indexed
    npub := h.npub.replace hseat hfree.npub.indexed
    mayo := by
      rw [saveSeat_mayo, removeKeyIndexes_mayo]
      exact h.mayo.replace hseat hfree.mayo
    history := history_insert h.history r.seatIndex _ }

theorem Registry.remove (h : Registry s) (hseat : s.seats[i]? = some r) :
    Registry (removeSeat s r) := by
  obtain rfl := h.index i r hseat
  exact {
    index := fun j r' hr' => by
      change (s.seats.erase r.seatIndex)[j]? = some r' at hr'
      rw [ExtTreeMap.getElem?_erase] at hr'
      split at hr'
      · cases hr'
      · exact h.index j r' hr'
    member := h.member.erase hseat
    hot := h.hot.erase hseat
    bls := h.bls.erase hseat
    npub := h.npub.erase hseat
    mayo := by
      rw [removeSeat, removeKeyIndexes_mayo]
      exact h.mayo.erase hseat
    history := h.history }

section Step

variable {env : Env} {s s' : State} {msg : ExecuteMsg}

/-- Step. -/
theorem Registry.change (h : Registry s) (hc : Change env s msg s') : Registry s' := by
  cases hc with
  | claim r hseat hmember hfree => exact h.claim hseat hmember hfree
  | rotate old r retired hseat hmember hfree hretired =>
    exact h.rotate hseat hmember hfree hretired
  | revoke i r hseat | prune i r hseat => exact h.remove hseat
  | config | evidence => exact ⟨h.index, h.member, h.hot, h.bls, h.npub, h.mayo, h.history⟩

/-- Entries of the history stay. -/
theorem Change.history (hc : Change env s msg s') (h : Registry s) {key : SeatKey}
    {e : KeyHistoryEntry} (he : s.keyHistory[key]? = some e) : s'.keyHistory[key]? = some e := by
  cases hc with
  | rotate old r retired hseat _ _ hretired =>
    obtain rfl := retireKeys_eq_ok hretired
    change (s.keyHistory.insert _ _)[key]? = some e
    rw [OrdMap.getElem?_insert_of_ne, he]
    -- the number of the new entry is not in use
    rintro rfl
    exact absurd ((h.history _ _).mp (OrdMap.mem_of_getElem? he)) (Nat.lt_irrefl _)
  | _ => exact he

end Step

theorem apply_cases (s : State) (call : Call) :
    apply s call = s ∨ Change call.env s call.msg (apply s call) := by
  unfold apply
  cases h : execute call.env s call.msg with
  | error e => exact .inl rfl
  | ok r => exact .inr (change_of_execute h)

/-- Run. -/
theorem Registry.run {s : State} (h : Registry s) (calls : List Call) :
    Registry (run s calls) ∧
      ∀ (key : SeatKey) (e : KeyHistoryEntry), s.keyHistory[key]? = some e →
        (run s calls).keyHistory[key]? = some e := by
  induction calls generalizing s with
  | nil => exact ⟨h, fun _ _ he => he⟩
  | cons call calls ih =>
    have happly : Registry (apply s call) ∧
        ∀ (key : SeatKey) (e : KeyHistoryEntry), s.keyHistory[key]? = some e →
          (apply s call).keyHistory[key]? = some e := by
      rcases apply_cases s call with heq | hchange
      · rw [heq]
        exact ⟨h, fun _ _ he => he⟩
      · exact ⟨h.change hchange, fun _ _ he => hchange.history h he⟩
    obtain ⟨hrun, hkeep⟩ := ih happly.1
    exact ⟨hrun, fun key e he => hkeep key e (happly.2 key e he)⟩

/-- **The seat registry.** After any messages, with any answers of the group: a
seat is bound to a member exactly when the member's entry names the seat; the four
key indexes hold exactly the keys of the active records under their seats; no key
belongs to two of them; and the history of a seat is numbered without gaps and only
grows. -/
theorem registry_invariant {api : Api} {msg : InstantiateMsg} {s₀ : State} {resp : Response}
    (hinit : instantiate api msg = .ok (s₀, resp)) (calls : List Call) :
    (∀ (i : UInt8) (m : String), (∃ r, (run s₀ calls).seats[i]? = some r ∧ r.memberAddr = m) ↔
        (run s₀ calls).memberSeat[m]? = some i) ∧
      (∀ (k : Bytes) (i : UInt8),
        ((run s₀ calls).hotKeyOwner[k]? = some i ↔
          ∃ r, (run s₀ calls).seats[i]? = some r ∧ r.hotEd25519 = k) ∧
        ((run s₀ calls).blsKeyOwner[k]? = some i ↔
          ∃ r, (run s₀ calls).seats[i]? = some r ∧ r.blsSharePubkey = k) ∧
        ((run s₀ calls).mayoKeyOwner[k]? = some i ↔
          ∃ r, (run s₀ calls).seats[i]? = some r ∧ r.mayoPubkey = some k) ∧
        ((run s₀ calls).npubOwner[k]? = some i ↔
          ∃ r, (run s₀ calls).seats[i]? = some r ∧ r.npub = k)) ∧
      (∀ (i j : UInt8) (r r' : SeatRecord), (run s₀ calls).seats[i]? = some r →
        (run s₀ calls).seats[j]? = some r' →
        (r.hotEd25519 = r'.hotEd25519 ∨ r.blsSharePubkey = r'.blsSharePubkey ∨
          (∃ k, r.mayoPubkey = some k ∧ r'.mayoPubkey = some k) ∨ r.npub = r'.npub) → i = j) ∧
      (∀ (i : UInt8) (n : Nat), (i, n) ∈ (run s₀ calls).keyHistory ↔
        n < (run s₀ calls).keyHistorySeq[i]?.getD 0) ∧
      ∀ (later : List Call) (key : SeatKey) (e : KeyHistoryEntry),
        (run s₀ calls).keyHistory[key]? = some e →
          (run s₀ (calls ++ later)).keyHistory[key]? = some e := by
  have h := ((registry_of_instantiate hinit).run calls).1
  refine ⟨fun i m => ?_, fun k i => ⟨?_, ?_, h.mayo k i, ?_⟩, ?_, h.history, ?_⟩
  · rw [h.member m i]
    simp only [Option.some.injEq]
  · rw [h.hot k i]
    simp only [Option.some.injEq]
  · rw [h.bls k i]
    simp only [Option.some.injEq]
  · rw [h.npub k i]
    simp only [Option.some.injEq]
  · rintro i j r r' hi hj (hkey | hkey | ⟨k, hk, hk'⟩ | hkey)
    · exact h.hot.unique hi hj (congrArg some hkey) rfl
    · exact h.bls.unique hi hj (congrArg some hkey) rfl
    · exact h.mayo.unique hi hj hk hk'
    · exact h.npub.unique hi hj (congrArg some hkey) rfl
  · intro later key e he
    rw [run, List.foldl_append]
    exact (h.run later).2 key e he

/-! ### A claim, a rotation and a competing claim -/

/-- A group in which the listed members have weight 1. -/
def groupOf (members : List String) : Querier where
  member _ addr := .ok (if addr ∈ members then some 1 else none)
  listMembers _ _ _ := .ok (members.map fun m => (m, 1))

/-- Addresses are valid as they are; signatures are not checked here. -/
def plainApi : Api := ⟨.ok, fun _ _ => none, fun _ _ _ _ => none, []⟩

def sampleEnv (sender : String) : Env := ⟨plainApi, groupOf ["ada", "bea"], 1000, sender, []⟩

def sampleCalls : List Call :=
  [⟨sampleEnv "ada", .updateAttestation 0 [1] [2] (some [3]) [4]⟩,
    ⟨sampleEnv "ada", .updateAttestation 0 [1] [5] none [6]⟩,
    ⟨sampleEnv "bea", .updateAttestation 1 [7] [2] (some [3]) [4]⟩,
    ⟨sampleEnv "bea", .updateAttestation 1 [1] [2] none [8]⟩]

def sampleState : State := ⟨⟨"group", "dao"⟩, ∅, ∅, ∅, ∅, ∅, ∅, ∅, ∅, ∅⟩

theorem instantiate_sampleState : instantiate plainApi ⟨"group", "dao"⟩ =
    .ok (sampleState, [("action", "instantiate"), ("cw4_group_addr", "group"),
      ("dao_core_addr", "dao")]) := rfl

/-- The rotated-out keys are free again, and the last claim, of a key in use, is
refused. -/
theorem registry_invariant_sample :
    ((run sampleState sampleCalls).seats[(1 : UInt8)]?.map SeatRecord.npub) = some [4] ∧
      (run sampleState sampleCalls).npubOwner[([4] : Bytes)]? = some 1 := by
  have hrecord : ((run sampleState sampleCalls).seats[(1 : UInt8)]?.map SeatRecord.npub) =
      some [4] := by decide +kernel
  obtain ⟨r, hr, hnpub⟩ := Option.map_eq_some_iff.mp hrecord
  refine ⟨hrecord, ?_⟩
  exact ((registry_invariant instantiate_sampleState sampleCalls).2.1 [4] 1).2.2.2.mpr
    ⟨r, hr, hnpub⟩

end LayerSdk.Seats
