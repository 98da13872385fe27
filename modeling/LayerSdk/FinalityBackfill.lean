import LayerSdk.Gas
import LayerSdk.Payload
import Mathlib.Data.List.Nodup

/-!
# Repair of missing finality records

A block is committed with its payload; its finality record is stored after that, or
never. The task of `finality_backfill` looks for heights with a payload and no record,
queues them and asks donors. It takes the lock of the app anew for every access, so
between any two of its steps blocks are executed, records stored and old ones pruned.

Two facts carry the result. A height behind the watermark that still lacks its record is
in the hands of the task (`Inv.complete`). A height the watermark has not passed comes
closer with every step of the task (`TaskStep.closer`).
-/

namespace LayerSdk.Backfill

/-! ## The source's functions -/

def scanBatch : Nat := 8192

def tailWindow : Nat := 4096

def repairBatch : Nat := 256

def fetchConcurrency : Nat := 16

def missingCap : Nat := 1000000

structure FinalityRecord where
  proposal : Bytes
  certificate : Bytes
  timestampNanos : Nat
deriving DecidableEq

/-- The records by height. The tip is the height of `info`, 0 where there is none. -/
structure Records where
  tip : Nat
  payload : Nat → Option Bytes
  finality : Nat → Option FinalityRecord
  pruneFloor : Nat
  finalityPruneFloor : Nat

namespace Records

variable (r : Records)

/-- A committed block; at the last height the node panics. -/
def execute (payload : Bytes) : Option Records :=
  if r.tip = u64Max then none
  else some { r with
    tip := r.tip + 1, payload := Function.update r.payload (r.tip + 1) (some payload) }

def setBlockFinality (height : Nat) (record : FinalityRecord) : Records :=
  { r with finality := Function.update r.finality height (some record) }

def pruneSidecars (newFloor : Nat) : Records :=
  { r with
    payload := fun h => if r.pruneFloor < h ∧ h ≤ newFloor then none else r.payload h
    pruneFloor := newFloor }

def pruneFinality (newFloor : Nat) : Records :=
  { r with
    finality := fun h => if r.finalityPruneFloor < h ∧ h ≤ newFloor then none else r.finality h
    finalityPruneFloor := newFloor }

/-- The test of the scan. -/
def lacks (h : Nat) : Bool := (r.payload h).isSome && (r.finality h).isNone

end Records

structure BlockResponse where
  proposalBytes : Bytes
  certificateBytes : Bytes
  payloadBytes : Bytes
  timestampNanos : Nat

def vote (key : FinalityRecord) : List (FinalityRecord × Nat) → List (FinalityRecord × Nat)
  | [] => [(key, 1)]
  | (k, n) :: rest => if k = key then (k, n + 1) :: rest else (k, n) :: vote key rest

/-- There is an answer for each connected donor; `none` is an error or a timeout. -/
def fetchFinality (answers : List (Option BlockResponse)) (localPayload : Bytes) :
    Option FinalityRecord :=
  let candidates := answers.reduceOption.foldl (fun candidates resp =>
    if resp.proposalBytes = [] ∨ resp.certificateBytes = [] then candidates
    else if resp.payloadBytes ≠ localPayload then candidates
    else vote ⟨resp.proposalBytes, resp.certificateBytes, resp.timestampNanos⟩ candidates) []
  (maxByKey Prod.snd candidates).map Prod.fst

def floorSearch (has : Nat → Bool) (lo hi : Nat) : Nat :=
  if lo < hi then
    let mid := lo + (hi - lo) / 2
    if has mid then floorSearch has lo mid else floorSearch has (mid + 1) hi
  else lo
termination_by hi - lo
decreasing_by all_goals omega

def payloadFloor (r : Records) : Nat :=
  let has := fun h => (r.payload h).isSome
  if has r.tip then floorSearch has 1 r.tip else 1

/-- Where the task is, between two accesses to the app. -/
inductive Phase where
  | top
  /-- The tip has been read. -/
  | scan (tip : Nat)
  | repair
  /-- What is fetched and not yet stored, and the heights to fetch after that. -/
  | store (results : List (Nat × Option FinalityRecord)) (payloads : List (Nat × Bytes))

structure State where
  records : Records
  scanNext : Nat
  missing : List Nat
  phase : Phase

/-- The task once it has found its floor. -/
def State.start (r : Records) : State := ⟨r, max (payloadFloor r) 1, [], .top⟩

/-- The first height of a scan. -/
def scanFrom (scanNext tip : Nat) : Nat :=
  if scanNext > tip then max (tip - tailWindow) 1 else scanNext

def scan (s : State) (tip : Nat) : Option State :=
  let next := scanFrom s.scanNext tip
  -- overflow checks are on
  if next + scanBatch > u64Max ∨ tip + 1 > u64Max then none
  else
    let stop := min (next + scanBatch) (tip + 1)
    let found := if s.missing.length < missingCap then
      (List.range' next (stop - next)).filter s.records.lacks else []
    some { s with scanNext := stop, missing := s.missing ++ found, phase := .repair }

/-- One result of a fetch; `ok` is whether the store takes the record. -/
def storeResult (dryRun ok : Bool) (s : State) (h : Nat) : Option FinalityRecord → State
  | none => { s with missing := s.missing ++ [h] }
  | some record =>
    if dryRun then s
    else if ok then { s with records := s.records.setBlockFinality h record }
    else { s with missing := s.missing ++ [h] }

/-- The task up to its next wait. Which donors are connected, and what they say, is in
`answers`. -/
def advance (dryRun : Bool) (answers : Nat → List (Option BlockResponse)) (ok : Bool)
    (s : State) : Option State :=
  match s.phase with
  | .top => if s.records.tip = 0 then some s else some { s with phase := .scan s.records.tip }
  | .scan tip => scan s tip
  | .repair =>
    -- heights pruned since they were queued are dropped
    let payloads := (s.missing.take repairBatch).filterMap fun h =>
      (s.records.payload h).map fun p => (h, p)
    some { s with missing := s.missing.drop repairBatch, phase := .store [] payloads }
  | .store [] [] => some { s with phase := .top }
  | .store [] payloads =>
    let results := (payloads.take fetchConcurrency).map fun (h, p) =>
      (h, fetchFinality (answers h) p)
    some { s with phase := .store results (payloads.drop fetchConcurrency) }
  | .store ((h, r) :: results) payloads =>
    some { storeResult dryRun ok s h r with phase := .store results payloads }

/-- What the executor does to the records. -/
inductive Call where
  | execute (payload : Bytes)
  | finalize (height : Nat) (record : FinalityRecord)
  | pruneSidecars (newFloor : Nat)
  | pruneFinality (newFloor : Nat)

def Call.apply (r : Records) : Call → Option Records
  | .execute payload => r.execute payload
  | .finalize height record => some (r.setBlockFinality height record)
  | .pruneSidecars floor =>
    if r.pruneFloor < floor ∧ floor ≤ r.tip then some (r.pruneSidecars floor) else none
  | .pruneFinality floor =>
    if r.finalityPruneFloor < floor ∧ floor ≤ r.tip then some (r.pruneFinality floor) else none

inductive Action where
  | app (call : Call)
  | task (answers : Nat → List (Option BlockResponse)) (ok : Bool)

def Action.isTask : Action → Bool
  | .app _ => false
  | .task .. => true

def step (dryRun : Bool) (s : State) : Action → Option State
  | .app call => (call.apply s.records).map fun r => { s with records := r }
  | .task answers ok => advance dryRun answers ok s

/-- A run of steps that meet `P`, the last one first. -/
inductive Run (dryRun : Bool) (P : State → Action → Prop) (s₀ : State) :
    List Action → State → Prop
  | start : Run dryRun P s₀ [] s₀
  | step {acts : List Action} {s s' : State} {a : Action} : Run dryRun P s₀ acts s → P s a →
      Backfill.step dryRun s a = some s' → Run dryRun P s₀ (a :: acts) s'

/-! ## What is asked for, and when it holds -/

def Phase.heights : Phase → List Nat
  | .store results payloads => results.map Prod.fst ++ payloads.map Prod.fst
  | _ => []

/-- The queue, with the heights taken from it for the round of repairs under way. -/
def State.queued (s : State) : List Nat := s.missing ++ s.phase.heights

/-- There is nothing to repair, or the height is pruned. -/
def Records.Settled (r : Records) (h : Nat) : Prop :=
  r.payload h = none ∨ r.finality h ≠ none ∨ h ≤ r.finalityPruneFloor

/-- The height is to be queued and is not. -/
def State.Waiting (h : Nat) (s : State) : Prop := ¬ s.records.Settled h ∧ h ∉ s.queued

/-- Blocks have heights from 1 to the tip. -/
def Records.Placed (r : Records) : Prop := ∀ h, r.payload h ≠ none → 1 ≤ h ∧ h ≤ r.tip

/-- If the tip has a payload, the payloads have no hole. -/
def Records.Contiguous (r : Records) : Prop := (r.payload r.tip).isSome → ∀ a b, a ≤ b →
  b ≤ r.tip → (r.payload a).isSome → (r.payload b).isSome

/-- A scan finds room in the queue and, when it goes over the tail again, no queued
height that still lacks its record. -/
structure State.Ready (s : State) : Prop where
  room : ∀ tip, s.phase = .scan tip → s.missing.length < missingCap
  tail : ∀ tip, s.phase = .scan tip → tip < s.scanNext → ∀ h ∈ s.missing, tip - tailWindow ≤ h →
    s.records.lacks h = false

/-- The executor stores no record for a height the task has queued. -/
def Sound (s : State) : Action → Prop
  | .app (.finalize h _) => h ∉ s.queued
  | .app _ => True
  | .task .. => s.Ready

/-! ## One step -/

section Steps

variable {s s' : State} {h : Nat}

theorem lacks_iff {r : Records} : r.lacks h = true ↔ r.payload h ≠ none ∧ r.finality h = none := by
  rw [Records.lacks, Bool.and_eq_true, Option.isSome_iff_ne_none, Option.isNone_iff_eq_none]

theorem settled_setBlockFinality {r : Records} {height : Nat} {record : FinalityRecord}
    (hs : r.Settled h) : (r.setBlockFinality height record).Settled h := by
  refine hs.imp_right (Or.imp_left fun hfin => ?_)
  by_cases hnew : h = height <;> simp [Records.setBlockFinality, hnew, hfin]

/-- Below the result of the search there is nothing, if what there is has no hole. -/
theorem floorSearch_spec {has : Nat → Bool} {lo hi : Nat}
    (hmono : ∀ a b, a ≤ b → b ≤ hi → has a = true → has b = true) (hle : lo ≤ hi)
    (hlo : ∀ h, 1 ≤ h → h < lo → has h = false) :
    floorSearch has lo hi ≤ hi ∧ ∀ h, 1 ≤ h → h < floorSearch has lo hi → has h = false := by
  induction lo, hi using floorSearch.induct has with
  | case1 lo hi hlt mid hmid ih =>
    rw [floorSearch, if_pos hlt, if_pos hmid]
    have hmid : mid ≤ hi := by omega
    obtain ⟨hbound, hnone⟩ := ih (fun a b hab hb => hmono a b hab (by omega)) (by omega) hlo
    exact ⟨Nat.le_trans hbound hmid, hnone⟩
  | case2 lo hi hlt mid hmid ih =>
    rw [floorSearch, if_pos hlt, if_neg hmid]
    refine ih hmono (by omega) fun h _ hh => ?_
    by_contra hhas
    exact hmid (hmono h mid (by omega) (by omega) (Bool.not_eq_false _ ▸ hhas))
  | case3 lo hi hlt =>
    rw [floorSearch, if_neg hlt]
    exact ⟨hle, hlo⟩

structure Inv (s : State) : Prop where
  placed : s.records.Placed
  next : s.scanNext ≤ s.records.tip + 1
  scan : ∀ tip, s.phase = .scan tip → tip ≤ s.records.tip ∧ s.scanNext ≤ tip + 1
  complete : ∀ h < s.scanNext, ¬ s.records.Settled h → h ∈ s.queued
  nodup : s.queued.Nodup
  behind : ∀ h ∈ s.queued, h < s.scanNext
  clean : ∀ h ∈ s.queued, s.records.finality h = none

/-- The watermark starts at or below every payload. -/
theorem inv_start {r : Records} (hplaced : r.Placed) (hr : r.Contiguous) : Inv (.start r) := by
  have hbelow : payloadFloor r ≤ r.tip + 1 ∧
      ∀ h, 1 ≤ h → h < payloadFloor r → (r.payload h).isSome = false := by
    rw [payloadFloor]
    split
    · rename_i htip
      have hpos := (hplaced _ (Option.isSome_iff_ne_none.mp htip)).1
      obtain ⟨hle, hnone⟩ := floorSearch_spec (hr htip) hpos fun h hone hlt => by omega
      exact ⟨Nat.le_succ_of_le hle, hnone⟩
    · exact ⟨Nat.succ_le_succ (Nat.zero_le _), fun h hone hlt => by omega⟩
  refine ⟨hplaced, Nat.max_le.mpr ⟨hbelow.1, by omega⟩, nofun, fun h hlt hh => ?_,
    List.nodup_nil, nofun, nofun⟩
  have hpayload : r.payload h ≠ none := fun hnone => hh (.inl hnone)
  have hone := (hplaced h hpayload).1
  have hfloor : h < payloadFloor r := by
    change h < max _ 1 at hlt
    omega
  rw [← Option.isSome_iff_ne_none, hbelow.2 h hone hfloor] at hpayload
  cases hpayload

/-- What every step but a scan does. -/
structure Moves (s s' : State) : Prop where
  next : s'.scanNext = s.scanNext
  tip : s.records.tip ≤ s'.records.tip
  placed : ∀ h, s'.records.payload h ≠ none → s.records.payload h ≠ none ∨
    1 ≤ h ∧ h ≤ s'.records.tip
  scan : ∀ tip, s'.phase = .scan tip → s.phase = .scan tip ∨ tip = s.records.tip
  subset : ∀ h ∈ s'.queued, h ∈ s.queued
  nodup : s.queued.Nodup → s'.queued.Nodup
  kept : ∀ h ∈ s.queued, h ∈ s'.queued ∨ s'.records.Settled h
  settled : ∀ h < s.scanNext, s.records.Settled h → s'.records.Settled h
  clean : ∀ h ∈ s'.queued, s.records.finality h = none → s'.records.finality h = none

theorem Inv.moves (hi : Inv s) (hm : Moves s s') : Inv s' where
  placed := fun h hh => by
    rcases hm.placed h hh with hold | hnew
    · exact ⟨(hi.placed h hold).1, Nat.le_trans (hi.placed h hold).2 hm.tip⟩
    · exact hnew
  next := by
    rw [hm.next]
    exact Nat.le_trans hi.next (Nat.succ_le_succ hm.tip)
  scan := fun tip hphase => by
    rw [hm.next]
    rcases hm.scan tip hphase with hold | rfl
    · exact ⟨Nat.le_trans (hi.scan tip hold).1 hm.tip, (hi.scan tip hold).2⟩
    · exact ⟨hm.tip, hi.next⟩
  complete := fun h hlt hh => by
    rw [hm.next] at hlt
    have hold : ¬ s.records.Settled h := fun hs => hh (hm.settled h hlt hs)
    exact (hm.kept h (hi.complete h hlt hold)).resolve_right hh
  nodup := hm.nodup hi.nodup
  behind := fun h hh => hm.next ▸ hi.behind h (hm.subset h hh)
  clean := fun h hh => hm.clean h hh (hi.clean h (hm.subset h hh))

/-- A step of the executor. -/
theorem Moves.records {r : Records} (htip : s.records.tip ≤ r.tip)
    (hplaced : ∀ h, r.payload h ≠ none → s.records.payload h ≠ none ∨ 1 ≤ h ∧ h ≤ r.tip)
    (hsettled : ∀ h < s.scanNext, s.records.Settled h → r.Settled h)
    (hclean : ∀ h ∈ s.queued, s.records.finality h = none → r.finality h = none) :
    Moves s { s with records := r } where
  next := rfl
  tip := htip
  placed := hplaced
  scan := fun _ => .inl
  subset := fun _ => id
  nodup := id
  kept := fun _ => .inl
  settled := hsettled
  clean := hclean

/-- A step of the task that leaves the records and the watermark as they are. -/
theorem Moves.hands {missing : List Nat} {phase : Phase}
    (hscan : ∀ tip, phase = .scan tip → tip = s.records.tip)
    (hsub : ∀ h ∈ missing ++ phase.heights, h ∈ s.queued)
    (hnodup : s.queued.Nodup → (missing ++ phase.heights).Nodup)
    (hkept : ∀ h ∈ s.queued, h ∈ missing ++ phase.heights ∨ s.records.Settled h) :
    Moves s { s with missing, phase } where
  next := rfl
  tip := Nat.le_refl _
  placed := fun _ => .inl
  scan := fun tip hphase => .inr (hscan tip hphase)
  subset := hsub
  nodup := hnodup
  kept := hkept
  settled := fun _ _ => id
  clean := fun _ _ => id

theorem moves_app {call : Call} {r : Records} (hr : call.apply s.records = some r)
    (ha : Sound s (.app call)) (hi : Inv s) : Moves s { s with records := r } := by
  cases call with
  | execute payload =>
    rw [Call.apply, Records.execute] at hr
    split at hr
    · cases hr
    cases hr
    refine .records (Nat.le_succ _) (fun h hh => ?_) (fun h hlt hs => ?_) fun _ _ => id
    · by_cases hnew : h = s.records.tip + 1
      · exact .inr (by simp [hnew])
      · exact .inl (by simpa [hnew] using hh)
    · have hnext := hi.next
      have hold : h ≠ s.records.tip + 1 := by omega
      simpa [Records.Settled, hold] using hs
  | finalize height record =>
    cases hr
    refine .records (Nat.le_refl _) (fun _ => .inl) (fun h _ => settled_setBlockFinality)
      fun h hh hnone => ?_
    have hne : h ≠ height := fun heq => ha (heq ▸ hh)
    simpa [Records.setBlockFinality, hne] using hnone
  | pruneSidecars floor =>
    rw [Call.apply] at hr
    split at hr
    · cases hr
      refine .records (Nat.le_refl _) (fun h hh => .inl ?_) (fun h _ hs => ?_) fun _ _ => id
      · exact fun hnone => hh (by simp [Records.pruneSidecars, hnone])
      · exact hs.imp_left fun hnone => by simp [Records.pruneSidecars, hnone]
    · cases hr
  | pruneFinality floor =>
    rw [Call.apply] at hr
    split at hr
    · rename_i hfloor
      cases hr
      refine .records (Nat.le_refl _) (fun _ => .inl) (fun h _ hs => ?_) fun h _ hnone => ?_
      · -- a record that goes away is at or below the new floor
        by_cases hle : h ≤ floor
        · exact .inr (.inr hle)
        · refine hs.imp_right fun hs => .inl ?_
          rcases hs with hfin | hpruned
          · simpa [Records.pruneFinality, hle] using hfin
          · omega
      · simp [Records.pruneFinality, hnone]
    · cases hr

/-- What a scan does: the watermark moves on by a stretch, or stays when the tip was
behind it, and the heights of the stretch are queued. -/
theorem scan_cases {tip : Nat} (hscan : scan s tip = some s') (hr : s.Ready)
    (hphase : s.phase = .scan tip) (hnext : s.scanNext ≤ tip + 1) :
    s'.records = s.records ∧ s'.phase = .repair ∧ s.scanNext ≤ s'.scanNext ∧
      s'.scanNext ≤ tip + 1 ∧ (s.scanNext ≤ tip → s.scanNext < s'.scanNext) ∧
      ∃ found, s'.missing = s.missing ++ found ∧ found.Nodup ∧
        (∀ h ∈ found, s.records.lacks h ∧ h < s'.scanNext ∧
          (s.scanNext ≤ h ∨ tip < s.scanNext ∧ tip - tailWindow ≤ h)) ∧
        ∀ h, s.scanNext ≤ h → h < s'.scanNext → s.records.lacks h → h ∈ found := by
  have hbatch : scanBatch = 8192 := rfl
  have htail : tailWindow = 4096 := rfl
  rw [scan] at hscan
  split at hscan
  · cases hscan
  cases hscan
  simp only [hr.room tip hphase, if_true]
  have hcase : tip < s.scanNext ∧ scanFrom s.scanNext tip = max (tip - tailWindow) 1 ∨
      s.scanNext ≤ tip ∧ scanFrom s.scanNext tip = s.scanNext := by
    rw [scanFrom]
    split
    · exact .inl ⟨by omega, rfl⟩
    · exact .inr ⟨by omega, rfl⟩
  generalize scanFrom s.scanNext tip = next at hcase ⊢
  generalize scanBatch = batch at hbatch ⊢
  generalize tailWindow = window at htail hcase ⊢
  refine ⟨trivial, trivial, by omega, by omega, by omega, _, rfl,
    List.Pairwise.filter _ List.nodup_range', fun h hh => ?_, fun h hge hlt hl => ?_⟩
  · obtain ⟨hmem, hl⟩ := List.mem_filter.mp hh
    have hrange := List.mem_range'_1.mp hmem
    exact ⟨hl, by omega, by omega⟩
  · exact List.mem_filter.mpr ⟨List.mem_range'_1.mpr (by omega), hl⟩

theorem Moves.same {missing : List Nat} {phase : Phase}
    (hscan : ∀ tip, phase = .scan tip → tip = s.records.tip)
    (hsame : missing ++ phase.heights = s.queued) : Moves s { s with missing, phase } :=
  .hands hscan (fun _ hh => hsame ▸ hh) (fun hn => hsame.symm ▸ hn) fun _ hh =>
    .inl (hsame.symm ▸ hh)

/-- The heights taken for repair, without those whose payload is gone. -/
theorem moves_repair (hphase : s.phase = .repair) : Moves s { s with
    missing := s.missing.drop repairBatch
    phase := .store [] ((s.missing.take repairBatch).filterMap fun h =>
      (s.records.payload h).map fun p => (h, p)) } := by
  have hheights : ((s.missing.take repairBatch).filterMap fun h =>
      (s.records.payload h).map fun p => (h, p)).map Prod.fst =
      (s.missing.take repairBatch).filter fun h => (s.records.payload h).isSome := by
    induction s.missing.take repairBatch with
    | nil => rfl
    | cons h rest ih => cases hp : s.records.payload h <;> simp [hp, ih]
  have hqueued : s.queued = s.missing.take repairBatch ++ s.missing.drop repairBatch := by
    rw [State.queued, hphase, List.take_append_drop]
    exact List.append_nil _
  refine .hands nofun (fun h hh => ?_) (fun hn => ?_) fun h hh => ?_
  · rw [Phase.heights, List.map_nil, List.nil_append, hheights] at hh
    rw [hqueued]
    rcases List.mem_append.mp hh with hh | hh
    · exact List.mem_append_right _ hh
    · exact List.mem_append_left _ (List.mem_filter.mp hh).1
  · rw [Phase.heights, List.map_nil, List.nil_append, hheights, List.nodup_append_comm]
    rw [hqueued] at hn
    exact hn.sublist (List.filter_sublist.append_right _)
  · rw [Phase.heights, List.map_nil, List.nil_append, hheights]
    rw [hqueued] at hh
    rcases List.mem_append.mp hh with hh | hh
    · cases hp : s.records.payload h with
      | none => exact .inr (.inl hp)
      | some p => exact .inl (List.mem_append_right _ (List.mem_filter.mpr ⟨hh, by rw [hp]; rfl⟩))
    · exact .inl (List.mem_append_left _ hh)

theorem moves_stored {record : FinalityRecord} {results : List (Nat × Option FinalityRecord)}
    {payloads : List (Nat × Bytes)} {r : Option FinalityRecord} (hi : Inv s)
    (hphase : s.phase = .store ((h, r) :: results) payloads) :
    Moves s { s with
      records := s.records.setBlockFinality h record, phase := .store results payloads } := by
  have hqueued : s.queued = s.missing ++ h :: (Phase.store results payloads).heights := by
    rw [State.queued, hphase]
    rfl
  have hnodup := hi.nodup
  rw [hqueued] at hnodup
  have hsub : (s.missing ++ (Phase.store results payloads).heights).Sublist
      (s.missing ++ h :: (Phase.store results payloads).heights) :=
    (List.sublist_cons_self ..).append_left _
  refine ⟨rfl, Nat.le_refl _, fun _ => .inl, nofun, fun h' hh => ?_, fun _ => ?_,
    fun h' hh => ?_, fun h' _ => settled_setBlockFinality, fun h' hh hnone => ?_⟩
  · exact hqueued ▸ hsub.subset hh
  · exact hnodup.sublist hsub
  · rw [hqueued, List.mem_append, List.mem_cons] at hh
    rcases hh with hh | rfl | hh
    · exact .inl (List.mem_append_left _ hh)
    · exact .inr (.inr (.inl (by simp [Records.setBlockFinality])))
    · exact .inl (List.mem_append_right _ hh)
  · have hne : h' ≠ h := by
      rintro rfl
      exact (List.nodup_middle.mp hnodup).notMem hh
    simpa [Records.setBlockFinality, hne] using hnone

/-- The steps the task makes before its next scan, if that is to pass `h`. -/
def Phase.left (h : Nat) : Phase → Nat
  | .top => 1
  | .scan tip => if tip < h then 3 * repairBatch + 4 else 0
  | .repair => 3 * repairBatch + 3
  | .store results payloads => results.length + 3 * payloads.length + 2

/-- A bound on the steps the task makes before `h` is queued. -/
def State.wait (h : Nat) (s : State) : Nat :=
  (h + 1 - s.scanNext) * (3 * repairBatch + 4) + s.phase.left h

theorem Inv.scanNext_le (hi : Inv s) (hw : s.Waiting h) : s.scanNext ≤ h :=
  Nat.le_of_not_lt fun hlt => hw.2 (hi.complete h hlt hw.1)

theorem Inv.le_tip (hi : Inv s) (hw : s.Waiting h) : 1 ≤ h ∧ h ≤ s.records.tip :=
  hi.placed h fun hnone => hw.1 (.inl hnone)

structure TaskStep (s s' : State) : Prop where
  inv : Inv s'
  kept : ∀ h ∈ s.queued, h ∈ s'.queued ∨ s'.records.Settled h
  finality : ∀ h record, s.records.finality h = some record →
    s'.records.finality h = some record
  closer : ∀ h, s.Waiting h → s'.wait h < s.wait h

theorem Inv.taskStep (hi : Inv s) (hm : Moves s s')
    (hfin : ∀ h record, s.records.finality h = some record → s'.records.finality h = some record)
    (hleft : ∀ h, s.Waiting h → s'.phase.left h < s.phase.left h) : TaskStep s s' where
  inv := hi.moves hm
  kept := hm.kept
  finality := hfin
  closer := fun h hw => by
    rw [State.wait, State.wait, hm.next]
    exact Nat.add_lt_add_left (hleft h hw) _

theorem taskStep_scan {tip : Nat} (hi : Inv s) (hr : s.Ready) (hphase : s.phase = .scan tip)
    (hscan : scan s tip = some s') : TaskStep s s' := by
  obtain ⟨htip, hnext⟩ := hi.scan tip hphase
  obtain ⟨hrecords, hphase', hle, hle', hlt, found, hmissing, hnodup, hfound, hall⟩ :=
    scan_cases hscan hr hphase hnext
  have hold : s.queued = s.missing := by
    rw [State.queued, hphase]
    exact List.append_nil _
  have hnew : s'.queued = s.queued ++ found := by
    rw [State.queued, hphase', hmissing, hold]
    exact List.append_nil _
  refine ⟨⟨hrecords ▸ hi.placed, ?_, ?_, fun h hlt hh => ?_, ?_, fun h hh => ?_, fun h hh => ?_⟩,
    fun h hh => .inl (hnew ▸ List.mem_append_left _ hh), hrecords ▸ fun _ _ => id,
    fun h hw => ?_⟩
  · rw [hrecords]
    omega
  · rw [hphase']
    nofun
  · rw [hrecords] at hh
    rw [hnew, List.mem_append]
    by_cases hlt' : h < s.scanNext
    · exact .inl (hi.complete h hlt' hh)
    · refine .inr (hall h (Nat.le_of_not_lt hlt') hlt (lacks_iff.mpr ⟨fun hnone => ?_, ?_⟩))
      · exact hh (.inl hnone)
      · exact not_not.mp fun hne => hh (.inr (.inl hne))
  · rw [hnew]
    refine List.nodup_append.mpr ⟨hi.nodup, hnodup, fun a ha b hb heq => ?_⟩
    subst heq
    obtain ⟨hl, -, hge | ⟨hlt, hge⟩⟩ := hfound a hb
    · exact absurd (hi.behind a ha) (Nat.not_lt.mpr hge)
    · rw [hr.tail tip hphase hlt a (hold ▸ ha) hge] at hl
      cases hl
  · rw [hnew, List.mem_append] at hh
    rcases hh with hh | hh
    · exact Nat.lt_of_lt_of_le (hi.behind h hh) hle
    · exact (hfound h hh).2.1
  · rw [hnew, List.mem_append] at hh
    rw [hrecords]
    rcases hh with hh | hh
    · exact hi.clean h hh
    · exact (lacks_iff.mp (hfound h hh).1).2
  · have hpassed := hi.scanNext_le hw
    rw [State.wait, State.wait, hphase, hphase', Phase.left, Phase.left, repairBatch]
    split <;> omega

theorem taskStep_store {results : List (Nat × Option FinalityRecord)}
    {payloads : List (Nat × Bytes)} {r : Option FinalityRecord} (ok : Bool) (hi : Inv s)
    (hphase : s.phase = .store ((h, r) :: results) payloads) :
    TaskStep s { storeResult false ok s h r with phase := .store results payloads } := by
  have hleft : ∀ h, s.Waiting h → (Phase.store results payloads).left h < s.phase.left h := by
    intro h _
    rw [hphase, Phase.left, Phase.left, List.length_cons]
    omega
  have hback :
      Moves s { s with missing := s.missing ++ [h], phase := .store results payloads } := by
    refine .same nofun ?_
    rw [State.queued, hphase, List.append_assoc]
    rfl
  rcases r with - | record
  · exact hi.taskStep hback (fun _ _ => id) hleft
  cases ok with
  | false => exact hi.taskStep hback (fun _ _ => id) hleft
  | true =>
    refine hi.taskStep (moves_stored hi hphase) (fun h' record' hrecord => ?_) hleft
    have hmem : h ∈ s.queued := by
      rw [State.queued, hphase]
      exact List.mem_append_right _ (List.mem_cons_self)
    have hne : h' ≠ h := by
      rintro rfl
      rw [hi.clean h' hmem] at hrecord
      cases hrecord
    simpa [storeResult, Records.setBlockFinality, hne] using hrecord

theorem taskStep_of_advance {answers : Nat → List (Option BlockResponse)} {ok : Bool}
    (hstep : advance false answers ok s = some s') (hr : s.Ready) (hi : Inv s) :
    TaskStep s s' := by
  rw [advance.eq_def] at hstep
  split at hstep
  · rename_i hphase
    split at hstep
    · rename_i htip
      cases hstep
      refine hi.taskStep (.same ?_ rfl) (fun _ _ => id) fun h hw => ?_
      · rw [hphase]
        nofun
      · have hpos := hi.le_tip hw
        omega
    · cases hstep
      refine hi.taskStep (.same (fun tip hp => ?_) ?_) (fun _ _ => id) fun h hw => ?_
      · exact (Phase.scan.inj hp).symm
      · rw [State.queued, hphase]
        rfl
      · rw [hphase]
        simp only [Phase.left, if_neg (Nat.not_lt.mpr (hi.le_tip hw).2)]
        exact Nat.one_pos
  · rename_i tip hphase
    exact taskStep_scan hi hr hphase hstep
  · rename_i hphase
    cases hstep
    refine hi.taskStep (moves_repair hphase) (fun _ _ => id) fun h _ => ?_
    have hlen := Nat.le_trans (List.length_filterMap_le
      (fun h => (s.records.payload h).map fun p => (h, p)) (s.missing.take repairBatch))
      (List.length_take_le ..)
    rw [hphase]
    simp only [Phase.left, List.length_nil]
    omega
  · rename_i hphase
    cases hstep
    refine hi.taskStep (.same nofun ?_) (fun _ _ => id) fun h _ => ?_
    · rw [State.queued, hphase]
      rfl
    · rw [hphase]
      exact Nat.one_lt_two
  · rename_i payloads hne hphase
    cases hstep
    refine hi.taskStep (.same nofun ?_) (fun _ _ => id) fun h _ => ?_
    · rw [State.queued, hphase, Phase.heights, Phase.heights, List.map_map]
      exact congrArg _ ((List.map_append ..).symm.trans
        (congrArg _ (List.take_append_drop fetchConcurrency payloads)))
    · have hpos : 0 < payloads.length := List.length_pos_iff.mpr hne
      have hchunk : fetchConcurrency = 16 := rfl
      rw [hphase]
      simp only [Phase.left, List.length_map, List.length_take, List.length_drop, List.length_nil]
      omega
  · rename_i h r results payloads hphase
    cases hstep
    exact taskStep_store ok hi hphase

end Steps

/-! ## Runs -/

section Runs

variable {s₀ s s' : State} {acts : List Action} {h : Nat}

theorem inv_step {a : Action} (hstep : step false s a = some s') (ha : Sound s a) (hi : Inv s) :
    Inv s' := by
  cases a with
  | app call =>
    obtain ⟨r, hr, rfl⟩ := Option.map_eq_some_iff.mp hstep
    exact hi.moves (moves_app hr ha hi)
  | task answers ok => exact (taskStep_of_advance hstep ha hi).inv

theorem Run.inv {P : State → Action → Prop} (hrun : Run false P s₀ acts s)
    (hP : ∀ s a, P s a → Sound s a) (hi : Inv s₀) : Inv s := by
  induction hrun with
  | start => exact hi
  | step _ ha hstep ih => exact inv_step hstep (hP _ _ ha) ih

/-- The task makes no more steps than `wait` while a height waits. -/
theorem Run.count_add_wait_le
    (hrun : Run false (fun s a => Sound s a ∧ s.Waiting h) s₀ acts s) (hi : Inv s₀) :
    acts.countP Action.isTask + s.wait h ≤ s₀.wait h := by
  induction hrun with
  | start => exact Nat.le_of_eq (Nat.zero_add _)
  | @step acts s s' a hrun ha hstep ih =>
    have hinv := hrun.inv (fun _ _ => And.left) hi
    cases a with
    | app call =>
      -- neither the watermark nor the phase changes
      obtain ⟨r, hr, rfl⟩ := Option.map_eq_some_iff.mp hstep
      exact ih
    | task answers ok =>
      have hlt := (taskStep_of_advance hstep ha.1 hinv).closer h ha.2
      rw [List.countP_cons_of_pos rfl]
      omega

theorem Run.append {dryRun : Bool} (hrun : Run dryRun (fun _ _ => True) s₀ acts s)
    {later : List Action} (hlater : later.foldlM (Backfill.step dryRun) s = some s') :
    ∃ acts', Run dryRun (fun _ _ => True) s₀ acts' s' := by
  induction later generalizing acts s with
  | nil => exact ⟨acts, Option.some.inj hlater ▸ hrun⟩
  | cons a rest ih =>
    obtain ⟨s₁, hstep, hrest⟩ := Option.bind_eq_some_iff.mp hlater
    exact ih (hrun.step trivial hstep) hrest

/-- As long as the heights are far from the end of their type, the task can go on. -/
theorem Inv.advance_isSome (hi : Inv s) (htip : s.records.tip + scanBatch < u64Max)
    (answers : Nat → List (Option BlockResponse)) (ok : Bool) :
    (advance false answers ok s).isSome := by
  rw [advance.eq_def]
  split
  case h_2 tip hphase =>
    obtain ⟨hle, hnext⟩ := hi.scan tip hphase
    have hfrom : scanFrom s.scanNext tip ≤ tip + 1 := by
      rw [scanFrom]
      split <;> omega
    rw [Backfill.scan, if_neg (by omega)]
    rfl
  case h_1 => split <;> rfl
  all_goals rfl

end Runs

/-! ## The result -/

/-- **Backfill.** From payloads without a hole, in a run of sound steps that is not a dry
run: no height is queued twice; a queued height stays so until it is repaired or pruned;
the task replaces no record; a height with a payload and no record is queued, repaired or
pruned before the task has made more than `wait` steps, and the task can go on. -/
theorem backfill_complete {r : Records} {s : State} {acts : List Action} (hplaced : r.Placed)
    (hcontiguous : r.Contiguous) (hrun : Run false Sound (.start r) acts s) :
    s.queued.Nodup ∧
    (∀ a s', Sound s a → step false s a = some s' →
      (∀ h ∈ s.queued, h ∈ s'.queued ∨ s'.records.Settled h) ∧
      (a.isTask → ∀ h record, s.records.finality h = some record →
        s'.records.finality h = some record)) ∧
    (∀ h later s', Run false (fun s a => Sound s a ∧ s.Waiting h) s later s' →
      later.countP Action.isTask ≤ s.wait h) ∧
    (s.records.tip + scanBatch < u64Max → ∀ answers ok,
      (step false s (.task answers ok)).isSome) := by
  have hi := hrun.inv (fun _ _ => id) (inv_start hplaced hcontiguous)
  refine ⟨hi.nodup, fun a s' ha hstep => ?_, fun h later s' hlater => ?_, hi.advance_isSome⟩
  · cases a with
    | app call =>
      obtain ⟨r, hr, rfl⟩ := Option.map_eq_some_iff.mp hstep
      exact ⟨(moves_app hr ha hi).kept, nofun⟩
    | task answers ok =>
      have ht := taskStep_of_advance hstep ha hi
      exact ⟨ht.kept, fun _ => ht.finality⟩
  · exact Nat.le_of_add_right_le (hlater.count_add_wait_le hi)

/-- A block without its record. -/
def oneBlock : Records := ⟨1, fun h => if h = 1 then some [1] else none, fun _ => none, 0, 0⟩

theorem start_oneBlock : State.start oneBlock = ⟨oneBlock, 1, [], .top⟩ := by
  simp [State.start, payloadFloor, oneBlock, floorSearch]

/-- With the watermark at the block or past it, a scan queues the block. -/
theorem scan_oneBlock {n : Nat} {missing : List Nat} (hn : n = 1 ∨ n = 2)
    (hroom : missing.length < missingCap) :
    step false ⟨oneBlock, n, missing, .scan 1⟩ (.task (fun _ => []) true) =
      some ⟨oneBlock, 2, missing ++ [1], .repair⟩ := by
  rcases hn with rfl | rfl <;>
    simp [step, advance, scan, scanFrom, scanBatch, tailWindow, u64Max, hroom, Records.lacks,
      oneBlock]

theorem backfill_complete_oneBlock : ∃ later s,
    Run false (fun s a => Sound s a ∧ s.Waiting 1) (.start oneBlock) later s ∧
      s.queued = [1] ∧ later.countP Action.isTask ≤ (State.start oneBlock).wait 1 := by
  have hone : ∀ h, oneBlock.payload h ≠ none → h = 1 := fun h hh => by
    by_contra hne
    exact hh (if_neg hne)
  have hplaced : oneBlock.Placed := fun h hh => by
    rw [hone h hh]
    decide
  have hcontiguous : oneBlock.Contiguous := fun _ a b hab hb ha => by
    obtain rfl : b = 1 := Nat.le_antisymm hb (hone a (Option.isSome_iff_ne_none.mp ha) ▸ hab)
    rfl
  have hgap : ¬ oneBlock.Settled 1 := by simp [Records.Settled, oneBlock]
  have hrun : Run false (fun s a => Sound s a ∧ s.Waiting 1) (.start oneBlock)
      [.task (fun _ => []) true, .task (fun _ => []) true] ⟨oneBlock, 2, [1], .repair⟩ := by
    rw [start_oneBlock]
    refine .step (.step .start ⟨⟨nofun, nofun⟩, hgap, nofun⟩ rfl)
      ⟨⟨fun _ _ => ?_, fun _ hp hlt => ?_⟩, hgap, nofun⟩ (scan_oneBlock (.inl rfl) (by decide))
    · decide
    · cases hp
      exact absurd hlt (Nat.lt_irrefl 1)
  exact ⟨_, _, hrun, rfl, (backfill_complete hplaced hcontiguous .start).2.2.1 1 _ _ hrun⟩

def donorAnswer : BlockResponse := ⟨[2], [3], [1], 4⟩

/-- With no donor the height is put back, and the next scan queues it once more. With a
donor, a record the executor stored after the scan is replaced. -/
theorem backfill_requeues :
    (∃ acts s, Run false (fun _ _ => True) (.start oneBlock) acts s ∧ s.missing = [1, 1]) ∧
    ∃ acts s s' answers, Run false (fun _ _ => True) (.start oneBlock) acts s ∧
      step false s (.task answers true) = some s' ∧
      s.records.finality 1 = some ⟨[5], [6], 7⟩ ∧ s'.records.finality 1 = some ⟨[2], [3], 4⟩ := by
  rw [start_oneBlock]
  have hscan : Run false (fun _ _ => True) ⟨oneBlock, 1, [], .top⟩ _ ⟨oneBlock, 2, [1], .repair⟩ :=
    .step (a := .task (fun _ => []) true) (.step (a := .task (fun _ => []) true) .start trivial rfl)
      trivial (scan_oneBlock (.inl rfl) (by decide))
  constructor
  · have hcycle : (List.replicate 5 (.task (fun _ => []) true)).foldlM (step false)
        ⟨oneBlock, 2, [1], .repair⟩ = some ⟨oneBlock, 2, [1], .scan 1⟩ := rfl
    obtain ⟨acts, hback⟩ := hscan.append hcycle
    exact ⟨_, _, hback.step (a := .task (fun _ => []) true) trivial
      (scan_oneBlock (.inr rfl) (by decide)), rfl⟩
  · have hlate : [.app (.finalize 1 ⟨[5], [6], 7⟩), .task (fun _ => []) true,
        .task (fun _ => [some donorAnswer]) true].foldlM (step false)
        ⟨oneBlock, 2, [1], .repair⟩ = some ⟨_, _, _, .store [(1, _)] []⟩ := rfl
    obtain ⟨acts, hfetched⟩ := hscan.append hlate
    exact ⟨acts, _, _, fun _ => [], hfetched, rfl, rfl, rfl⟩

end LayerSdk.Backfill
