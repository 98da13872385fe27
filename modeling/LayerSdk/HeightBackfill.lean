import LayerSdk.PayloadChannel

/-!
# Backfill by height

A tick asks the peers for the first missing heights above the executed tip. The missing
heights are compressed to runs, a budget cuts the runs, and a run is sent in batches. What
is sent covers the heights exactly (`scan_heights`, `spend_answer`), unless a sum on the way
is more than `u64::MAX`.
-/

namespace LayerSdk.HeightBackfill

def backfillMaxSpan : Nat := 540000

def backfillTickBudget : Nat := 128

/-- Times are in nanoseconds. -/
def heightReaskAfter : Nat := 2000000000

def solicitedHeightTtl : Nat := 30000000000

/-- `FetchRequest::HeightRange`. -/
structure HeightRange where
  start : Nat
  count : UInt16

def HeightRange.heights (m : HeightRange) : List Nat := List.range' m.start m.count.toNat

/-- What a tick reads: the node, and the clock when it drops old marks, when it looks at the
mark of a height, and when it marks a range. -/
structure Seen where
  tip : Nat
  maxSeenHeight : Nat
  pending : List Nat
  containsHeight : Nat → Bool
  retainedAt : Nat
  lookedAt : Nat → Nat
  markedAt : Nat → Nat
  monotonic : ∀ h, retainedAt ≤ lookedAt h

/-- The marks of the requested heights, and what was sent if there is a channel. -/
structure Fetches where
  requestedHeights : Std.ExtTreeMap Nat Nat
  fetchTx : Option (List HeightRange)

/-- The loop that sends; the last message takes what remains. -/
def batches (start remaining : Nat) : List HeightRange :=
  if remaining = 0 then []
  else
    let n := min remaining backfillBatchSize
    ⟨start, UInt16.ofNat n⟩ :: batches (start + n) (remaining - n)
termination_by remaining
decreasing_by
  simp only [backfillBatchSize]
  omega

/-- `none` is the overflow of `start + count`. -/
def requestHeightRange (now start count : Nat) (f : Fetches) : Option Fetches :=
  if count = 0 then some f
  else if start + count > u64Max then none
  else
    some
      { requestedHeights :=
          (List.range' start count).foldl (fun req h => req.insert h now) f.requestedHeights
        fetchTx := f.fetchTx.map (· ++ batches start count) }

/-- The runs of needed heights, with the one that is open. -/
def scan (need : Nat → Bool) (target : Nat) : List Nat → Option Nat → List (Nat × Nat)
  | [], none => []
  | [], some start => [(start, target - start + 1)]
  | h :: rest, runStart =>
    match need h, runStart with
    | true, none => scan need target rest (some h)
    | false, some start => (start, h - start) :: scan need target rest none
    | _, _ => scan need target rest runStart

/-- The loop over the runs. -/
def spend (markedAt : Nat → Nat) : Nat → List (Nat × Nat) → Fetches → Option Fetches
  | _, [], f => some f
  | budget, (start, count) :: runs, f =>
    if budget = 0 then some f
    else
      let n := min count budget
      (requestHeightRange (markedAt start) start n f).bind (spend markedAt (budget - n) runs)

def Seen.held (v : Seen) (h : Nat) : Bool := v.pending.contains h || v.containsHeight h

def Seen.inFlight (v : Seen) (req : Std.ExtTreeMap Nat Nat) (h : Nat) : Bool :=
  req[h]?.any fun t => v.lookedAt h - t < heightReaskAfter

def Seen.need (v : Seen) (req : Std.ExtTreeMap Nat Nat) (h : Nat) : Bool :=
  !v.held h && !v.inFlight req h

/-- The second half of `backfill_tick`; `none` is an overflow. -/
def backfillTick (v : Seen) (f : Fetches) : Option Fetches :=
  if v.tip + backfillMaxSpan > u64Max then none
  else
    let target := min v.maxSeenHeight (v.tip + backfillMaxSpan)
    if target ≤ v.tip then some f
    else
      let req := f.requestedHeights.filter fun _ t => v.retainedAt - t < solicitedHeightTtl
      let runs := scan (v.need req) target (List.range' (v.tip + 1) (target - v.tip)) none
      spend v.markedAt backfillTickBudget runs { f with requestedHeights := req }

/-- The heights between the tip and the target that are neither held nor asked for of late. -/
def Seen.missing (v : Seen) (marks : Std.ExtTreeMap Nat Nat) : List Nat :=
  (List.range' (v.tip + 1) (min v.maxSeenHeight (v.tip + backfillMaxSpan) - v.tip)).filter
    (v.need marks)

/-- The messages cover the heights in order, with no more than a batch in each. -/
structure Covers (msgs : List HeightRange) (heights : List Nat) : Prop where
  heights : msgs.flatMap HeightRange.heights = heights
  small : ∀ m ∈ msgs, m.count.toNat ≤ backfillBatchSize

theorem Covers.nil : Covers [] [] := ⟨rfl, nofun⟩

theorem Covers.append {a b : List HeightRange} {x y : List Nat} (ha : Covers a x)
    (hb : Covers b y) : Covers (a ++ b) (x ++ y) :=
  ⟨by rw [List.flatMap_append, ha.heights, hb.heights],
    fun m hm => (List.mem_append.mp hm).elim (ha.small m) (hb.small m)⟩

theorem batches_covers (start remaining : Nat) :
    Covers (batches start remaining) (List.range' start remaining) := by
  fun_induction batches start remaining with
  | case1 start => exact .nil
  | case2 start remaining hmore n ih =>
    have hle : n ≤ backfillBatchSize := Nat.min_le_right ..
    have hcount : (UInt16.ofNat n).toNat = n := UInt16.toNat_ofNat_of_lt' (by
      exact Nat.lt_of_le_of_lt hle (by decide))
    have hfirst : Covers [⟨start, UInt16.ofNat n⟩] (List.range' start n) :=
      ⟨by simp [HeightRange.heights, hcount], by simpa [hcount] using hle⟩
    have hsplit : List.range' start remaining =
        List.range' start n ++ List.range' (start + n) (remaining - n) := by
      rw [List.range'_append_1, Nat.add_sub_cancel' (Nat.min_le_left ..)]
    rw [hsplit]
    exact hfirst.append ih

def runHeights (runs : List (Nat × Nat)) : List Nat := runs.flatMap fun r => List.range' r.1 r.2

/-- The heights of the open run. -/
def openHeights (h : Nat) : Option Nat → List Nat
  | none => []
  | some start => List.range' start (h - start)

/-- By induction on the heights that are left: the runs are the open one and what is needed. -/
theorem scan_heights (need : Nat → Bool) {target n h : Nat} (runStart : Option Nat)
    (htarget : target + 1 = h + n) (hopen : ∀ start, runStart = some start → start < h) :
    runHeights (scan need target (List.range' h n) runStart) =
      openHeights h runStart ++ (List.range' h n).filter need := by
  induction n generalizing h runStart with
  | zero =>
    cases runStart with
    | none => rfl
    | some start =>
      have hstart := hopen start rfl
      have hcount : target - start + 1 = h - start := by omega
      simp [scan, runHeights, openHeights, hcount]
  | succ n ih =>
    have hnext : target + 1 = h + 1 + n := by omega
    rw [List.range'_succ]
    cases hneed : need h with
    | false =>
      have hrest := ih none hnext nofun
      cases runStart with
      | none => simpa [scan, hneed, openHeights] using hrest
      | some start => simpa [scan, hneed, runHeights, openHeights] using hrest
    | true =>
      cases runStart with
      | none =>
        have hrest := ih (some h) hnext (by simp)
        simpa [scan, hneed, openHeights] using hrest
      | some start =>
        have hle : start ≤ h := Nat.le_of_lt (hopen start rfl)
        have hrest := ih (some start) hnext (by simp; omega)
        simpa [scan, hneed, openHeights, Nat.succ_sub hle, List.range'_concat, hle] using hrest

theorem take_run (start count budget : Nat) (rest : List Nat) :
    (List.range' start count ++ rest).take budget =
      List.range' start (min count budget) ++ rest.take (budget - min count budget) := by
  have hrest : budget - min count budget = budget - count := by omega
  rw [hrest, Nat.min_comm]
  simp [List.take_append, List.range'_eq_map_range, ← List.map_take, List.take_range]

/-- How a request for some heights ends. -/
inductive Answer (tx : Option (List HeightRange)) (heights : List Nat) : Option Fetches → Prop
  | overflows (hlast : u64Max ∈ heights) : Answer tx heights none
  | covers {f : Fetches} {msgs : List HeightRange} (hlast : u64Max ∉ heights)
      (hsent : f.fetchTx = tx.map (· ++ msgs)) (hcovers : Covers msgs heights) :
      Answer tx heights (some f)

variable {start count : Nat} {f : Fetches}

/-- Nothing to ask for. -/
theorem Answer.nothing : Answer f.fetchTx [] (some f) := .covers nofun (by simp) .nil

theorem requestHeightRange_answer (now : Nat) (hle : ∀ h ∈ List.range' start count, h ≤ u64Max) :
    Answer f.fetchTx (List.range' start count) (requestHeightRange now start count f) := by
  rw [requestHeightRange]
  split
  · next hzero => exact hzero ▸ .nothing
  · next hpos =>
    have hlast := hle (start + count - 1) (List.mem_range'_1.mpr (by omega))
    split
    · exact .overflows (List.mem_range'_1.mpr (by omega))
    · next hfits =>
      refine .covers (fun hmem => ?_) rfl (batches_covers start count)
      rw [List.mem_range'_1] at hmem
      omega

/-- By induction on the runs. -/
theorem spend_answer (markedAt : Nat → Nat) (budget : Nat) (runs : List (Nat × Nat))
    (hle : ∀ h ∈ runHeights runs, h ≤ u64Max) :
    Answer f.fetchTx ((runHeights runs).take budget) (spend markedAt budget runs f) := by
  induction runs generalizing budget f with
  | nil =>
    rw [spend, runHeights, List.flatMap_nil, List.take_nil]
    exact .nothing
  | cons run runs ih =>
    obtain ⟨start, count⟩ := run
    by_cases hzero : budget = 0
    · rw [spend, if_pos hzero, hzero, List.take_zero]
      exact .nothing
    have hrun : runHeights ((start, count) :: runs) = List.range' start count ++ runHeights runs :=
      List.flatMap_cons
    rw [hrun] at hle
    have hhead : ∀ h ∈ List.range' start (min count budget), h ≤ u64Max := by
      intro h hh
      refine hle h (List.mem_append_left _ ?_)
      rw [List.mem_range'_1] at hh ⊢
      omega
    rw [spend, if_neg hzero, hrun, take_run]
    have hfirst := requestHeightRange_answer (f := f) (markedAt start) hhead
    dsimp only
    generalize requestHeightRange (markedAt start) start (min count budget) f = r at hfirst ⊢
    cases hfirst with
    | overflows hlast => exact .overflows (List.mem_append_left _ hlast)
    | @covers f₁ _ hlast hsent₁ hcovers₁ =>
      have hrest := ih (f := f₁) (budget - min count budget)
        fun h hh => hle h (List.mem_append_right _ hh)
      rw [Option.bind_some]
      generalize spend markedAt (budget - min count budget) runs f₁ = r at hrest ⊢
      cases hrest with
      | overflows hlast => exact .overflows (List.mem_append_right _ hlast)
      | covers hlast' hsent hcovers =>
        refine .covers (fun hmem => ?_) ?_ (hcovers₁.append hcovers)
        · exact (List.mem_append.mp hmem).elim hlast hlast'
        · simp [hsent, hsent₁, Function.comp_def]

/-- A mark that is dropped was not of late. -/
theorem need_retained (v : Seen) (marks : Std.ExtTreeMap Nat Nat) :
    v.need (marks.filter fun _ t => v.retainedAt - t < solicitedHeightTtl) = v.need marks := by
  funext h
  have hmono := v.monotonic h
  have hlate : (fun t => decide (v.retainedAt - t < solicitedHeightTtl) &&
      decide (v.lookedAt h - t < heightReaskAfter)) = fun t =>
        decide (v.lookedAt h - t < heightReaskAfter) := by
    funext t
    rw [← Bool.decide_and, decide_eq_decide, solicitedHeightTtl, heightReaskAfter]
    omega
  rw [Seen.need, Seen.need, Seen.inFlight, Seen.inFlight, Std.ExtTreeMap.getElem?_filter',
    Option.any_filter, hlate]

/-- A tick asks for exactly the first missing heights, in ascending order and in batches, if and
only if the tip is not within the span of `u64::MAX` and that is not one of the heights. -/
theorem backfillTick_iff (v : Seen) (f : Fetches) :
    (∃ f' msgs, backfillTick v f = some f' ∧ f'.fetchTx = f.fetchTx.map (· ++ msgs) ∧
      Covers msgs ((v.missing f.requestedHeights).take backfillTickBudget) ∧
      (msgs.flatMap HeightRange.heights).Pairwise (· < ·)) ↔
      v.tip + backfillMaxSpan ≤ u64Max ∧
        u64Max ∉ (v.missing f.requestedHeights).take backfillTickBudget := by
  obtain ⟨marks, tx⟩ := f
  have hsorted : ((v.missing marks).take backfillTickBudget).Pairwise (· < ·) :=
    ((List.pairwise_lt_range' 1).filter _).sublist (List.take_sublist ..)
  by_cases hspan : v.tip + backfillMaxSpan > u64Max
  · simp only [backfillTick, if_pos hspan]
    exact ⟨nofun, fun h => absurd h.1 (Nat.not_le.mpr hspan)⟩
  have hanswer : Answer tx ((v.missing marks).take backfillTickBudget)
      (backfillTick v ⟨marks, tx⟩) := by
    rw [backfillTick, if_neg hspan, Seen.missing]
    have htarget := Nat.min_le_right v.maxSeenHeight (v.tip + backfillMaxSpan)
    generalize min v.maxSeenHeight (v.tip + backfillMaxSpan) = target at htarget
    dsimp only
    split
    · next hnone =>
      rw [Nat.sub_eq_zero_of_le hnone]
      exact Answer.nothing (f := ⟨_, tx⟩)
    · next hsome =>
      have hruns := scan_heights (v.need marks) none
        (show target + 1 = v.tip + 1 + (target - v.tip) by omega) nofun
      rw [openHeights, List.nil_append] at hruns
      rw [need_retained, ← hruns]
      refine spend_answer (f := ⟨_, tx⟩) _ _ _ fun h hh => ?_
      rw [hruns, List.mem_filter, List.mem_range'_1] at hh
      omega
  generalize backfillTick v ⟨marks, tx⟩ = r at hanswer
  cases hanswer with
  | overflows hlast => exact ⟨nofun, fun h => absurd hlast h.2⟩
  | covers hlast hsent hcovers =>
    exact ⟨fun _ => ⟨Nat.not_lt.mp hspan, hlast⟩,
      fun _ => ⟨_, _, rfl, hsent, hcovers, hcovers.heights.symm ▸ hsorted⟩⟩

/-- Just below `u64::MAX` a tick panics with the last height missing. -/
theorem backfillTick_overflows : ∃ v : Seen, v.missing ∅ = [u64Max] ∧
    backfillTick v ⟨∅, some []⟩ = none := by
  refine ⟨⟨u64Max - 1, u64Max, [], fun _ => false, 0, fun _ => 0, fun _ => 0,
    fun _ => Nat.le_refl 0⟩, ?_, ?_⟩
  · simp [Seen.missing, Seen.need, Seen.held, Seen.inFlight, u64Max, backfillMaxSpan]
  · simp [backfillTick, u64Max, backfillMaxSpan]

end LayerSdk.HeightBackfill
