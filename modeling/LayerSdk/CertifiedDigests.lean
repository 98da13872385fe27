import LayerSdk.Sha256
import Mathlib.Data.List.Nodup
import Mathlib.Logic.Function.Basic

/-!
# The queue of certified digests

The digests of finalized payloads that the node does not hold. Consensus adds to the
queue, the execution of a block takes from it, and a periodic tick asks peers for what
is left. The tick copies the queue, looks at one digest after the other and takes the
lock again at the end, so the other two act between any two of its steps.

What the queue is to keep it keeps over a step exactly when the step brings no digest that
is queued already and notes none that has left the queue (`step_kept_iff`).
-/

namespace LayerSdk

def certifiedDigestBudget : Nat := 32

def certifiedDigestQueueCap : Nat := 8192

/-- In nanoseconds. -/
def digestReaskAfter : Nat := 2000000000

structure CertifiedDigests where
  queue : List Digest
  lastRequested : Digest → Option Nat

namespace CertifiedDigests

variable (c : CertifiedDigests)

/-- The oldest digest makes room in a full queue. -/
def makeRoom : CertifiedDigests :=
  if certifiedDigestQueueCap ≤ c.queue.length then
    match c.queue with
    | [] => c
    | dropped :: rest => ⟨rest, Function.update c.lastRequested dropped none⟩
  else c

def push (digest : Digest) : CertifiedDigests :=
  { c.makeRoom with queue := c.makeRoom.queue ++ [digest] }

def markResolved (digest : Digest) : CertifiedDigests where
  queue :=
    if c.queue.head? = some digest then c.queue.tail else c.queue.filter (· ≠ digest)
  lastRequested := Function.update c.lastRequested digest none

def readyToRequest (now : Nat) (digest : Digest) : Bool :=
  match c.lastRequested digest with
  | none => true
  | some t => decide (digestReaskAfter ≤ now - t)

def noteRequested (now : Nat) (digest : Digest) : CertifiedDigests :=
  { c with lastRequested := Function.update c.lastRequested digest (some now) }

/-! ## What the queue is to keep -/

structure WellKept : Prop where
  bounded : c.queue.length ≤ certifiedDigestQueueCap
  nodup : c.queue.Nodup
  requested : ∀ d, c.lastRequested d ≠ none → d ∈ c.queue

variable {c}

/-- In a queue without copies the two ways of `markResolved` are one. -/
theorem markResolved_queue (h : c.queue.Nodup) (digest : Digest) :
    (c.markResolved digest).queue = c.queue.filter (· ≠ digest) := by
  show ite _ _ _ = _
  split
  · next hhead =>
    obtain ⟨rest, hqueue⟩ := List.head?_eq_some_iff.mp hhead
    rw [hqueue, List.nodup_cons] at h
    rw [hqueue, List.tail_cons, List.filter_cons_of_neg (by simp), List.filter_eq_self.mpr]
    intro d hd
    exact decide_eq_true fun heq => h.1 (heq ▸ hd)
  · rfl

namespace WellKept

theorem makeRoom (h : c.WellKept) :
    c.makeRoom.WellKept ∧ c.makeRoom.queue.length < certifiedDigestQueueCap := by
  rw [CertifiedDigests.makeRoom]
  split
  · next hfull =>
    obtain ⟨queue, lastRequested⟩ := c
    cases queue with
    | nil => cases hfull
    | cons dropped rest =>
      refine ⟨⟨Nat.le_of_succ_le h.bounded, h.nodup.of_cons, ?_⟩, h.bounded⟩
      intro d hd
      have hne : d ≠ dropped := by
        rintro rfl
        exact hd (Function.update_self ..)
      have hmem := h.requested d (by simpa [hne] using hd)
      exact (List.mem_cons.mp hmem).resolve_left hne
  · next hroom => exact ⟨h, Nat.lt_of_not_le hroom⟩

theorem push_iff (h : c.WellKept) (digest : Digest) :
    (c.push digest).WellKept ↔ digest ∉ c.makeRoom.queue := by
  obtain ⟨hkept, hroom⟩ := h.makeRoom
  constructor
  · intro hpush hmem
    exact (List.nodup_append.mp hpush.nodup).2.2 digest hmem digest (List.mem_singleton_self _) rfl
  · intro hnew
    refine ⟨?_, ?_, fun d hd => List.mem_append_left _ (hkept.requested d hd)⟩
    · simpa [push] using Nat.succ_le_of_lt hroom
    · simpa [push, List.nodup_append] using ⟨hkept.nodup, fun d hd heq => hnew (heq ▸ hd)⟩

theorem markResolved (h : c.WellKept) (digest : Digest) : (c.markResolved digest).WellKept := by
  have hqueue := markResolved_queue h.nodup digest
  refine ⟨?_, hqueue ▸ h.nodup.filter _, ?_⟩
  · rw [hqueue]
    exact Nat.le_trans (List.length_filter_le ..) h.bounded
  · intro d hd
    have hne : d ≠ digest := by
      rintro rfl
      exact hd (Function.update_self ..)
    have hmem := h.requested d (by simpa [CertifiedDigests.markResolved, hne] using hd)
    simpa [hqueue] using ⟨hmem, hne⟩

theorem markAll (h : c.WellKept) (ds : List Digest) :
    (ds.foldl CertifiedDigests.markResolved c).WellKept ∧
      ∀ d, d ∈ (ds.foldl CertifiedDigests.markResolved c).queue ↔ d ∈ c.queue ∧ d ∉ ds := by
  induction ds generalizing c with
  | nil => exact ⟨h, fun d => by simp⟩
  | cons digest ds ih =>
    refine ⟨(ih (h.markResolved digest)).1, fun d => ?_⟩
    rw [List.foldl_cons, (ih (h.markResolved digest)).2, markResolved_queue h.nodup]
    simp [and_assoc]

end WellKept

/-- Notes leave the queue alone. -/
theorem noteAll_spec (now : Digest → Nat) (ds : List Digest) (c : CertifiedDigests) :
    (ds.foldl (fun c d => c.noteRequested (now d) d) c).queue = c.queue ∧
      ∀ d, (ds.foldl (fun c d => c.noteRequested (now d) d) c).lastRequested d ≠ none ↔
        c.lastRequested d ≠ none ∨ d ∈ ds := by
  induction ds generalizing c with
  | nil => exact ⟨rfl, fun d => by simp⟩
  | cons digest ds ih =>
    obtain ⟨hqueue, hrequested⟩ := ih (c.noteRequested (now digest) digest)
    refine ⟨hqueue, fun d => (hrequested d).trans ?_⟩
    by_cases hd : d = digest <;> simp [noteRequested, hd]

theorem WellKept.noteAll_iff (h : c.WellKept) (now : Digest → Nat) (ds : List Digest) :
    (ds.foldl (fun c d => c.noteRequested (now d) d) c).WellKept ↔ ∀ d ∈ ds, d ∈ c.queue := by
  obtain ⟨hqueue, hrequested⟩ := noteAll_spec now ds c
  constructor
  · intro hkept d hd
    exact hqueue ▸ hkept.requested d ((hrequested d).mpr (.inr hd))
  · intro hqueued
    refine ⟨hqueue ▸ h.bounded, hqueue ▸ h.nodup, fun d hd => ?_⟩
    rw [hqueue]
    exact ((hrequested d).mp hd).elim (h.requested d) (hqueued d)

/-! ## The node around the queue -/

/-- A tick: what is left of its copy of the queue, and what it has found so far. -/
structure Tick where
  todo : List Digest
  resolved : List Digest
  toRequest : List Digest

structure State where
  certified : CertifiedDigests
  tick : Option Tick

def start : State := ⟨⟨[], fun _ => none⟩, none⟩

/-- One section under the lock of the queue, with what `lookup_payload` answered before it
and the instants it reads. -/
inductive Action where
  | noteFinalized (digest : Digest) (held : Bool)
  /-- `finalize` has executed the block, or found it executed. -/
  | finalize (digest : Digest)
  | snapshot
  | check (held : Bool) (now : Nat)
  | settle (now : Digest → Nat)

def checkNext (certified : CertifiedDigests) (held : Bool) (now : Nat) (digest : Digest)
    (t : Tick) : Tick :=
  if held then { t with resolved := t.resolved ++ [digest] }
  else if certifiedDigestBudget ≤ t.toRequest.length then { t with todo := [] }
  else if certified.readyToRequest now digest then
    { t with toRequest := t.toRequest ++ [digest] }
  else t

/-- There is one task of `backfill_tick`, so a tick begins when the last one has ended. -/
def step (s : State) : Action → Option State
  | .noteFinalized digest held =>
    some (if held then s else { s with certified := s.certified.push digest })
  | .finalize digest => some { s with certified := s.certified.markResolved digest }
  | .snapshot =>
    match s.tick with
    | none => some { s with tick := some ⟨s.certified.queue, [], []⟩ }
    | some _ => none
  | .check held now =>
    match s.tick with
    | some ⟨digest :: todo, resolved, toRequest⟩ =>
      some { s with
        tick := some (checkNext s.certified held now digest ⟨todo, resolved, toRequest⟩) }
    | _ => none
  | .settle now =>
    match s.tick with
    | some ⟨[], resolved, toRequest⟩ =>
      let marked := resolved.foldl CertifiedDigests.markResolved s.certified
      some ⟨toRequest.foldl (fun c d => c.noteRequested (now d) d) marked, none⟩
    | _ => none

/-- `P` holds of every step of a schedule, up to an action that is not possible. -/
def Along (P : State → Action → State → Prop) : State → List Action → Prop
  | _, [] => True
  | s, a :: rest => ∀ s', step s a = some s' → P s a s' ∧ Along P s' rest

/-- The digests that a step gives to `mark_resolved`. -/
def marked (s : State) : Action → List Digest
  | .finalize digest => [digest]
  | .settle _ => (s.tick.map Tick.resolved).getD []
  | _ => []

def Kept (s : State) (a : Action) (s' : State) : Prop :=
  s'.certified.WellKept ∧ ∀ d ∈ marked s a, d ∉ s'.certified.queue

/-- A digest that is pushed is not in the queue; one that is noted still is. -/
def Timely (s : State) : Action → State → Prop
  | .noteFinalized digest false, _ => digest ∉ s.certified.makeRoom.queue
  | .settle _, _ => ∀ t ∈ s.tick, ∀ d ∈ t.toRequest, d ∈ s.certified.queue ∧ d ∉ t.resolved
  | _, _ => True

theorem step_kept_iff {s s' : State} {a : Action} (h : s.certified.WellKept)
    (hstep : step s a = some s') : Kept s a s' ↔ Timely s a s' := by
  cases a with
  | noteFinalized digest held =>
    cases hstep
    cases held with
    | true => simpa [Kept, Timely, marked] using h
    | false => simpa [Kept, Timely, marked] using h.push_iff digest
  | finalize digest =>
    cases hstep
    simpa [Kept, Timely, marked, markResolved_queue h.nodup] using h.markResolved digest
  | snapshot | check =>
    have hsame : s'.certified = s.certified := by
      simp only [step] at hstep
      split at hstep <;> cases hstep
      rfl
    simpa [Kept, Timely, marked, hsame] using h
  | settle now =>
    simp only [step] at hstep
    split at hstep
    · next resolved toRequest htick =>
      cases hstep
      obtain ⟨hkept, hmem⟩ := h.markAll resolved
      have hgone : ∀ d ∈ resolved, d ∉ (resolved.foldl CertifiedDigests.markResolved
          s.certified).queue := fun d hd hq => ((hmem d).mp hq).2 hd
      simpa [Kept, Timely, marked, htick, hkept.noteAll_iff, noteAll_spec, hmem] using
        fun _ => hgone
    · cases hstep

/-- Along a schedule the queue stays within its cap and free of copies, a resolved digest is
gone from it and a noted one is in it, exactly when every step is timely. -/
theorem kept_iff_timely (actions : List Action) :
    Along Kept start actions ↔ Along Timely start actions := by
  suffices hall : ∀ s : State, s.certified.WellKept →
      (Along Kept s actions ↔ Along Timely s actions) from
    hall start ⟨Nat.zero_le _, List.nodup_nil, fun d hd => absurd rfl hd⟩
  intro s h
  induction actions generalizing s with
  | nil => rfl
  | cons a rest ih =>
    refine forall₂_congr fun s' hstep => ?_
    rw [step_kept_iff h hstep]
    refine and_congr_right fun htimely => ih s' ?_
    exact ((step_kept_iff h hstep).mpr htimely).1

/-- A digest reported twice leaves a copy behind when it is resolved; one that is resolved
during a tick is noted as requested afterwards. -/
theorem copy_left_and_note_late : ∃ d : Digest,
    ¬ Along Kept start [.noteFinalized d false, .noteFinalized d false, .finalize d] ∧
    ¬ Along Kept start [.noteFinalized d false, .snapshot, .check false 0, .finalize d,
      .settle fun _ => 0] := by
  refine ⟨⟨List.replicate 32 0, rfl⟩, fun h => ?_, fun h => ?_⟩
  · exact ((((h _ rfl).2 _ rfl).2 _ rfl).1.2 _ (List.mem_singleton_self _)) (by decide)
  · have hlast := ((((((h _ rfl).2 _ rfl).2 _ rfl).2 _ rfl).2 _ rfl).1.1.requested
      ⟨List.replicate 32 0, rfl⟩ (by decide))
    exact absurd hlast (by decide)

end CertifiedDigests

end LayerSdk
