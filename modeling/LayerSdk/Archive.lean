import LayerSdk.ChangeStream

/-!
# The archive of the change stream

The archiver follows `changes_since` and writes every change under its sequence and its place
in the batch. A row that is there stays, and a connection goes on from the sequence that was
last written. So however often the stream repeats a batch, breaks or is cut by a crash, the
rows are those of the donor's log, without a gap since the archive last began.
-/

namespace LayerSdk.Archiver

open ChangeStream

/-- The table `changes`, by `seq` and `idx`, and `last_seq`, or `--from-seq` before it is set. -/
structure Archive where
  rows : Nat × Nat → Option StateUpdate
  last : Nat

/-- `INSERT OR IGNORE INTO changes`. -/
def insertOrIgnore (rows : Nat × Nat → Option StateUpdate) (key : Nat × Nat) (u : StateUpdate) :
    Nat × Nat → Option StateUpdate :=
  fun k => if k = key then (rows k).or (some u) else rows k

/-- A message of the stream. Its rows and `last_seq` are in one transaction. -/
def archiveBatch (a : Archive) (bw : BatchChanges) : Archive where
  rows := bw.changes.zipIdx.foldl (fun rows ev => insertOrIgnore rows (bw.sequence, ev.2) ev.1)
    a.rows
  last := bw.sequence

/-- The donor's batches, the archive, and the sequence at which it last began: `--from-seq`, or
that of the last snapshot. -/
structure System where
  history : List WriteBatch
  archive : Archive
  start : Nat

inductive Connection where
  /-- What the donor commits before each round of polling, and how many messages the database
  has when the stream or the process ends. -/
  | stream (rounds : List (List WriteBatch)) (kept : Nat)
  /-- What the donor commits until `latest_sequence` is read after a snapshot. -/
  | refused (new : List WriteBatch)

def connect (first : Nat) (s : System) : Connection → System
  | .stream rounds kept =>
    { s with
      history := s.history ++ rounds.flatten
      archive := ((changesSince first s.history s.archive.last rounds).take kept).foldl
        archiveBatch s.archive }
  | .refused new =>
    let sequence := nextOf first (s.history ++ new) - 1
    ⟨s.history ++ new, { s.archive with last := sequence }, sequence⟩

/-! ## The log -/

section Log

variable {first sequence : Nat} {history : List WriteBatch} {b d : BatchChanges}
  {sent rest : List BatchChanges}

theorem sequence_bounds (h : b ∈ logFrom first history) :
    first ≤ b.sequence ∧ b.sequence < b.stop := by
  obtain ⟨pre, x, _, -, rfl⟩ := exists_of_mem h
  exact ⟨Nat.le_add_right .., Nat.lt_add_of_pos_right (List.length_pos_iff.mpr x.property)⟩

theorem pairwise_logFrom (first : Nat) (history : List WriteBatch) :
    (logFrom first history).Pairwise fun b d => b.stop ≤ d.sequence := by
  induction history generalizing first with
  | nil => exact .nil
  | cons x rest ih => exact .cons (fun b hb => (sequence_bounds hb).1) (ih _)

/-- What is sent is the end of the log. -/
theorem exists_append_updates (first : Nat) (history : List WriteBatch) (sequence : Nat) :
    ∃ sent, logFrom first history = sent ++ updates first history sequence ∧
      ∀ b ∈ sent, b.stop ≤ sequence := by
  induction history generalizing first with
  | nil => exact ⟨[], rfl, List.forall_mem_nil _⟩
  | cons x rest ih =>
    by_cases hx : sequence < first + x.val.length
    · refine ⟨[], ?_, List.forall_mem_nil _⟩
      have hall := updates_all rest (Nat.le_of_lt hx)
      simpa [updates, logFrom, BatchChanges.stop, hx] using hall.symm
    · obtain ⟨sent, hlog, hsent⟩ := ih (first + x.val.length)
      refine ⟨⟨first, x.val⟩ :: sent, ?_, List.forall_mem_cons.mpr ⟨Nat.le_of_not_lt hx, hsent⟩⟩
      simpa [updates, logFrom, BatchChanges.stop, hx] using hlog

theorem lt_of_mem_sent (h : logFrom first history = sent ++ d :: rest) (hb : b ∈ sent) :
    b.sequence < d.sequence :=
  Nat.lt_of_lt_of_le (sequence_bounds (h ▸ List.mem_append_left _ hb)).2
    ((List.pairwise_append.mp (h ▸ pairwise_logFrom first history)).2.2 b hb d (.head rest))

/-- A batch of the log is before another one, that one, or after it. -/
theorem mem_cases (h : logFrom first history = sent ++ d :: rest) (hb : b ∈ logFrom first history) :
    b ∈ sent ∧ b.sequence < d.sequence ∨ b = d ∨ d.sequence < b.sequence := by
  rcases List.mem_append.mp (h ▸ hb) with hsent | hrest
  · exact .inl ⟨hsent, lt_of_mem_sent h hsent⟩
  · rcases List.mem_cons.mp hrest with rfl | hrest
    · exact .inr (.inl rfl)
    · obtain ⟨pre, post, rfl⟩ := List.append_of_mem hrest
      have hlater : logFrom first history = (sent ++ d :: pre) ++ b :: post := by simpa using h
      exact .inr (.inr (lt_of_mem_sent hlater (by simp)))

end Log

/-! ## Runs -/

theorem rows_archiveBatch (a : Archive) (d : BatchChanges) (k : Nat × Nat) :
    (archiveBatch a d).rows k =
      if k.1 = d.sequence then (a.rows k).or d.changes[k.2]? else a.rows k := by
  -- By induction on the rows of the batch from `n` on.
  suffices h : ∀ (us : List StateUpdate) (n : Nat) (rows : Nat × Nat → Option StateUpdate),
      (us.zipIdx n).foldl (fun rows ev => insertOrIgnore rows (d.sequence, ev.2) ev.1) rows k =
        if k.1 = d.sequence ∧ n ≤ k.2 then (rows k).or us[k.2 - n]? else rows k by
    simpa [archiveBatch] using h d.changes 0 a.rows
  intro us
  induction us with
  | nil => simp
  | cons u us ih =>
    intro n rows
    rw [List.zipIdx_cons, List.foldl_cons, ih]
    obtain ⟨seq, i⟩ := k
    simp only [insertOrIgnore, Prod.mk.injEq]
    rcases Nat.lt_trichotomy i n with hi | rfl | hi
    · simp [show ¬n + 1 ≤ i by omega, show ¬n ≤ i by omega, show i ≠ n by omega]
    · simp [Nat.not_succ_le_self]
    · simp [show n + 1 ≤ i by omega, show n ≤ i by omega, show i ≠ n by omega,
        show i - n = i - (n + 1) + 1 by omega]

/-- The rows are those of the log, and none is missing between the start and `last`. -/
structure Faithful (first start : Nat) (history : List WriteBatch) (a : Archive) : Prop where
  sound : ∀ k u, a.rows k = some u →
    ∃ b ∈ logFrom first history, b.sequence = k.1 ∧ b.changes[k.2]? = some u
  complete : ∀ b ∈ logFrom first history, start < b.sequence → b.sequence ≤ a.last →
    ∀ i, a.rows (b.sequence, i) = b.changes[i]?
  last : a.last < nextOf first history ∨ a.last ≤ start

/-- No batch of the log is after `last`. -/
def CaughtUp (first : Nat) (history : List WriteBatch) (a : Archive) : Prop :=
  ∀ b ∈ logFrom first history, b.sequence ≤ a.last

namespace Faithful

variable {first start : Nat} {history : List WriteBatch} {a : Archive}
  {sent rest : List BatchChanges}

theorem fresh (first fromSeq : Nat) : Faithful first fromSeq [] ⟨fun _ => none, fromSeq⟩ where
  sound k u h := by cases h
  complete := List.forall_mem_nil _
  last := .inr (Nat.le_refl _)

theorem extend (h : Faithful first start history a) (new : List WriteBatch) :
    Faithful first start (history ++ new) a where
  sound k u hk := by
    obtain ⟨b, hb, hseq⟩ := h.sound k u hk
    exact ⟨b, logFrom_append .. ▸ List.mem_append_left _ hb, hseq⟩
  complete b hb hstart hlast := by
    rcases List.mem_append.mp (logFrom_append first history new ▸ hb) with hb | hb
    · exact h.complete b hb hstart hlast
    · have := (sequence_bounds hb).1
      have := h.last
      omega
  last := by
    have := h.last
    simp only [nextOf, List.map_append, List.sum_append] at this ⊢
    omega

theorem step {d : BatchChanges} (h : Faithful first start history a)
    (hlog : logFrom first history = sent ++ d :: rest) (hsent : ∀ b ∈ sent, b.sequence ≤ a.last) :
    Faithful first start history (archiveBatch a d) := by
  have hd : d ∈ logFrom first history := hlog ▸ List.mem_append_right sent (.head rest)
  refine ⟨fun k u hk => ?_, fun b hb hstart hlast i => ?_, .inl ?_⟩
  · rw [rows_archiveBatch] at hk
    split at hk
    next hseq =>
      rcases Option.or_eq_some_iff.mp hk with hk | ⟨-, hk⟩
      · exact h.sound k u hk
      · exact ⟨d, hd, hseq.symm, hk⟩
    next => exact h.sound k u hk
  · rw [rows_archiveBatch]
    rcases mem_cases hlog hb with ⟨hmem, hlt⟩ | rfl | hlt
    · rw [if_neg (Nat.ne_of_lt hlt)]
      exact h.complete b hb hstart (hsent b hmem) i
    · -- A row that is there is a row of the same batch.
      rw [if_pos rfl]
      rcases hrow : a.rows (b.sequence, i) with _ | u
      · rfl
      · obtain ⟨b', hb', hseq, hu⟩ := h.sound _ u hrow
        rcases mem_cases hlog hb' with ⟨-, hlt⟩ | rfl | hlt
        · exact absurd hseq (Nat.ne_of_lt hlt)
        · exact hu.symm
        · exact absurd hseq (Nat.ne_of_gt hlt)
    · exact absurd hlast (Nat.not_le_of_lt hlt)
  · exact Nat.lt_of_lt_of_le (sequence_bounds hd).2 (bounds_of_mem hd).2

/-- By induction on the messages of a round. -/
theorem run (h : Faithful first start history a) (n : Nat)
    (hlog : logFrom first history = sent ++ rest) (hsent : ∀ b ∈ sent, b.sequence ≤ a.last) :
    Faithful first start history ((rest.take n).foldl archiveBatch a) ∧
      ∀ b ∈ sent ++ rest.take n, b.sequence ≤ ((rest.take n).foldl archiveBatch a).last := by
  induction rest generalizing sent a n with
  | nil => simpa using ⟨h, hsent⟩
  | cons d rest ih =>
    cases n with
    | zero => simpa using ⟨h, hsent⟩
    | succ n =>
      rw [List.take_succ_cons, List.append_cons]
      refine ih (h.step hlog hsent) n (List.append_cons .. ▸ hlog) fun b hb => ?_
      rcases List.mem_append.mp hb with hb | hb
      · exact Nat.le_of_lt (lt_of_mem_sent hlog hb)
      · exact Nat.le_of_eq (congrArg _ (List.mem_singleton.mp hb))

theorem resume_le (sent : List BatchChanges) {a : Archive} {sequence : Nat}
    (h : sequence ≤ a.last + 1) : resume sequence sent ≤ (sent.foldl archiveBatch a).last + 1 := by
  induction sent generalizing a sequence with
  | nil => exact h
  | cons b sent ih => exact ih (Nat.le_refl _)

/-- By induction on the rounds of a connection, which is never further than `last + 1`. -/
theorem changesSince (rounds : List (List WriteBatch)) {sequence : Nat}
    (h : Faithful first start history a) (hseq : sequence ≤ a.last + 1) (n : Nat) :
    let messages := ChangeStream.changesSince first history sequence rounds
    let a' := (messages.take n).foldl archiveBatch a
    Faithful first start (history ++ rounds.flatten) a' ∧
      (rounds ≠ [] ∨ CaughtUp first history a → messages.length ≤ n →
        CaughtUp first (history ++ rounds.flatten) a') := by
  induction rounds generalizing history sequence a n with
  | nil => simpa [ChangeStream.changesSince] using h
  | cons new rounds ih =>
    obtain ⟨sent, hlog, hsent⟩ := exists_append_updates first (history ++ new) sequence
    have hround := (h.extend new).run n hlog fun b hb => by
      have := sequence_bounds (hlog ▸ List.mem_append_left _ hb)
      have := hsent b hb
      omega
    simp only [ChangeStream.changesSince, List.flatten_cons, ← List.append_assoc]
    rw [List.take_append, List.foldl_append, List.length_append]
    by_cases hn : (updates first (history ++ new) sequence).length ≤ n
    · rw [List.take_of_length_le hn] at hround ⊢
      obtain ⟨hfaithful, hcaught⟩ := ih hround.1 (resume_le _ hseq) (n - (updates ..).length)
      exact ⟨hfaithful, fun _ hlen => hcaught (.inr fun b hb => hround.2 b (hlog ▸ hb)) (by omega)⟩
    · rw [show n - (updates first (history ++ new) sequence).length = 0 by omega]
      exact ⟨hround.1.extend _, fun _ hlen => by omega⟩

end Faithful

theorem Faithful.connect {first : Nat} {s : System} (h : Faithful first s.start s.history s.archive)
    (c : Connection) :
    let s' := connect first s c
    Faithful first s'.start s'.history s'.archive := by
  cases c with
  | stream rounds kept => exact (h.changesSince rounds (Nat.le_succ _) kept).1
  | refused new => exact { h.extend new with
      complete := fun b _ hstart hlast => absurd hstart (Nat.not_lt_of_le hlast)
      last := .inr (Nat.le_refl _) }

/-- In every run of connections the rows are changes of the donor's log, those of every batch
between the start and `last` are all there, and a connection that does not break reaches the
end of the log. -/
theorem archive_faithful (first fromSeq : Nat) (connections : List Connection) :
    let s := connections.foldl (connect first) ⟨[], ⟨fun _ => none, fromSeq⟩, fromSeq⟩
    Faithful first s.start s.history s.archive ∧
      ∀ rounds, rounds ≠ [] → CaughtUp first (s.history ++ rounds.flatten)
        ((changesSince first s.history s.archive.last rounds).foldl archiveBatch s.archive) := by
  intro s
  have h : Faithful first s.start s.history s.archive := by
    exact List.foldlRecOn (motive := fun s : System => Faithful first s.start s.history s.archive)
      connections _ (Faithful.fresh first fromSeq) fun s hs c _ => hs.connect c
  refine ⟨h, fun rounds hne => ?_⟩
  have hall := (h.changesSince rounds (Nat.le_succ _) _).2 (.inl hne) (Nat.le_refl _)
  rwa [List.take_length] at hall

end LayerSdk.Archiver
