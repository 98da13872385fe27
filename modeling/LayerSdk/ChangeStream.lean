import LayerSdk.Sha256
import Mathlib.Algebra.GroupWithZero.Nat

/-!
# The stream of committed batches

`RockStore::changes_since` polls the log of committed batches. A batch of `n` operations has
`n` sequence numbers, and after it the stream goes on from the second of them, which is
still the same batch unless `n` is one.
-/

namespace LayerSdk.ChangeStream

inductive StateUpdate where
  | write (key value : Bytes)
  | delete (key : Bytes)

/-- A batch has an operation. -/
abbrev WriteBatch := { updates : List StateUpdate // updates ≠ [] }

structure BatchChanges where
  sequence : Nat
  changes : List StateUpdate

/-- The number after those of the batch. -/
def BatchChanges.stop (b : BatchChanges) : Nat := b.sequence + b.changes.length

/-- The log of a history that begins with the number `first`. -/
def logFrom (first : Nat) : List WriteBatch → List BatchChanges
  | [] => []
  | b :: rest => ⟨first, b.val⟩ :: logFrom (first + b.val.length) rest

/-- `get_updates_since`: from the batch with the number `sequence` on. -/
def updates (first : Nat) (history : List WriteBatch) (sequence : Nat) : List BatchChanges :=
  (logFrom first history).filter fun b => sequence < b.stop

def resume (startFrom : Nat) (sent : List BatchChanges) : Nat :=
  sent.foldl (fun _ b => b.sequence + 1) startFrom

/-- What is sent in rounds of polling, with the batches committed before each of them. -/
def changesSince (first : Nat) (history : List WriteBatch) (startFrom : Nat) :
    List (List WriteBatch) → List BatchChanges
  | [] => []
  | new :: rounds =>
    let changes := updates first (history ++ new) startFrom
    changes ++ changesSince first (history ++ new) (resume startFrom changes) rounds

/-- The number after those of a history. -/
def nextOf (first : Nat) (history : List WriteBatch) : Nat :=
  first + (history.map fun b => b.val.length).sum

variable {first sequence startFrom : Nat} {history : List WriteBatch} {b : BatchChanges}

theorem logFrom_append (first : Nat) (a b : List WriteBatch) :
    logFrom first (a ++ b) = logFrom first a ++ logFrom (nextOf first a) b := by
  induction a generalizing first with
  | nil => rfl
  | cons x a ih => simp [logFrom, ih, nextOf, Nat.add_assoc]

theorem updates_append (first : Nat) (a b : List WriteBatch) (n : Nat) :
    updates first (a ++ b) n = updates first a n ++ updates (nextOf first a) b n := by
  rw [updates, logFrom_append, List.filter_append]
  rfl

theorem bounds_of_mem (h : b ∈ logFrom first history) :
    first < b.stop ∧ b.stop ≤ nextOf first history := by
  induction history generalizing first with
  | nil => cases h
  | cons x rest ih =>
    have hpos := List.length_pos_iff.mpr x.property
    rw [nextOf, List.map_cons, List.sum_cons]
    rcases List.mem_cons.mp h with rfl | h
    · simp only [BatchChanges.stop]
      omega
    · have hrest := ih h
      rw [nextOf] at hrest
      omega

theorem updates_none (h : nextOf first history ≤ sequence) : updates first history sequence = [] :=
  List.filter_eq_nil_iff.mpr fun b hb => by
    have hbounds := bounds_of_mem hb
    simpa using by omega

theorem updates_all (history : List WriteBatch) (h : sequence ≤ first) :
    updates first history sequence = logFrom first history :=
  List.filter_eq_self.mpr fun b hb => decide_eq_true (Nat.lt_of_le_of_lt h (bounds_of_mem hb).1)

/-- After the last batch of a history. -/
theorem resume_updates (x : WriteBatch) (h : sequence < nextOf first history + x.val.length) :
    resume startFrom (updates first (history ++ [x]) sequence) = nextOf first history + 1 := by
  rw [updates_append, resume, List.foldl_append]
  simp [updates, logFrom, BatchChanges.stop, h]

theorem resume_eq (startFrom : Nat)
    (hone : ∀ b ∈ updates first history sequence, b.changes.length = 1) :
    updates first history sequence = [] ∨
      sequence ≤ nextOf first history ∧
        resume startFrom (updates first history sequence) = nextOf first history := by
  rcases List.eq_nil_or_concat' history with rfl | ⟨init, x, rfl⟩
  · exact .inl rfl
  have hnext : nextOf first (init ++ [x]) = nextOf first init + x.val.length := by
    simp [nextOf, Nat.add_assoc]
  by_cases hlast : sequence < nextOf first init + x.val.length
  · have hx : x.val.length = 1 := hone ⟨nextOf first init, x.val⟩ (List.mem_filter.mpr
      ⟨by simp [logFrom_append, logFrom], decide_eq_true hlast⟩)
    rw [resume_updates x hlast, hnext]
    omega
  · exact .inl (updates_none (by omega))

/-- By induction on the rounds: what is new in a round is what `sequence` would get of it. -/
theorem changesSince_eq (rounds : List (List WriteBatch))
    (h : ∀ new, updates first (history ++ new) startFrom =
      updates (nextOf first history) new sequence)
    (hone : ∀ b ∈ updates (nextOf first history) rounds.flatten sequence, b.changes.length = 1) :
    changesSince first history startFrom rounds =
      updates (nextOf first history) rounds.flatten sequence := by
  induction rounds generalizing history startFrom with
  | nil => rfl
  | cons new rounds ih =>
    have hnext : nextOf (nextOf first history) new = nextOf first (history ++ new) := by
      simp [nextOf, Nat.add_assoc]
    rw [List.flatten_cons, updates_append, hnext] at hone ⊢
    obtain ⟨hnew, hrest⟩ := List.forall_mem_append.mp hone
    rw [changesSince, h new]
    refine congrArg _ (ih (fun later => ?_) hrest)
    rcases resume_eq startFrom hnew with hnil | ⟨hle, hresume⟩
    · rw [hnil, List.append_assoc, resume, List.foldl_nil, h, updates_append, hnil, hnext]
      rfl
    · rw [hresume, hnext, updates_append, updates_none (Nat.le_refl _),
        updates_all _ (Nat.le_refl _), updates_all _ (hnext ▸ hle)]
      rfl

theorem exists_of_mem (h : b ∈ logFrom first history) : ∃ pre x post,
    history = pre ++ [x] ++ post ∧ b = ⟨nextOf first pre, x.val⟩ := by
  induction history generalizing first with
  | nil => cases h
  | cons y rest ih =>
    rcases List.mem_cons.mp h with rfl | h
    · exact ⟨[], y, rest, rfl, rfl⟩
    · obtain ⟨pre, x, post, rfl, rfl⟩ := ih h
      exact ⟨y :: pre, x, post, rfl, by simp [nextOf, Nat.add_assoc]⟩

/-- From every start every batch is sent once and in order, in any rounds of polling, exactly
when each of the batches has one operation. -/
theorem changesSince_once_iff (first : Nat) (history : List WriteBatch) (sequence : Nat) :
    (∀ rounds : List (List WriteBatch), rounds.flatten = history →
      changesSince first [] sequence rounds = updates first history sequence) ↔
      ∀ b ∈ updates first history sequence, b.changes.length = 1 := by
  constructor
  · intro h b hb
    obtain ⟨hlog, hsince⟩ := List.mem_filter.mp hb
    obtain ⟨pre, x, post, rfl, rfl⟩ := exists_of_mem hlog
    have hsince : sequence < nextOf first pre + x.val.length := of_decide_eq_true hsince
    have hpos := List.length_pos_iff.mpr x.property
    have hnext : nextOf first (pre ++ [x]) = nextOf first pre + x.val.length := by
      simp [nextOf, Nat.add_assoc]
    -- a round that ends with the batch, and another one
    have htwo := h [pre ++ [x], post] (by simp)
    simp only [changesSince, List.nil_append, List.append_nil] at htwo
    rw [resume_updates x hsince, updates_append first (pre ++ [x]),
      updates_append first (pre ++ [x]), updates_all post (by omega),
      updates_all post (by omega)] at htwo
    have hnone := List.append_left_eq_self.mp (List.append_cancel_left htwo)
    have hnot := List.filter_eq_nil_iff.mp hnone ⟨nextOf first pre, x.val⟩
      (by simp [logFrom_append, logFrom])
    have hle : x.val.length ≤ 1 := by simpa [BatchChanges.stop] using hnot
    exact Nat.le_antisymm hle hpos
  · rintro hone rounds rfl
    exact changesSince_eq rounds (fun new => rfl) hone

/-- One batch with two operations, polled twice. -/
theorem changesSince_repeats : ∃ b : WriteBatch,
    changesSince 1 [] 1 [[b], []] = [⟨1, b.val⟩, ⟨1, b.val⟩] :=
  ⟨⟨[.delete [], .delete []], List.cons_ne_nil _ _⟩, rfl⟩

end LayerSdk.ChangeStream
