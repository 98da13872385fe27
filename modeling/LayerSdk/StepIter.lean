import Mathlib.Tactic.Common

/-!
# Iterators as step functions

An iterator is a state with a function `next`, which returns an item or
nothing and the state after it. What it yields is what the successive calls
return: `Yields` says that these are the items of a list followed by nothing
for ever, `Endless` that no call ever returns nothing. Both are established
by an invariant of `next`.

`Peek` is an iterator with one item of look-ahead. It calls the iterator below
when it looks, not when it is asked; what it still yields (`Peek.Holds`) does
not depend on that.
-/

namespace StepIter

variable {σ τ α : Type}

abbrev Step (σ α : Type) := σ → Option α × σ

/-- The state after some calls. -/
def after (next : Step σ α) : Nat → σ → σ
  | 0, s => s
  | n + 1, s => after next n (next s).2

/-- What call number `n` returns. -/
def output (next : Step σ α) (s : σ) (n : Nat) : Option α := (next (after next n s)).1

/-- The calls return the items of a list, then nothing. -/
def Yields (next : Step σ α) (s : σ) (l : List α) : Prop := ∀ n, output next s n = l[n]?

/-- Every call returns something. -/
def Endless (next : Step σ α) (s : σ) : Prop := ∀ n, (output next s n).isSome = true

variable {next : Step σ α} {s : σ} {l : List α}

theorem output_succ (next : Step σ α) (s : σ) (n : Nat) :
    output next s (n + 1) = output next (next s).2 n := rfl

/-- One call takes the head off. -/
theorem yields_iff : Yields next s l ↔ (next s).1 = l.head? ∧ Yields next (next s).2 l.tail := by
  constructor
  · intro h
    refine ⟨by rw [List.head?_eq_getElem?]; exact h 0, fun n => ?_⟩
    rw [← output_succ, h (n + 1), List.getElem?_tail]
  · rintro ⟨hhead, htail⟩ n
    cases n with
    | zero =>
      rw [← List.head?_eq_getElem?]
      exact hhead
    | succ n => rw [output_succ, htail n, List.getElem?_tail]

theorem Yields.cons {a : α} (hitem : (next s).1 = some a) (hrest : Yields next (next s).2 l) :
    Yields next s (a :: l) :=
  yields_iff.mpr ⟨hitem, hrest⟩

theorem Yields.unique {l' : List α} (h : Yields next s l) (h' : Yields next s l') : l = l' :=
  List.ext_getElem? fun n => (h n).symm.trans (h' n)

/-- An exhausted state stays exhausted. -/
theorem yields_nil_of_invariant (I : σ → Prop)
    (hstep : ∀ s, I s → (next s).1 = none ∧ I (next s).2) (hs : I s) : Yields next s [] := by
  intro n
  induction n generalizing s with
  | zero => exact (hstep s hs).1
  | succ n ih =>
    rw [output_succ, ih (hstep s hs).2]
    rfl

theorem endless_iff : Endless next s ↔ (next s).1.isSome = true ∧ Endless next (next s).2 := by
  constructor
  · intro h
    exact ⟨h 0, fun n => h (n + 1)⟩
  · rintro ⟨hhead, htail⟩ n
    cases n with
    | zero => exact hhead
    | succ n => exact htail n

theorem endless_of_invariant (I : σ → Prop)
    (hstep : ∀ s, I s → (next s).1.isSome = true ∧ I (next s).2) (hs : I s) : Endless next s := by
  intro n
  induction n generalizing s with
  | zero => exact (hstep s hs).1
  | succ n ih => exact ih (hstep s hs).2

theorem Yields.not_endless (h : Yields next s l) : ¬ Endless next s := by
  intro hend
  have hlast := hend l.length
  rw [h, List.getElem?_eq_none (Nat.le_refl _)] at hlast
  cases hlast

/-- Going through a list. -/
def listNext : Step (List α) α := fun l => (l.head?, l.tail)

theorem yields_listNext : ∀ l : List α, Yields listNext l l
  | [] => yields_nil_of_invariant (· = []) (by rintro s rfl; exact ⟨rfl, rfl⟩) rfl
  | a :: l => .cons rfl (yields_listNext l)

/-- At most `n` items, up to the first call that returns nothing. -/
def drain (next : Step σ α) : Nat → σ → List α
  | 0, _ => []
  | n + 1, s =>
    match (next s).1 with
    | none => []
    | some a => a :: drain next n (next s).2

/-- Enough calls find everything. -/
theorem Yields.drain_eq : ∀ {n : Nat} {s : σ} {l : List α}, Yields next s l → l.length ≤ n →
    drain next n s = l
  | 0, _, [], _, _ => rfl
  | n + 1, s, [], h, _ => by
    rw [drain, (yields_iff.mp h).1]
    rfl
  | n + 1, s, a :: l, h, hn => by
    rw [drain, (yields_iff.mp h).1, List.head?_cons]
    exact congrArg (a :: ·) ((yields_iff.mp h).2.drain_eq (Nat.le_of_succ_le_succ hn))

/-! ## Look-ahead -/

structure Peek (σ α : Type) where
  inner : σ
  peeked : Option (Option α)

namespace Peek

def fresh (s : σ) : Peek σ α := ⟨s, none⟩

/-- Look at the next item; it stays. -/
def peek (next : Step σ α) : Step (Peek σ α) α
  | ⟨s, none⟩ => ((next s).1, ⟨(next s).2, some (next s).1⟩)
  | ⟨s, some item⟩ => (item, ⟨s, some item⟩)

/-- Take the next item. -/
def take (next : Step σ α) : Step (Peek σ α) α
  | ⟨s, none⟩ => ((next s).1, ⟨(next s).2, none⟩)
  | ⟨s, some item⟩ => (item, ⟨s, none⟩)

/-- What is still to come, the item looked at included. -/
def Holds (next : Step σ α) : Peek σ α → List α → Prop
  | ⟨s, none⟩, l => Yields next s l
  | ⟨s, some item⟩, l => item = l.head? ∧ Yields next s l.tail

def HoldsEndless (next : Step σ α) : Peek σ α → Prop
  | ⟨s, none⟩ => Endless next s
  | ⟨s, some item⟩ => item.isSome = true ∧ Endless next s

variable {p : Peek σ α}

theorem Holds.peek (h : p.Holds next l) :
    (p.peek next).1 = l.head? ∧ (p.peek next).2.Holds next l := by
  obtain ⟨s, _ | item⟩ := p
  · have hs := yields_iff.mp h
    exact ⟨hs.1, hs⟩
  · exact ⟨h.1, h⟩

theorem Holds.take (h : p.Holds next l) :
    (p.take next).1 = l.head? ∧ (p.take next).2.Holds next l.tail := by
  obtain ⟨s, _ | item⟩ := p
  · exact yields_iff.mp h
  · exact h

theorem HoldsEndless.peek (h : p.HoldsEndless next) :
    (∃ a, (p.peek next).1 = some a) ∧ (p.peek next).2.HoldsEndless next := by
  obtain ⟨s, _ | item⟩ := p
  · have hs := endless_iff.mp h
    exact ⟨Option.isSome_iff_exists.mp hs.1, hs⟩
  · exact ⟨Option.isSome_iff_exists.mp h.1, h⟩

theorem HoldsEndless.take (h : p.HoldsEndless next) :
    (p.take next).1.isSome = true ∧ (p.take next).2.HoldsEndless next := by
  obtain ⟨s, _ | item⟩ := p
  · exact endless_iff.mp h
  · exact h

end Peek

end StepIter
