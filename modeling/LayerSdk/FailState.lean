import Mathlib.Tactic.Common

/-!
# Programs over a state that can fail

A method on a mutable record: it reads and changes the record, and ends with
a result, an error or a panic. An error does not undo the changes made
before it, so a statement about a program has a condition for each of the
two endings (`Triple`). A panic ends everything, and nothing is said about
it.

The rules below are one per way to build a program. `Triple.bind` is the one
that carries proofs: the condition after the first part is the condition
before the second, and both parts share the condition on errors.
-/

namespace FailState

abbrev FailM (σ ε α : Type) := ExceptT ε (StateT σ Option) α

variable {σ ε α β : Type}

def exec (p : FailM σ ε α) (s : σ) : Option (Except ε α × σ) := p.run.run s

def ofFun (f : σ → Option (Except ε α × σ)) : FailM σ ε α := ExceptT.mk f

theorem exec_ofFun (f : σ → Option (Except ε α × σ)) (s : σ) : exec (ofFun f) s = f s := rfl

/-- A panic. -/
def crash : FailM σ ε α := ofFun fun _ => none

def unwrap : Option α → FailM σ ε α
  | some x => pure x
  | none => crash

/-- What follows a first part: its error ends the program where it is. -/
def followed (f : α → FailM σ ε β) : Except ε α × σ → Option (Except ε β × σ)
  | (.ok x, s) => exec (f x) s
  | (.error e, s) => some (.error e, s)

theorem exec_bind_eq (p : FailM σ ε α) (f : α → FailM σ ε β) (s : σ) :
    exec (p >>= f) s = (exec p s).bind (followed f) := by
  change (exec p s).bind _ = _
  refine congrArg _ (funext fun x => ?_)
  obtain ⟨_ | x, s₁⟩ := x <;> rfl

theorem exec_bind_cases {p : FailM σ ε α} {f : α → FailM σ ε β} {s s' : σ} {r : Except ε β}
    (h : exec (p >>= f) s = some (r, s')) :
    (∃ x s₁, exec p s = some (.ok x, s₁) ∧ exec (f x) s₁ = some (r, s')) ∨
      ∃ e, exec p s = some (.error e, s') ∧ r = .error e := by
  obtain ⟨⟨r₁, s₁⟩, hp, hrest⟩ := Option.bind_eq_some_iff.mp h
  cases r₁ with
  | ok x => exact .inl ⟨x, s₁, hp, hrest⟩
  | error e =>
    cases hrest
    exact .inr ⟨e, hp, rfl⟩

theorem exec_bind_ok {p : FailM σ ε α} {f : α → FailM σ ε β} {s s' : σ} {b : β}
    (h : exec (p >>= f) s = some (.ok b, s')) :
    ∃ x s₁, exec p s = some (.ok x, s₁) ∧ exec (f x) s₁ = some (.ok b, s') := by
  rcases exec_bind_cases h with hboth | ⟨e, -, he⟩
  · exact hboth
  · cases he

/-- What holds after a program, by its ending. -/
def Ending (Q : α → σ → Prop) (E : ε → σ → Prop) : Except ε α → σ → Prop
  | .ok x => Q x
  | .error e => E e

/-- From `P`, a result comes with `Q` and an error with `E`. -/
def Triple (P : σ → Prop) (p : FailM σ ε α) (Q : α → σ → Prop) (E : ε → σ → Prop) : Prop :=
  ∀ ⦃s s' : σ⦄ ⦃r : Except ε α⦄, P s → exec p s = some (r, s') → Ending Q E r s'

namespace Triple

variable {P P' : σ → Prop} {Q Q' : α → σ → Prop} {R : β → σ → Prop} {E E' : ε → σ → Prop}

theorem ofFun {f : σ → Option (Except ε α × σ)}
    (h : ∀ s s' r, P s → f s = some (r, s') → Ending Q E r s') : Triple P (ofFun f) Q E :=
  fun s s' r hs hexec => h s s' r hs hexec

theorem pure {x : α} (h : ∀ s, P s → Q x s) : Triple P (pure x : FailM σ ε α) Q E := by
  intro s s' r hs hexec
  cases hexec
  exact h _ hs

theorem throw {e : ε} (h : ∀ s, P s → E e s) : Triple P (throw e : FailM σ ε α) Q E := by
  intro s s' r hs hexec
  cases hexec
  exact h _ hs

theorem crash : Triple P (crash : FailM σ ε α) Q E := by
  intro s s' r _ hexec
  cases hexec

theorem get {Q : σ → σ → Prop} (h : ∀ s, P s → Q s s) :
    Triple P (get : FailM σ ε σ) Q E := by
  intro s s' r hs hexec
  cases hexec
  exact h _ hs

theorem modify {f : σ → σ} {Q : PUnit → σ → Prop} (h : ∀ s, P s → Q () (f s)) :
    Triple P (modify f : FailM σ ε PUnit) Q E := by
  intro s s' r hs hexec
  cases hexec
  exact h _ hs

theorem unwrap {o : Option α} (h : ∀ x s, o = some x → P s → Q x s) :
    Triple P (unwrap o : FailM σ ε α) Q E := by
  cases o with
  | none => exact crash
  | some x => exact pure fun s => h x s rfl

theorem bind {p : FailM σ ε α} {f : α → FailM σ ε β} (hp : Triple P p Q E)
    (hf : ∀ x, Triple (Q x) (f x) R E) : Triple P (p >>= f) R E := by
  intro s s' r hs hexec
  rcases exec_bind_cases hexec with ⟨x, s₁, hfirst, hrest⟩ | ⟨e, hfirst, rfl⟩
  · exact hf x (hp hs hfirst) hrest
  · exact hp hs hfirst

theorem bind_get {f : σ → FailM σ ε β} (hf : ∀ s₀, Triple (fun s => P s ∧ s = s₀) (f s₀) R E) :
    Triple P (MonadState.get >>= f) R E :=
  bind (Q := fun s₀ s => P s ∧ s = s₀) (get fun _ hs => ⟨hs, rfl⟩) hf

theorem bind_unwrap {o : Option α} {f : α → FailM σ ε β}
    (hf : ∀ x, o = some x → Triple P (f x) R E) :
    Triple P (FailState.unwrap o >>= f) R E := by
  refine bind (Q := fun x s => o = some x ∧ P s) (unwrap fun x s hx hs => ⟨hx, hs⟩) fun x => ?_
  intro s s' r hs hexec
  exact hf x hs.1 hs.2 hexec

theorem ite {b : Prop} [Decidable b] {p q : FailM σ ε α} (hp : b → Triple P p Q E)
    (hq : ¬ b → Triple P q Q E) : Triple P (if b then p else q) Q E := by
  by_cases h : b
  · rw [if_pos h]
    exact hp h
  · rw [if_neg h]
    exact hq h

theorem mono {p : FailM σ ε α} (h : Triple P p Q E) (hP : ∀ s, P' s → P s)
    (hQ : ∀ x s, Q x s → Q' x s) (hE : ∀ e s, E e s → E' e s) : Triple P' p Q' E' := by
  intro s s' r hs hexec
  have hend := h (hP s hs) hexec
  cases r with
  | ok x => exact hQ x s' hend
  | error e => exact hE e s' hend

end Triple

end FailState
