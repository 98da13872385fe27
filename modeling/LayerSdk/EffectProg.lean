import Mathlib.Data.Option.Basic
import Mathlib.Control.Lawful

/-!
# Programs over an interface

A program that talks to the world only through the operations of an
interface is a tree of calls (`Prog`). Three things can be done with it:

- `run` it against a `Handler`, an object that answers each operation from
  its own state. `run_invariant` and `run_rel` are the induction rules: what
  one operation preserves (of one object, or between two) a whole run
  preserves.
- push it `through` a `Wrapper`, an object that implements the interface on
  top of another one. `run_through` says that this is the same as running
  the program against the composed object (`stack`).
- extend it with a state that is threaded through (a meter) and with typed
  errors (`Comp`). An error keeps the meter and every write made so far,
  exactly as a `Result`-returning function that mutates its arguments does.

`crash` is a panic: it has no result and cannot be caught.
-/

namespace EffectProg

/-- Operations and the type of each one's answer. -/
structure Sig where
  Op : Type
  Res : Op → Type

inductive Prog (S : Sig) (α : Type) : Type where
  | ret (a : α)
  | crash
  | call (op : S.Op) (k : S.Res op → Prog S α)

variable {S T : Sig} {α β γ σ τ ω μ ε : Type}

namespace Prog

def bind : Prog S α → (α → Prog S β) → Prog S β
  | ret a, f => f a
  | crash, _ => crash
  | call op k, f => call op fun r => (k r).bind f

instance : Monad (Prog S) where
  pure := ret
  bind := bind

theorem bind_ret (p : Prog S α) : p.bind ret = p := by
  induction p with
  | ret a | crash => rfl
  | call op k ih => exact congrArg (call op) (funext ih)

theorem bind_assoc (p : Prog S α) (f : α → Prog S β) (g : β → Prog S γ) :
    (p.bind f).bind g = p.bind fun a => (f a).bind g := by
  induction p with
  | ret a | crash => rfl
  | call op k ih => exact congrArg (call op) (funext ih)

instance : LawfulMonad (Prog S) :=
  LawfulMonad.mk' (Prog S) (fun p => bind_ret p) (fun _ _ => rfl)
    (fun p f g => bind_assoc p f g)

end Prog

/-- Call one operation and return its answer. -/
def perform (op : S.Op) : Prog S (S.Res op) := .call op .ret

/-! ## Objects -/

/-- An object behind the interface; `none` is a panic inside it. -/
abbrev Handler (S : Sig) (σ : Type) := (op : S.Op) → σ → Option (σ × S.Res op)

def run (h : Handler S σ) : Prog S α → σ → Option (σ × α)
  | .ret a, s => some (s, a)
  | .crash, _ => none
  | .call op k, s =>
    match h op s with
    | none => none
    | some (s', r) => run h (k r) s'

@[simp] theorem run_ret (h : Handler S σ) (a : α) (s : σ) :
    run h (.ret a) s = some (s, a) := rfl

@[simp] theorem run_pure (h : Handler S σ) (a : α) (s : σ) :
    run h (pure a) s = some (s, a) := rfl

@[simp] theorem run_crash (h : Handler S σ) (s : σ) :
    run h (.crash : Prog S α) s = none := rfl

@[simp] theorem run_perform (h : Handler S σ) (op : S.Op) (s : σ) :
    run h (perform op) s = h op s := by
  simp only [perform, run]
  cases h op s <;> rfl

theorem run_call (h : Handler S σ) (op : S.Op) (k : S.Res op → Prog S α) (s : σ) :
    run h (.call op k) s = (h op s).bind fun x => run h (k x.2) x.1 := by
  simp only [run]
  cases h op s <;> rfl

theorem run_bind (h : Handler S σ) (p : Prog S α) (f : α → Prog S β) (s : σ) :
    run h (p >>= f) s = (run h p s).bind fun x => run h (f x.2) x.1 := by
  change run h (p.bind f) s = _
  induction p generalizing s with
  | ret a | crash => rfl
  | call op k ih =>
    simp only [Prog.bind, run_call, Option.bind_assoc]
    exact congrArg _ (funext fun x => ih x.2 x.1)

theorem run_map (h : Handler S σ) (p : Prog S α) (f : α → β) (s : σ) :
    run h (f <$> p) s = (run h p s).map fun x => (x.1, f x.2) := by
  rw [← bind_pure_comp, run_bind]
  cases run h p s <;> rfl

/-- What every operation preserves, every run preserves. -/
theorem run_invariant {h : Handler S σ} (I : σ → Prop)
    (hI : ∀ op s s' r, h op s = some (s', r) → I s → I s') (p : Prog S α) :
    ∀ {s s' : σ} {a : α}, run h p s = some (s', a) → I s → I s' := by
  induction p with
  | ret a =>
    intro s s' b hrun hs
    cases hrun
    exact hs
  | crash =>
    intro s s' b hrun hs
    cases hrun
  | call op k ih =>
    intro s s' b hrun hs
    simp only [run_call, Option.bind_eq_some_iff] at hrun
    obtain ⟨⟨t, r⟩, hop, hrest⟩ := hrun
    exact ih r hrest (hI op s t r hop hs)

/-! ## Runs against answers that nobody restricts -/

/-- A question and its answer. -/
abbrev Exchange (S : Sig) := (op : S.Op) × S.Res op

/-- The program can end with `b` after exactly the exchanges in the log. -/
def Trace : Prog S α → List (Exchange S) → α → Prop
  | .ret a, log, b => log = [] ∧ b = a
  | .crash, _, _ => False
  | .call op k, log, b => ∃ r rest, log = ⟨op, r⟩ :: rest ∧ Trace (k r) rest b

variable {log : List (Exchange S)} {p : Prog S α} {P : S.Op → Prop} {f : α → ExceptT ε (Prog S) β}

theorem trace_pure {a b : α} (h : Trace (pure a) log b) : log = [] ∧ b = a := h

theorem trace_perform {op : S.Op} {r : S.Res op} (h : Trace (perform op) log r) :
    log = [⟨op, r⟩] := by
  obtain ⟨r', rest, rfl, rfl, rfl⟩ := h
  rfl

/-- A run of two parts is a run of each. -/
theorem trace_bind {f : α → Prog S β} : ∀ {log : List (Exchange S)} {b : β},
    Trace (p >>= f) log b → ∃ l₁ l₂ a, log = l₁ ++ l₂ ∧ Trace p l₁ a ∧ Trace (f a) l₂ b := by
  induction p with
  | ret a => exact fun h => ⟨[], _, a, rfl, ⟨rfl, rfl⟩, h⟩
  | crash => exact fun h => h.elim
  | call op k ih =>
    rintro log b ⟨r, rest, rfl, h⟩
    obtain ⟨l₁, l₂, a, rfl, h₁, h₂⟩ := ih r h
    exact ⟨⟨op, r⟩ :: l₁, l₂, a, rfl, ⟨r, l₁, rfl, h₁⟩, h₂⟩

/-- The object with a log of its exchanges. -/
def logged (h : Handler S σ) : Handler S (σ × List (Exchange S)) := fun op x =>
  (h op x.1).map fun y => ((y.1, x.2 ++ [⟨op, y.2⟩]), y.2)

/-- Every run against an object is a run against some answers. -/
theorem trace_of_run {h : Handler S σ} : ∀ {s s' : σ}
    {log log' : List (Exchange S)} {a : α},
    run (logged h) p (s, log) = some ((s', log'), a) → ∃ l, log' = log ++ l ∧ Trace p l a := by
  induction p with
  | ret a =>
    intro s s' log log' b hrun
    obtain ⟨⟨-, rfl⟩, rfl⟩ := hrun
    exact ⟨[], by simp, rfl, rfl⟩
  | crash =>
    intro s s' log log' b hrun
    cases hrun
  | call op k ih =>
    intro s s' log log' b hrun
    rw [run_call] at hrun
    obtain ⟨⟨x, r⟩, hop, hrest⟩ := Option.bind_eq_some_iff.mp hrun
    obtain ⟨y, -, heq⟩ := Option.map_eq_some_iff.mp hop
    cases heq
    obtain ⟨l, rfl, htrace⟩ := ih _ hrest
    exact ⟨⟨op, y.2⟩ :: l, by simp, y.2, l, rfl, htrace⟩

/-- A log holds only answers the object gives. -/
theorem mem_log_of_run {h : Handler S σ} {s s' : σ} {a : α}
    (hrun : run (logged h) p (s, []) = some ((s', log), a)) :
    ∀ x ∈ log, ∃ t t', h x.1 t = some (t', x.2) := by
  refine run_invariant (h := logged h) (fun y => ∀ x ∈ y.2, ∃ t t', h x.1 t = some (t', x.2))
    (fun op y y' r hop hy x hx => ?_) p hrun (by simp)
  obtain ⟨z, hz, heq⟩ := Option.map_eq_some_iff.mp hop
  obtain ⟨rfl, -⟩ := Prod.mk.inj heq
  rcases List.mem_append.mp hx with hx | hx
  · exact hy x hx
  · rw [List.mem_singleton.mp hx]
    exact ⟨y.1, z.1, hz⟩

/-- Every question the program can ask satisfies `P`. -/
def Asks (P : S.Op → Prop) (p : Prog S α) : Prop :=
  ∀ ⦃log : List (Exchange S)⦄ ⦃a : α⦄, Trace p log a → ∀ x ∈ log, P x.1

theorem Asks.pure (a : α) : Asks P (pure a : Prog S α) := by
  intro log b h x hx
  rw [(trace_pure h).1] at hx
  cases hx

theorem Asks.perform {op : S.Op} (h : P op) : Asks P (perform op) := by
  intro log r htrace x hx
  rw [trace_perform htrace, List.mem_singleton] at hx
  rw [hx]
  exact h

theorem Asks.bind {f : α → Prog S β} (hp : Asks P p) (hf : ∀ a, Asks P (f a)) :
    Asks P (p >>= f) := by
  intro log b h x hx
  obtain ⟨l₁, l₂, a, rfl, h₁, h₂⟩ := trace_bind h
  rcases List.mem_append.mp hx with hx | hx
  · exact hp h₁ x hx
  · exact hf a h₂ x hx

theorem Asks.except_bind {p : ExceptT ε (Prog S) α} (hp : Asks P p.run)
    (hf : ∀ a, Asks P (f a).run) : Asks P (p >>= f).run := by
  refine Asks.bind hp fun x => ?_
  cases x with
  | ok a => exact hf a
  | error e => exact Asks.pure _

/-- A run of a program that can fail goes through both parts, or ends with the
first one's error. -/
theorem trace_except_bind {p : ExceptT ε (Prog S) α} {r : Except ε β}
    (h : Trace (p >>= f).run log r) :
    (∃ l₁ l₂ a, log = l₁ ++ l₂ ∧ Trace p.run l₁ (.ok a) ∧ Trace (f a).run l₂ r) ∨
      ∃ e, Trace p.run log (.error e) ∧ r = .error e := by
  obtain ⟨l₁, l₂, x, rfl, h₁, h₂⟩ := trace_bind (p := p.run) h
  cases x with
  | ok a => exact .inl ⟨l₁, l₂, a, rfl, h₁, h₂⟩
  | error e =>
    obtain ⟨rfl, rfl⟩ := h₂
    exact .inr ⟨e, by simpa using h₁, rfl⟩

theorem trace_except_bind_ok {p : ExceptT ε (Prog S) α} {b : β}
    (h : Trace (p >>= f).run log (.ok b)) :
    ∃ l₁ l₂ a, log = l₁ ++ l₂ ∧ Trace p.run l₁ (.ok a) ∧ Trace (f a).run l₂ (.ok b) := by
  rcases trace_except_bind h with h | ⟨e, -, he⟩
  · exact h
  · cases he

/-! ## Wrappers -/

/-- An object implemented on top of the interface `T`, with its own fields `ω`. -/
abbrev Wrapper (S T : Sig) (ω : Type) := (op : S.Op) → ω → Prog T (ω × S.Res op)

/-- Run a program against a wrapper, giving a program over what is below. -/
def through (w : Wrapper S T ω) : Prog S α → ω → Prog T (ω × α)
  | .ret a, x => .ret (x, a)
  | .crash, _ => .crash
  | .call op k, x => (w op x).bind fun y => through w (k y.2) y.1

/-- The wrapper together with the object below it. -/
def stack (w : Wrapper S T ω) (h : Handler T σ) : Handler S (ω × σ) := fun op x =>
  (run h (w op x.1) x.2).map fun y => ((y.2.1, y.1), y.2.2)

theorem run_through (w : Wrapper S T ω) (h : Handler T σ) (p : Prog S α) :
    ∀ (x : ω) (s : σ), run h (through w p x) s =
      (run (stack w h) p (x, s)).map fun y => (y.1.2, (y.1.1, y.2)) := by
  induction p with
  | ret a | crash => exact fun _ _ => rfl
  | call op k ih =>
    intro x s
    change run h (w op x >>= fun y => through w (k y.2) y.1) s = _
    rw [run_bind, run_call, stack]
    cases run h (w op x) s with
    | none => rfl
    | some y => exact ih y.2.2 y.2.1 y.1

/-! ## Metered, failing programs -/

/-- `&Meter`-taking, `Result`-returning code: the meter survives an error. -/
abbrev Comp (S : Sig) (μ ε : Type) := ExceptT ε (StateT μ (Prog S))

namespace Comp

/-- The program with its meter made explicit. -/
def toProg (p : Comp S μ ε α) (m : μ) : Prog S (Except ε α × μ) := p.run.run m

def ofProg (f : μ → Prog S (Except ε α × μ)) : Comp S μ ε α := ExceptT.mk f

/-- Run a metered program against an object. -/
def exec (h : Handler S σ) (p : Comp S μ ε α) (m : μ) (s : σ) :
    Option (σ × Except ε α × μ) := run h (p.toProg m) s

/-- The result as a value: catches an error, keeps the writes. -/
def attempt (p : Comp S μ ε α) : Comp S μ ε (Except ε α) :=
  ofProg fun m => do
    let (r, m') ← p.toProg m
    pure (.ok r, m')

/-- Run with a meter of its own, which is handed back with the result. -/
def withMeter (sub : μ) (p : Comp S μ ε α) : Comp S μ ε (Except ε α × μ) :=
  ofProg fun m => do
    let x ← p.toProg sub
    pure (.ok x, m)

/-- Run against a wrapper over the current object; the wrapper's final
fields are handed back with the result. -/
def within (w : Wrapper S T ω) (x : ω) (p : Comp S μ ε α) : Comp T μ ε (ω × Except ε α) :=
  ofProg fun m => do
    let (y, r, m') ← through w (p.toProg m) x
    pure (.ok (y, r), m')

/-- Run against a wrapper without fields of its own. -/
def under (w : Wrapper S T Unit) (p : Comp S μ ε α) : Comp T μ ε α :=
  ofProg fun m => Prod.snd <$> through w (p.toProg m) ()

/-- A panic. -/
def panic : Comp S μ ε α := ofProg fun _ => .crash

/-- Turn a result into the success or failure of the program. -/
def ofExcept : Except ε α → Comp S μ ε α
  | .ok a => pure a
  | .error e => throw e

@[simp] theorem toProg_ofProg (f : μ → Prog S (Except ε α × μ)) (m : μ) :
    (ofProg f).toProg m = f m := rfl

theorem exec_ofProg (h : Handler S σ) (f : μ → Prog S (Except ε α × μ)) (m : μ) (s : σ) :
    exec h (ofProg f) m s = run h (f m) s := rfl

@[simp] theorem exec_pure (h : Handler S σ) (a : α) (m : μ) (s : σ) :
    exec h (pure a : Comp S μ ε α) m s = some (s, .ok a, m) := rfl

@[simp] theorem exec_throw (h : Handler S σ) (e : ε) (m : μ) (s : σ) :
    exec h (throw e : Comp S μ ε α) m s = some (s, .error e, m) := rfl

@[simp] theorem exec_panic (h : Handler S σ) (m : μ) (s : σ) :
    exec h (panic : Comp S μ ε α) m s = none := rfl

/-- What follows a first part: its error ends the program where it is. -/
def andThen (h : Handler S σ) (f : α → Comp S μ ε β) :
    σ × Except ε α × μ → Option (σ × Except ε β × μ)
  | (s, .ok a, m) => exec h (f a) m s
  | (s, .error e, m) => some (s, .error e, m)

theorem exec_bind (h : Handler S σ) (p : Comp S μ ε α) (f : α → Comp S μ ε β) (m : μ) (s : σ) :
    exec h (p >>= f) m s = (exec h p m s).bind (andThen h f) := by
  have hprog : (p >>= f).toProg m = p.toProg m >>= fun x : Except ε α × μ =>
      match x with
      | (.ok a, m') => (f a).toProg m'
      | (.error e, m') => (pure (.error e, m') : Prog S (Except ε β × μ)) := by
    refine bind_congr (x := p.toProg m) fun x => ?_
    obtain ⟨_ | _, _⟩ := x <;> rfl
  rw [exec, hprog, run_bind]
  refine congrArg _ (funext fun x => ?_)
  obtain ⟨s', _ | a, m'⟩ := x <;> rfl

variable {h : Handler S σ} {m m' : μ} {s s' : σ}

/-- A run of two parts goes through both, or ends with the first one's error. -/
theorem exec_bind_cases {p : Comp S μ ε α} {f : α → Comp S μ ε β} {r : Except ε β}
    (hexec : exec h (p >>= f) m s = some (s', r, m')) :
    (∃ s₁ a m₁, exec h p m s = some (s₁, .ok a, m₁) ∧ exec h (f a) m₁ s₁ = some (s', r, m')) ∨
      ∃ e, exec h p m s = some (s', .error e, m') ∧ r = .error e := by
  rw [exec_bind] at hexec
  obtain ⟨⟨s₁, r₁, m₁⟩, hfirst, hrest⟩ := Option.bind_eq_some_iff.mp hexec
  cases r₁ with
  | ok a => exact .inl ⟨s₁, a, m₁, hfirst, hrest⟩
  | error e =>
    obtain ⟨rfl, rfl, rfl⟩ := hrest
    exact .inr ⟨e, hfirst, rfl⟩

theorem exec_bind_ok {p : Comp S μ ε α} {f : α → Comp S μ ε β} {b : β}
    (hexec : exec h (p >>= f) m s = some (s', .ok b, m')) :
    ∃ s₁ a m₁, exec h p m s = some (s₁, .ok a, m₁) ∧
      exec h (f a) m₁ s₁ = some (s', .ok b, m') := by
  rcases exec_bind_cases hexec with hboth | ⟨e, -, he⟩
  · exact hboth
  · cases he

theorem exec_pure_cases {a : α} {r : Except ε α}
    (hexec : exec h (pure a : Comp S μ ε α) m s = some (s', r, m')) :
    s' = s ∧ r = .ok a ∧ m' = m := by
  simp only [exec_pure, Option.some.injEq, Prod.mk.injEq] at hexec
  exact ⟨hexec.1.symm, hexec.2.1.symm, hexec.2.2.symm⟩

theorem exec_throw_cases {e : ε} {r : Except ε α}
    (hexec : exec h (throw e : Comp S μ ε α) m s = some (s', r, m')) :
    s' = s ∧ r = .error e ∧ m' = m := by
  simp only [exec_throw, Option.some.injEq, Prod.mk.injEq] at hexec
  exact ⟨hexec.1.symm, hexec.2.1.symm, hexec.2.2.symm⟩

theorem exec_attempt (h : Handler S σ) (p : Comp S μ ε α) (m : μ) (s : σ) :
    exec h (attempt p) m s = (exec h p m s).map fun x => (x.1, .ok x.2.1, x.2.2) := by
  rw [attempt, exec_ofProg, run_bind, exec]
  cases run h (p.toProg m) s <;> rfl

theorem exec_withMeter (h : Handler S σ) (sub : μ) (p : Comp S μ ε α) (m : μ) (s : σ) :
    exec h (withMeter sub p) m s = (exec h p sub s).map fun x => (x.1, .ok x.2, m) := by
  rw [withMeter, exec_ofProg, run_bind, exec]
  cases run h (p.toProg sub) s <;> rfl

theorem exec_within (w : Wrapper S T ω) (x : ω) (h : Handler T σ) (p : Comp S μ ε α)
    (m : μ) (s : σ) :
    exec h (within w x p) m s = (exec (stack w h) p m (x, s)).map fun y =>
      (y.1.2, .ok (y.1.1, y.2.1), y.2.2) := by
  rw [within, exec_ofProg, run_bind, run_through, exec]
  cases run (stack w h) (p.toProg m) (x, s) <;> rfl

theorem exec_under (w : Wrapper S T Unit) (h : Handler T σ) (p : Comp S μ ε α) (m : μ) (s : σ) :
    exec h (under w p) m s = (exec (stack w h) p m ((), s)).map fun y => (y.1.2, y.2) := by
  rw [under, exec_ofProg, run_map, run_through, exec]
  cases run (stack w h) (p.toProg m) ((), s) <;> rfl

end Comp

end EffectProg
