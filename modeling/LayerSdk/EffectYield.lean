import LayerSdk.EffectProg

/-!
# What a program asks and gives back

`Yields P Q p`: whatever the answers are, every operation `p` calls satisfies
`P` and every result it ends with satisfies `Q`. It is read off the tree, so
it needs no object to run against. `Yields.through` carries it over a
wrapper, whose fields may keep an invariant; `Yields.run` gives it back for
an object: what the operations in `P` preserve, the run preserves.
-/

namespace EffectProg

variable {S T : Sig} {α β σ τ ω : Type}

def Yields (P : S.Op → Prop) (Q : α → Prop) : Prog S α → Prop
  | .ret a => Q a
  | .crash => True
  | .call op k => P op ∧ ∀ r, Yields P Q (k r)

namespace Yields

variable {P : S.Op → Prop} {P' : T.Op → Prop} {Q : α → Prop} {R : β → Prop}

theorem perform {op : S.Op} (hop : P op) : Yields P (fun _ => True) (perform op) :=
  ⟨hop, fun _ => trivial⟩

variable {p : Prog S α} {h : Handler S σ}

theorem bind {f : α → Prog S β} (hp : Yields P Q p) (hf : ∀ a, Q a → Yields P R (f a)) :
    Yields P R (p >>= f) := by
  induction p with
  | ret a => exact hf a hp
  | crash => trivial
  | call op k ih => exact ⟨hp.1, fun r => ih r (hp.2 r)⟩

theorem mono {Q' : α → Prop} (hp : Yields P Q p) (hQ : ∀ a, Q a → Q' a) : Yields P Q' p := by
  induction p with
  | ret a => exact hQ a hp
  | crash => trivial
  | call op k ih => exact ⟨hp.1, fun r => ih r (hp.2 r)⟩

theorem mono_op {P' : S.Op → Prop} (hp : Yields P Q p) (hP : ∀ op, P op → P' op) :
    Yields P' Q p := by
  induction p with
  | ret a => exact hp
  | crash => trivial
  | call op k ih => exact ⟨hP op hp.1, fun r => ih r (hp.2 r)⟩

theorem map {f : α → β} (hp : Yields P Q p) (hf : ∀ a, Q a → R (f a)) : Yields P R (f <$> p) := by
  rw [← bind_pure_comp]
  exact hp.bind hf

/-- A wrapper that turns operations in `P` into operations in `P'` and keeps `I`
does so for a whole program. -/
theorem through {w : Wrapper S T ω} {I : ω → Prop}
    (hw : ∀ op x, P op → I x → Yields P' (fun y => I y.1) (w op x)) :
    ∀ {x : ω}, Yields P Q p → I x → Yields P' (fun y => I y.1 ∧ Q y.2) (through w p x) := by
  induction p with
  | ret a => exact fun hp hx => ⟨hx, hp⟩
  | crash => exact fun _ _ => trivial
  | call op k ih =>
    intro x hp hx
    exact bind (hw op x hp.1 hx) fun y hy => ih y.2 (hp.2 y.2) hy

/-- Any program, if nothing is asked of its operations. -/
theorem any : ∀ p : Prog S α, Yields (fun _ => True) (fun _ => True) p
  | .ret _ => trivial
  | .crash => trivial
  | .call _ k => ⟨trivial, fun r => any (k r)⟩

theorem run {I : σ → Prop} (hI : ∀ op s s' r, P op → h op s = some (s', r) → I s → I s') :
    ∀ {s s' : σ} {a : α}, Yields P Q p → run h p s = some (s', a) → I s → I s' := by
  induction p with
  | ret a =>
    intro s s' b _ hrun hs
    cases hrun
    exact hs
  | crash =>
    intro s s' b _ hrun _
    cases hrun
  | call op k ih =>
    intro s s' b hp hrun hs
    rw [run_call] at hrun
    obtain ⟨⟨t, r⟩, hop, hrest⟩ := Option.bind_eq_some_iff.mp hrun
    exact ih r (hp.2 r) hrest (hI op s t r hp.1 hop hs)

theorem result :
    ∀ {s s' : σ} {a : α}, Yields P Q p → EffectProg.run h p s = some (s', a) → Q a := by
  induction p with
  | ret a =>
    intro s s' b hp hrun
    cases hrun
    exact hp
  | crash =>
    intro s s' b _ hrun
    cases hrun
  | call op k ih =>
    intro s s' b hp hrun
    rw [run_call] at hrun
    obtain ⟨⟨t, r⟩, -, hrest⟩ := Option.bind_eq_some_iff.mp hrun
    exact ih r (hp.2 r) hrest

/-- Two objects whose related states answer the operations in `P` alike cannot be
told apart by a program that calls no others. -/
theorem run_rel {g : Handler S τ} (R : σ → τ → Prop) (hR : ∀ op s t, P op → R s t →
      Option.Rel (fun x y => R x.1 y.1 ∧ x.2 = y.2) (h op s) (g op t)) :
    ∀ {s : σ} {t : τ}, Yields P Q p → R s t →
      Option.Rel (fun x y => R x.1 y.1 ∧ x.2 = y.2) (EffectProg.run h p s)
        (EffectProg.run g p t) := by
  induction p with
  | ret a => exact fun _ hst => .some ⟨hst, rfl⟩
  | crash => exact fun _ _ => .none
  | call op k ih =>
    intro s t hp hst
    simp only [run_call]
    have hop := hR op s t hp.1 hst
    generalize h op s = x at hop
    generalize g op t = y at hop
    cases hop with
    | none => exact .none
    | @some a b hab =>
      obtain ⟨hst', hr⟩ := hab
      simp only [Option.bind_some, hr]
      exact ih b.2 (hp.2 b.2) hst'

end Yields

end EffectProg
