import LayerSdk.EffectProg

/-!
# Pre- and postconditions for metered programs

`Triple h P p Q R`: run against the object `h` from a state with `P`, the
program `p` ends with a result and `Q`, or with an error and `R`, if it does
not panic. The meter is not seen: what is proved holds at every meter, so it
may run out anywhere.

One rule for each way to build a program. `Triple.bind` carries proofs: the
condition after the first part is the condition before the second, and both
parts share the condition on errors. `Triple.attempt` is the one that turns
an error into a value.

`Twin h P p q Q R` is a triple for `p` that says in addition that `q` does the
same wherever `p` does not panic. So `p` may be `q` with panics put in where
something happens that one wants to watch for.
-/

namespace EffectProg

namespace Comp

variable {S T : Sig} {σ ω μ ε α β : Type}

/-- What holds at the end, by how the program ended. -/
def Ending (Q : α → σ → Prop) (R : ε → σ → Prop) : Except ε α → σ → Prop
  | .ok a => Q a
  | .error e => R e

def Triple (h : Handler S σ) (P : σ → Prop) (p : Comp S μ ε α) (Q : α → σ → Prop)
    (R : ε → σ → Prop) : Prop :=
  ∀ ⦃m m' : μ⦄ ⦃s s' : σ⦄ ⦃r : Except ε α⦄, exec h p m s = some (s', r, m') → P s → Ending Q R r s'

namespace Triple

variable {h : Handler S σ} {P P' : σ → Prop} {Q Q' : α → σ → Prop} {Q₂ : β → σ → Prop}
  {R R' : ε → σ → Prop}

theorem pure {a : α} (hq : ∀ s, P s → Q a s) : Triple h P (pure a : Comp S μ ε α) Q R := by
  intro m m' s s' r hexec hs
  obtain ⟨rfl, rfl, -⟩ := exec_pure_cases hexec
  exact hq _ hs

theorem throw {e : ε} (hr : ∀ s, P s → R e s) : Triple h P (throw e : Comp S μ ε α) Q R := by
  intro m m' s s' r hexec hs
  obtain ⟨rfl, rfl, -⟩ := exec_throw_cases hexec
  exact hr _ hs

theorem panic : Triple h P (panic : Comp S μ ε α) Q R := by
  intro m m' s s' r hexec
  cases hexec

variable {p : Comp S μ ε α}

theorem bind {f : α → Comp S μ ε β} (hp : Triple h P p Q R) (hf : ∀ a, Triple h (Q a) (f a) Q₂ R) :
    Triple h P (p >>= f) Q₂ R := by
  intro m m' s s' r hexec hs
  rcases exec_bind_cases hexec with ⟨s₁, a, m₁, hfirst, hrest⟩ | ⟨e, hfirst, rfl⟩
  · exact hf a hrest (hp hfirst hs)
  · exact hp hfirst hs

theorem map {f : α → β} (hp : Triple h P p (fun a => Q₂ (f a)) R) : Triple h P (f <$> p) Q₂ R := by
  rw [← bind_pure_comp]
  exact bind hp fun a => pure fun s hs => hs

theorem conseq (hp : Triple h P' p Q' R') (hpre : ∀ s, P s → P' s) (hok : ∀ a s, Q' a s → Q a s)
    (herr : ∀ e s, R' e s → R e s) : Triple h P p Q R := by
  intro m m' s s' r hexec hs
  have hend := hp hexec (hpre s hs)
  cases r with
  | ok a => exact hok a s' hend
  | error e => exact herr e s' hend

theorem ite {c : Prop} [Decidable c] {q : Comp S μ ε α} (hp : c → Triple h P p Q R)
    (hq : ¬ c → Triple h P q Q R) : Triple h P (if c then p else q) Q R := by
  by_cases hc : c
  · rw [if_pos hc]
    exact hp hc
  · rw [if_neg hc]
    exact hq hc

theorem ofExcept {x : Except ε α} (hok : ∀ a s, x = .ok a → P s → Q a s)
    (herr : ∀ e s, x = .error e → P s → R e s) :
    Triple h P (ofExcept x : Comp S μ ε α) Q R := by
  cases x with
  | ok a => exact pure fun s => hok a s rfl
  | error e => exact throw fun s => herr e s rfl

/-- Under a wrapper without fields the conditions are on what is below. -/
theorem under {w : Wrapper S T Unit} {h : Handler T σ}
    (hp : Triple (stack w h) (fun x => P x.2) p (fun a x => Q a x.2) fun e x => R e x.2) :
    Triple h P (under w p) Q R := by
  intro m m' s s' r hexec hs
  rw [exec_under] at hexec
  obtain ⟨⟨⟨u, s₁⟩, r₁, m₁⟩, hinner, heq⟩ := Option.map_eq_some_iff.mp hexec
  simp only [Prod.mk.injEq] at heq
  obtain ⟨rfl, rfl, -⟩ := heq
  have hend := hp hinner hs
  cases r₁ <;> exact hend

theorem withMeter {sub : μ} {Q : Except ε α × μ → σ → Prop}
    (hp : Triple h P p (fun a s => ∀ m, Q (.ok a, m) s) fun e s => ∀ m, Q (.error e, m) s) :
    Triple h P (withMeter sub p) Q R := by
  intro m m' s s' r hexec hs
  rw [exec_withMeter] at hexec
  obtain ⟨⟨s₁, r₁, m₁⟩, hinner, heq⟩ := Option.map_eq_some_iff.mp hexec
  obtain ⟨rfl, rfl, -⟩ := heq
  have hend := hp hinner hs
  cases r₁ <;> exact hend m₁

theorem attempt {Q : Except ε α → σ → Prop}
    (hp : Triple h P p (fun a => Q (.ok a)) fun e => Q (.error e)) :
    Triple h P (attempt p) Q R := by
  intro m m' s s' r hexec hs
  rw [exec_attempt] at hexec
  obtain ⟨⟨s₁, r₁, m₁⟩, hinner, heq⟩ := Option.map_eq_some_iff.mp hexec
  obtain ⟨rfl, rfl, -⟩ := heq
  have hend := hp hinner hs
  cases r₁ <;> exact hend

/-- A fact that does not depend on the state may be used before the run. -/
theorem of_fact {c : Prop} (hp : c → Triple h P p Q R) :
    Triple h (fun s => c ∧ P s) p Q R := fun _ _ _ _ _ hexec hs => hp hs.1 hexec hs.2

end Triple

end Comp

end EffectProg
