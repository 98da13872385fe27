import LayerSdk.EffectHoare

/-!
# Programs in a world that moves

A program asks, and the world answers when it gets to it: between two
questions it may change by itself, and it may answer in several ways. An
environment says which answers are possible, in which worlds. `Played` is
what a run may have done so far, cut off anywhere.

`Always` is read off the program: whatever the answers, each exchange is as
`ok` asks. `Always.played` gives it back for every run. `Safe` is the same for
programs that can fail and keep a state of their own, with one rule for each
way to build one.
-/

namespace EffectProg

variable {S : Sig} {W μ ε α β : Type}

/-- Asked in one world, the operation may be answered so in a later one. -/
abbrev Env (S : Sig) (W : Type) := W → (op : S.Op) → S.Res op → W → Prop

/-- A run so far: the exchanges, each with the world that answered. -/
def Played (env : Env S W) : Prog S α → W → List (W × Exchange S) → Prop
  | .ret _, _, log => log = []
  | .crash, _, log => log = []
  | .call op k, w, log => log = [] ∨
      ∃ r v rest, log = (v, ⟨op, r⟩) :: rest ∧ env w op r v ∧ Played env (k r) v rest

/-- A run is one of the environment with only the exchanges that it made. -/
theorem Played.restrict {env : Env S W} {C : W → Exchange S → Prop} {p : Prog S α} :
    ∀ {w : W} {log : List (W × Exchange S)}, Played env p w log → (∀ x ∈ log, C x.1 x.2) →
      Played (fun w op r v => env w op r v ∧ C v ⟨op, r⟩) p w log := by
  induction p with
  | ret a | crash => exact fun h _ => h
  | call op k ih =>
    rintro w log (hnil | ⟨r, v, rest, rfl, henv, hrest⟩) hlog
    · exact .inl hnil
    · obtain ⟨hfirst, hlater⟩ := List.forall_mem_cons.mp hlog
      exact .inr ⟨r, v, rest, rfl, ⟨henv, hfirst⟩, ih r hrest hlater⟩

/-- Every exchange is `ok`, and a result comes with `Q`. -/
def Always (env : Env S W) (ok : W → Exchange S → Prop) (Q : α → W → Prop) :
    Prog S α → W → Prop
  | .ret a, w => Q a w
  | .crash, _ => True
  | .call op k, w => ∀ r v, env w op r v → ok v ⟨op, r⟩ ∧ Always env ok Q (k r) v

namespace Always

variable {env : Env S W} {ok : W → Exchange S → Prop} {Q Q' : α → W → Prop} {R : β → W → Prop}

theorem played {p : Prog S α} : ∀ {w : W} {log : List (W × Exchange S)}, Always env ok Q p w →
    Played env p w log → ∀ x ∈ log, ok x.1 x.2 := by
  induction p with
  | ret a | crash =>
    rintro w log - rfl x hx
    cases hx
  | call op k ih =>
    rintro w log h (rfl | ⟨r, v, rest, rfl, henv, hrest⟩) x hx
    · cases hx
    · obtain ⟨hok, hlater⟩ := h r v henv
      rcases List.mem_cons.mp hx with rfl | hx
      · exact hok
      · exact ih r hlater hrest x hx

theorem bind {p : Prog S α} {f : α → Prog S β} : ∀ {w : W}, Always env ok Q p w →
    (∀ a v, Q a v → Always env ok R (f a) v) → Always env ok R (p >>= f) w := by
  change ∀ {w : W}, Always env ok Q p w → (∀ a v, Q a v → Always env ok R (f a) v) →
    Always env ok R (p.bind f) w
  induction p with
  | ret a => exact fun h hf => hf a _ h
  | crash => exact fun _ _ => trivial
  | call op k ih =>
    exact fun h hf r v henv => ⟨(h r v henv).1, ih r (h r v henv).2 hf⟩

theorem mono {p : Prog S α} : ∀ {w : W}, Always env ok Q p w → (∀ a v, Q a v → Q' a v) →
    Always env ok Q' p w := by
  induction p with
  | ret a => exact fun h hQ => hQ a _ h
  | crash => exact fun _ _ => trivial
  | call op k ih => exact fun h hQ r v henv => ⟨(h r v henv).1, ih r (h r v henv).2 hQ⟩

end Always

namespace Comp

/-- From a world with `P`, every exchange is `ok`, and the end comes with `Q` or `R`. -/
def Safe (env : Env S W) (ok : W → Exchange S → Prop) (P : W → Prop) (p : Comp S μ ε α)
    (Q : α → W → Prop) (R : ε → W → Prop) : Prop :=
  ∀ (m : μ) (w : W), P w →
    Always env ok (fun (x : Except ε α × μ) v => Ending Q R x.1 v) (p.toProg m) w

namespace Safe

variable {env : Env S W} {ok : W → Exchange S → Prop} {P P' : W → Prop} {Q Q' : α → W → Prop}
  {Q₂ : β → W → Prop} {R R' : ε → W → Prop}

theorem pure {a : α} (h : ∀ w, P w → Q a w) : Safe env ok P (pure a : Comp S μ ε α) Q R :=
  fun _ w hw => h w hw

theorem throw {e : ε} (h : ∀ w, P w → R e w) : Safe env ok P (throw e : Comp S μ ε α) Q R :=
  fun _ w hw => h w hw

theorem ofExcept {x : Except ε α} (hok : ∀ a w, x = .ok a → P w → Q a w)
    (herr : ∀ e w, x = .error e → P w → R e w) :
    Safe env ok P (ofExcept x : Comp S μ ε α) Q R := by
  cases x with
  | ok a => exact pure fun w => hok a w rfl
  | error e => exact throw fun w => herr e w rfl

variable {p : Comp S μ ε α}

theorem bind {f : α → Comp S μ ε β} (hp : Safe env ok P p Q R)
    (hf : ∀ a, Safe env ok (Q a) (f a) Q₂ R) : Safe env ok P (p >>= f) Q₂ R := by
  intro m w hw
  refine Always.bind (hp m w hw) fun x v hx => ?_
  obtain ⟨r, m'⟩ := x
  cases r with
  | ok a => exact hf a m' v hx
  | error e => exact hx

theorem map {f : α → β} (hp : Safe env ok P p (fun a => Q₂ (f a)) R) :
    Safe env ok P (f <$> p) Q₂ R := by
  rw [← bind_pure_comp]
  exact bind hp fun a => pure fun w hw => hw

theorem ite {c : Prop} [Decidable c] {q : Comp S μ ε α} (hp : c → Safe env ok P p Q R)
    (hq : ¬ c → Safe env ok P q Q R) : Safe env ok P (if c then p else q) Q R := by
  by_cases hc : c
  · rw [if_pos hc]
    exact hp hc
  · rw [if_neg hc]
    exact hq hc

theorem attempt {Q₂ : Except ε α → W → Prop}
    (hp : Safe env ok P p (fun a => Q₂ (.ok a)) fun e => Q₂ (.error e)) :
    Safe env ok P (attempt p) Q₂ R := by
  intro m w hw
  refine Always.bind (hp m w hw) fun x v hx => ?_
  obtain ⟨r, m'⟩ := x
  cases r <;> exact hx

theorem conseq (hp : Safe env ok P' p Q' R') (hpre : ∀ w, P w → P' w)
    (hok : ∀ a w, Q' a w → Q a w) (herr : ∀ e w, R' e w → R e w) : Safe env ok P p Q R := by
  intro m w hw
  refine (hp m w (hpre w hw)).mono fun x v hx => ?_
  obtain ⟨r, m'⟩ := x
  cases r with
  | ok a => exact hok a v hx
  | error e => exact herr e v hx

end Safe

end Comp

end EffectProg
