import Mathlib.Logic.Relation
import Mathlib.Data.Fintype.Pigeonhole
import Mathlib.Tactic.Common

/-!
# Loops over a position

A loop whose whole state is a position in a buffer: each pass ends the loop
with a result or moves to a position (`step`). Such a loop never ends exactly
when it comes back to a position it has been at (`exists_cycle`,
`not_ends_of_cycle`), and to come back it must step back somewhere
(`exists_stepBack`). `run` is the loop with a bound on its passes; a bound
above the number of positions is never what stops it.
-/

namespace LoopRun

variable {ρ : Type} (step : Nat → ρ ⊕ Nat)

/-- The loop from `i`, at most so many passes; `none` while it still runs. -/
def run : Nat → Nat → Option ρ
  | 0, _ => none
  | n + 1, i =>
    match step i with
    | .inl r => some r
    | .inr j => run n j

/-- One pass that goes on. -/
def Leads (i j : Nat) : Prop := step i = .inr j

/-- The loop passes `j` on its way from `i`. -/
abbrev Reaches : Nat → Nat → Prop := Relation.ReflTransGen (Leads step)

variable {step}

variable {i j n : Nat}

theorem run_of_leads (h : Leads step i j) : run step (n + 1) i = run step n j := by
  rw [run, h]

/-- A loop that ends, ends from every position on its way. -/
theorem run_of_reaches {r : ρ} (hij : Reaches step i j) (h : run step n i = some r) :
    ∃ m ≤ n, run step m j = some r := by
  induction hij using Relation.ReflTransGen.head_induction_on generalizing n with
  | refl => exact ⟨n, le_refl n, h⟩
  | head hlead _ ih =>
    cases n with
    | zero => cases h
    | succ n =>
      rw [run_of_leads hlead] at h
      obtain ⟨m, hm, hr⟩ := ih h
      exact ⟨m, Nat.le_succ_of_le hm, hr⟩

/-- A loop that ends does so at a position on its way. -/
theorem exists_reaches_of_run : ∀ {n i : Nat} {r : ρ}, run step n i = some r →
    ∃ j, Reaches step i j ∧ step j = .inl r
  | n + 1, i, r, h => by
    cases hstep : step i with
    | inl r' =>
      rw [run, hstep] at h
      cases h
      exact ⟨i, .refl, hstep⟩
    | inr j =>
      rw [run_of_leads hstep] at h
      obtain ⟨k, hk, hr⟩ := exists_reaches_of_run h
      exact ⟨k, hk.head hstep, hr⟩

/-- A position that leads back to itself is never left. -/
theorem run_eq_none_of_cycle (h : Relation.TransGen (Leads step) i i) :
    ∀ n, run step n i = none := by
  intro n
  induction n using Nat.strong_induction_on with
  | _ n ih =>
    obtain ⟨j, hij, hji⟩ := Relation.TransGen.head'_iff.mp h
    cases n with
    | zero => rfl
    | succ n =>
      rw [run_of_leads hij]
      cases hrun : run step n j with
      | none => rfl
      | some r =>
        obtain ⟨m, hm, hr⟩ := run_of_reaches hji hrun
        rw [ih m (Nat.lt_succ_of_le hm)] at hr
        cases hr

/-- The positions of a loop that is still running after `n` passes. -/
theorem exists_visits : ∀ {n i : Nat}, run step n i = none →
    ∃ f : Nat → Nat, f 0 = i ∧ ∀ k < n, Leads step (f k) (f (k + 1))
  | 0, i, _ => ⟨fun _ => i, rfl, fun _ hk => absurd hk (Nat.not_lt_zero _)⟩
  | n + 1, i, h => by
    cases hstep : step i with
    | inl r =>
      rw [run, hstep] at h
      cases h
    | inr j =>
      rw [run_of_leads hstep] at h
      obtain ⟨f, hf0, hf⟩ := exists_visits h
      refine ⟨fun k => if k = 0 then i else f (k - 1), rfl, fun k hk => ?_⟩
      cases k with
      | zero => simpa [Leads, hf0] using hstep
      | succ k => simpa using hf k (Nat.lt_of_succ_lt_succ hk)

theorem reaches_visits {f : Nat → Nat} (hf : ∀ k < n, Leads step (f k) (f (k + 1))) {a : Nat} :
    ∀ {b : Nat}, a ≤ b → b ≤ n → Reaches step (f a) (f b) := by
  intro b hab
  induction b, hab using Nat.le_induction with
  | base => exact fun _ => .refl
  | succ b _ ih => exact fun hb => (ih (by omega)).tail (hf b (by omega))

/-- Still running after more passes than there are positions: some position
is visited twice. -/
theorem exists_cycle {bound : Nat} (hbound : ∀ i j, Leads step i j → j ≤ bound) (hi : i ≤ bound)
    (h : run step (bound + 1) i = none) :
    ∃ j, Reaches step i j ∧ Relation.TransGen (Leads step) j j := by
  obtain ⟨f, rfl, hf⟩ := exists_visits h
  have hle : ∀ k ≤ bound + 1, f k ≤ bound := by
    intro k hk
    cases k with
    | zero => exact hi
    | succ k => exact hbound _ _ (hf k hk)
  have hlt : Fintype.card (Fin (bound + 1)) < Fintype.card (Fin (bound + 2)) := by simp
  obtain ⟨a, b, hne, heq⟩ := Fintype.exists_ne_map_eq_of_card_lt
    (fun k : Fin (bound + 2) => (⟨f k, Nat.lt_succ_of_le (hle k (Nat.le_of_lt_succ k.isLt))⟩ :
      Fin (bound + 1))) hlt
  have heq' : f a = f b := congrArg Fin.val heq
  -- from the earlier visit on to the later one
  have hcycle : ∀ a b : Fin (bound + 2), a.val < b.val → f a = f b →
      ∃ j, Reaches step (f 0) j ∧ Relation.TransGen (Leads step) j j := by
    intro a b hab heq
    refine ⟨f a, reaches_visits hf (Nat.zero_le _) (by omega), ?_⟩
    have hback := reaches_visits hf (show a.val + 1 ≤ b.val from hab) (by omega)
    rw [← heq] at hback
    exact Relation.TransGen.head' (hf a (by omega)) hback
  rcases Nat.lt_or_gt_of_ne (fun hv => hne (Fin.ext hv)) with hab | hab
  · exact hcycle a b hab heq'
  · exact hcycle b a hab heq'.symm

/-- A way that does not lead up goes back at some step. -/
theorem exists_stepBack (h : Relation.TransGen (Leads step) i j) :
    i < j ∨ ∃ a b, Reaches step i a ∧ Leads step a b ∧ b ≤ a ∧ Reaches step b j := by
  induction h with
  | single hlead =>
    rename_i j
    rcases Nat.lt_or_ge i j with hlt | hge
    · exact .inl hlt
    · exact .inr ⟨i, j, .refl, hlead, hge, .refl⟩
  | tail hij hlead ih =>
    rename_i j k
    rcases ih with hlt | ⟨a, b, hia, hab, hle, hbj⟩
    · rcases Nat.lt_or_ge j k with hlt' | hge
      · exact .inl (hlt.trans hlt')
      · exact .inr ⟨j, k, hij.to_reflTransGen, hlead, hge, .refl⟩
    · exact .inr ⟨a, b, hia, hab, hle, hbj.tail hlead⟩

/-- **When a loop ends.** With positions up to `bound`, the loop ends within
`bound + 1` passes unless a pass on its way goes back to a position from which
the loop comes to that pass again. -/
theorem run_isSome_iff {bound : Nat} (hbound : ∀ i j, Leads step i j → j ≤ bound) (hi : i ≤ bound) :
    (run step (bound + 1) i).isSome ↔
      ∀ a b, Reaches step i a → Leads step a b → b ≤ a → ¬ Reaches step b a := by
  constructor
  · intro hsome a b hia hab _ hba
    obtain ⟨r, hr⟩ := Option.isSome_iff_exists.mp hsome
    obtain ⟨m, -, hm⟩ := run_of_reaches hia hr
    rw [run_eq_none_of_cycle (Relation.TransGen.head' hab hba)] at hm
    cases hm
  · intro hno
    by_contra hnone
    obtain ⟨j, hij, hcycle⟩ := exists_cycle hbound hi (Option.not_isSome_iff_eq_none.mp hnone)
    rcases exists_stepBack hcycle with hlt | ⟨a, b, hja, hab, hle, hbj⟩
    · exact Nat.lt_irrefl j hlt
    · exact hno a b (hij.trans hja) hab hle (hbj.trans hja)

end LoopRun
