import Mathlib.Algebra.GroupWithZero.Nat

/-!
# Greedy selection

Items in a fixed order, a number of places and a budget for their sizes: each
item in turn is taken if it still fits and passed over if it does not, until
the places are used up. What is selected from a list is determined item by
item (`mem_select_iff`): an item gets in if, after the selection from the
items before it, there is a place and enough budget left.
-/

namespace Greedy

variable {α : Type} (size : α → Nat)

def total (l : List α) : Nat := (l.map size).sum

def select : Nat → Nat → List α → List α
  | _, _, [] => []
  | 0, _, _ :: _ => []
  | places + 1, budget, x :: xs =>
    if budget < size x then select (places + 1) budget xs
    else x :: select places (budget - size x) xs

variable {size}

@[simp] theorem select_zero (budget : Nat) (l : List α) : select size 0 budget l = [] := by
  cases l <;> rfl

theorem select_cons_over {places budget : Nat} {x : α} (h : budget < size x) (xs : List α) :
    select size places budget (x :: xs) = select size places budget xs := by
  cases places with
  | zero => rw [select_zero, select_zero]
  | succ places => rw [select, if_pos h]

theorem select_cons_fits {places budget : Nat} {x : α} (h : ¬ budget < size x) (xs : List α) :
    select size (places + 1) budget (x :: xs) =
      x :: select size places (budget - size x) xs := by
  rw [select, if_neg h]

theorem select_sublist (places budget : Nat) (l : List α) :
    (select size places budget l).Sublist l := by
  fun_induction select size places budget l with
  | case1 => exact List.Sublist.refl []
  | case2 => exact List.nil_sublist _
  | case3 places budget x xs _ ih => exact ih.cons x
  | case4 places budget x xs _ ih => exact ih.cons_cons x

theorem length_select_le (places budget : Nat) (l : List α) :
    (select size places budget l).length ≤ places := by
  fun_induction select size places budget l with
  | case1 => exact Nat.zero_le _
  | case2 => exact Nat.le_refl 0
  | case3 places budget x xs _ ih => exact ih
  | case4 places budget x xs _ ih => exact Nat.succ_le_succ ih

theorem total_select_le (places budget : Nat) (l : List α) :
    total size (select size places budget l) ≤ budget := by
  fun_induction select size places budget l with
  | case1 | case2 => exact Nat.zero_le _
  | case3 places budget x xs _ ih => exact ih
  | case4 places budget x xs h ih =>
    rw [total, List.map_cons, List.sum_cons, ← total]
    omega

/-- What comes later in the list takes nothing away. -/
theorem length_select_append : ∀ (places budget : Nat) (l l' : List α),
    (select size places budget l).length ≤ (select size places budget (l ++ l')).length
  | _, _, [], _ => Nat.zero_le _
  | 0, _, _ :: _, _ => Nat.zero_le _
  | places + 1, budget, x :: xs, l' => by
    rw [List.cons_append]
    by_cases h : budget < size x
    · rw [select_cons_over h, select_cons_over h]
      exact length_select_append (places + 1) budget xs l'
    · rw [select_cons_fits h, select_cons_fits h]
      exact Nat.succ_le_succ (length_select_append places _ xs l')

/-- What is selected from a list: the items that find a place and fit, after
the selection from those before them. -/
theorem mem_select_iff {x : α} : ∀ {places budget : Nat} {l : List α},
    x ∈ select size places budget l ↔ ∃ before after, l = before ++ x :: after ∧
      (select size places budget before).length < places ∧
      total size (select size places budget before) + size x ≤ budget
  | places, budget, [] => by simp [select]
  | 0, budget, y :: ys => by simp
  | places + 1, budget, y :: ys => by
    by_cases h : budget < size y
    · rw [select_cons_over h, mem_select_iff]
      constructor
      · rintro ⟨before, after, rfl, hplace, hfits⟩
        refine ⟨y :: before, after, rfl, ?_, ?_⟩
        · rwa [select_cons_over h]
        · rwa [select_cons_over h]
      · rintro ⟨before, after, hsplit, hplace, hfits⟩
        cases before with
        | nil =>
          obtain ⟨rfl, rfl⟩ := List.cons.inj hsplit
          rw [select, total, List.map_nil, List.sum_nil] at hfits
          omega
        | cons z before =>
          obtain ⟨rfl, rfl⟩ := List.cons.inj hsplit
          rw [select_cons_over h] at hplace hfits
          exact ⟨before, after, rfl, hplace, hfits⟩
    · have hle := Nat.not_lt.mp h
      rw [select_cons_fits h, List.mem_cons, mem_select_iff]
      constructor
      · rintro (rfl | ⟨before, after, rfl, hplace, hfits⟩)
        · refine ⟨[], ys, rfl, Nat.succ_pos _, ?_⟩
          rw [select, total, List.map_nil, List.sum_nil]
          omega
        · refine ⟨y :: before, after, rfl, ?_, ?_⟩
          · rw [select_cons_fits h, List.length_cons]
            omega
          · rw [select_cons_fits h, total, List.map_cons, List.sum_cons, ← total]
            omega
      · rintro ⟨before, after, hsplit, hplace, hfits⟩
        cases before with
        | nil =>
          obtain ⟨rfl, -⟩ := List.cons.inj hsplit
          exact .inl rfl
        | cons z before =>
          obtain ⟨rfl, rfl⟩ := List.cons.inj hsplit
          rw [select_cons_fits h] at hplace hfits
          rw [total, List.map_cons, List.sum_cons, ← total] at hfits
          rw [List.length_cons] at hplace
          exact .inr ⟨before, after, rfl, by omega, by omega⟩

end Greedy
