import LayerSdk.Overlay
import LayerSdk.StepIter

/-!
# The merged iterator, call by call

`mergeOverlay` says what a consumer sees that stops at the first error. Here
the iterator is followed through every call of `next`, over a base that may
return errors and go on.

With local changes left, an error of the base is returned from the look-ahead
and not taken: the next call finds it again, and the iterator never ends
(`endless_of_stalls`). Without local changes left it is taken like any other
item. So an iterator over any number of overlays ends, after at most one item
per entry, exactly if no level below returns an error before a level above has
gone through its own changes (`range_ends_iff`).
-/

namespace LayerSdk

open StepIter

/-- What a storage iterator returns. -/
abbrev RangeItem := GasResult Record

/-! ## The source's functions -/

def Order.compareKeys : Order → Bytes → Bytes → Ordering
  | .ascending, lkey, rkey => compare lkey rkey
  | .descending, lkey, rkey => compare rkey lkey

section Next

variable {σ : Type} (base : Step σ RangeItem) (order : Order)

/-- A `MergeOverlay`: the local changes not yet returned, and the base. -/
abbrev Merging (σ : Type) := List (Bytes × Delta) × Peek σ RangeItem

/-- A deleted entry makes the same call go on. -/
def takeLeft (key : Bytes) (d : Delta) (left : List (Bytes × Delta)) (right : Peek σ RangeItem)
    (again : Option RangeItem × Merging σ) : Option RangeItem × Merging σ :=
  match d with
  | .set value => (some (.ok (key, value)), left, right)
  | .delete => again

def mergeNext : List (Bytes × Delta) → Peek σ RangeItem → Option RangeItem × Merging σ
  | [], right =>
    match right.peek base with
    | (none, right) => (none, [], right)
    | (some _, right) => ((right.take base).1, [], (right.take base).2)
  | (key, d) :: left, right =>
    match right.peek base with
    | (none, right) => takeLeft key d left right (mergeNext left right)
    -- the error is only looked at
    | (some (.error e), right) => (some (.error e), (key, d) :: left, right)
    | (some (.ok r), right) =>
      match order.compareKeys key r.1 with
      | .lt => takeLeft key d left right (mergeNext left right)
      | .eq => takeLeft key d left (right.take base).2 (mergeNext left (right.take base).2)
      | .gt => ((right.take base).1, (key, d) :: left, (right.take base).2)

def mergeStep : Step (Merging σ) RangeItem := fun s => mergeNext base order s.1 s.2

/-- The iterators of overlays on top of each other. -/
def Nest (σ : Type) : Nat → Type
  | 0 => σ
  | n + 1 => Merging (Nest σ n)

def nestStep : (n : Nat) → Step (Nest σ n) RangeItem
  | 0 => base
  | n + 1 => mergeStep (nestStep n) order

/-- `range` of each overlay over the range of the one below, innermost last. -/
def nestRange (s : σ) (start stop : Option Bytes) (order : Order) :
    (levels : List Overlay) → Nest σ levels.length
  | [] => s
  | ov :: below => (mapRange ov start stop order, .fresh (nestRange s start stop order below))

end Next

/-! ## One call -/

theorem compareKeys_of_before {order : Order} {a b : Bytes} (h : Before order a b) :
    order.compareKeys a b = .lt := by
  cases order <;> exact h

theorem compareKeys_of_after {order : Order} {a b : Bytes} (h : Before order b a) :
    order.compareKeys a b = .gt := by
  cases order with
  | ascending =>
    have hgt : compare a b = .gt := Std.OrientedCmp.gt_iff_lt.mpr h
    exact hgt
  | descending =>
    have hgt : compare b a = .gt := Std.OrientedCmp.gt_iff_lt.mpr h
    exact hgt

theorem compareKeys_self (order : Order) (a : Bytes) : order.compareKeys a a = .eq := by
  have heq : compare a a = .eq := Std.ReflCmp.compare_self
  cases order <;> exact heq

theorem Before.irrefl {order : Order} {a : Bytes} : ¬ Before order a a := fun h => h.ne rfl

/-- A call with a change to come, by what the base has next. -/
inductive Meets {σ : Type} (base : Step σ RangeItem) (order : Order) (key : Bytes) (d : Delta)
    (left : List (Bytes × Delta)) : List RangeItem → Option RangeItem × Merging σ → Prop
  | done {right} (h : right.Holds base []) :
      Meets base order key d left [] (takeLeft key d left right (mergeNext base order left right))
  /-- The error stays where it is. -/
  | error {e items right} (h : right.Holds base (.error e :: items)) :
      Meets base order key d left (.error e :: items) (some (.error e), (key, d) :: left, right)
  | before {r items right} (h : right.Holds base (.ok r :: items)) (hlt : Before order key r.1) :
      Meets base order key d left (.ok r :: items)
        (takeLeft key d left right (mergeNext base order left right))
  /-- The change takes the place of the record. -/
  | same {r items right} (h : right.Holds base items) (heq : key = r.1) :
      Meets base order key d left (.ok r :: items)
        (takeLeft key d left right (mergeNext base order left right))
  | after {r items right} (h : right.Holds base items) (hgt : Before order r.1 key) :
      Meets base order key d left (.ok r :: items) (some (.ok r), (key, d) :: left, right)

section Call

variable {σ : Type} {base : Step σ RangeItem} {right : Peek σ RangeItem} {items : List RangeItem}
  {r : Record}

theorem peek_eq (h : right.Holds base items) :
    ∃ right', right'.Holds base items ∧ right.peek base = (items.head?, right') :=
  ⟨_, h.peek.2, Prod.ext h.peek.1 rfl⟩

/-- Without changes left the base is passed on. -/
theorem mergeNext_nil (order : Order) (h : right.Holds base items) :
    ∃ right', right'.Holds base items.tail ∧
      mergeNext base order [] right = (items.head?, [], right') := by
  obtain ⟨right', hholds, hpeek⟩ := peek_eq h
  rw [mergeNext, hpeek]
  cases items with
  | nil => exact ⟨right', hholds, rfl⟩
  | cons a rest =>
    obtain ⟨htake, hrest⟩ := hholds.take
    exact ⟨_, hrest, congrArg (fun x => (x, [], (right'.take base).2)) htake⟩

theorem mergeNext_cons (order : Order) (key : Bytes) (d : Delta) (left : List (Bytes × Delta))
    (h : right.Holds base items) :
    Meets base order key d left items (mergeNext base order ((key, d) :: left) right) := by
  obtain ⟨right', hholds, hpeek⟩ := peek_eq h
  rw [mergeNext, hpeek]
  rcases items with _ | ⟨e | r, rest⟩
  · exact .done hholds
  · exact .error hholds
  obtain ⟨htake, hrest⟩ := hholds.take
  simp only [List.head?_cons]
  rcases before_trichotomy order key r.1 with hlt | heq | hgt
  · rw [compareKeys_of_before hlt]
    exact .before hholds hlt
  · rw [heq, compareKeys_self]
    exact .same hrest rfl
  · rw [compareKeys_of_after hgt, htake]
    exact .after hrest hgt

end Call

/-! ## When a level stalls -/

/-- Before every error of the base, a record that no local change comes after. -/
def NoStall (order : Order) (left : List (Bytes × Delta)) (items : List RangeItem) : Prop :=
  ∀ (j : Nat) (e : GasError), items[j]? = some (.error e) → ∀ x ∈ left, ∃ i < j, ∃ r : Record,
    items[i]? = some (.ok r) ∧ ¬ Before order r.1 x.1

section NoStall

variable {order : Order} {key : Bytes} {d : Delta} {left : List (Bytes × Delta)} {r : Record}
  {items : List RangeItem}

theorem NoStall.of_nil : NoStall order [] items := fun _ _ _ x hx => by cases hx

theorem NoStall.of_cons (h : NoStall order ((key, d) :: left) items) : NoStall order left items :=
  fun j e he x hx => h j e he x (List.mem_cons_of_mem _ hx)

/-- A record that comes before all of the changes proves nothing. -/
theorem NoStall.tail (h : NoStall order left (.ok r :: items))
    (hbefore : ∀ x ∈ left, Before order r.1 x.1) : NoStall order left items := by
  intro j e he x hx
  obtain ⟨i, hi, r', hr', hnot⟩ := h (j + 1) e (by simpa using he) x hx
  cases i with
  | zero =>
    obtain rfl : r = r' := by simpa using hr'
    exact absurd (hbefore x hx) hnot
  | succ i => exact ⟨i, by omega, r', by simpa using hr', hnot⟩

theorem NoStall.error_head {e : GasError} (h : NoStall order left (.error e :: items)) :
    left = [] := by
  cases left with
  | nil => rfl
  | cons x left =>
    obtain ⟨i, hi, -⟩ := h 0 e rfl x (List.mem_cons_self)
    omega

end NoStall

section Level

variable {σ : Type} {base : Step σ RangeItem} {order : Order}

/-- A level that does not stall, with what is left of it. -/
structure Calm (base : Step σ RangeItem) (order : Order) (left : List (Bytes × Delta))
    (right : Peek σ RangeItem) (items : List RangeItem) : Prop where
  arranged : Arranged order left
  noStall : NoStall order left items
  holds : right.Holds base items

/-- After a call: over, or calm with less left. -/
def Proceeds (base : Step σ RangeItem) (order : Order) (total : Nat)
    (res : Option RangeItem × Merging σ) : Prop :=
  (res.1 = none ∧ res.2.1 = [] ∧ res.2.2.Holds base []) ∨
  ∃ item items', res.1 = some item ∧ Calm base order res.2.1 res.2.2 items' ∧
    res.2.1.length + items'.length < total

theorem Proceeds.mono {total total' : Nat} {res : Option RangeItem × Merging σ}
    (h : Proceeds base order total res) (hle : total ≤ total') : Proceeds base order total' res := by
  rcases h with h | ⟨item, items', hitem, hcalm, hlt⟩
  · exact .inl h
  · exact .inr ⟨item, items', hitem, hcalm, by omega⟩

variable {key : Bytes} {d : Delta} {left : List (Bytes × Delta)} {right : Peek σ RangeItem}
  {items : List RangeItem} {again : Option RangeItem × Merging σ} {s : Merging σ}

theorem proceeds_takeLeft {total : Nat} (hcalm : Calm base order left right items)
    (hlt : left.length + items.length < total)
    (hagain : Proceeds base order (left.length + items.length) again) :
    Proceeds base order total (takeLeft key d left right again) := by
  cases d with
  | set value => exact .inr ⟨_, items, rfl, hcalm, hlt⟩
  | delete => exact hagain.mono (Nat.le_of_lt hlt)

/-- One call of a calm level. The induction is on the local changes, as deleted ones are
skipped within the call. -/
theorem mergeNext_proceeds : ∀ (left : List (Bytes × Delta)) (right : Peek σ RangeItem)
    (items : List RangeItem), Calm base order left right items →
      Proceeds base order (left.length + items.length) (mergeNext base order left right)
  | [], right, items, h => by
    obtain ⟨right', hrest, heq⟩ := mergeNext_nil order h.holds
    rw [heq]
    cases items with
    | nil => exact .inl ⟨rfl, rfl, hrest⟩
    | cons a rest =>
      exact .inr ⟨a, rest, rfl, ⟨h.arranged, .of_nil, hrest⟩, by simp⟩
  | (key, d) :: left, right, items, h => by
    obtain ⟨hhead, harr⟩ := List.pairwise_cons.mp h.arranged
    have hmeets := mergeNext_cons order key d left h.holds
    generalize mergeNext base order ((key, d) :: left) right = res at hmeets
    cases hmeets with
    | done hrest | before hrest hlt =>
      have hcalm := Calm.mk harr h.noStall.of_cons hrest
      exact proceeds_takeLeft hcalm (by simp) (mergeNext_proceeds left _ _ hcalm)
    | error hrest => exact absurd h.noStall.error_head (by simp)
    | same hrest heq =>
      have hcalm := Calm.mk harr (h.noStall.of_cons.tail (heq ▸ hhead)) hrest
      exact proceeds_takeLeft hcalm (by simp only [List.length_cons]; omega)
        (mergeNext_proceeds left _ _ hcalm)
    | after hrest hgt =>
      refine .inr ⟨_, _, rfl, ⟨h.arranged, h.noStall.tail ?_, hrest⟩, by simp⟩
      intro x hx
      rcases List.mem_cons.mp hx with rfl | hx
      · exact hgt
      · exact hgt.trans (hhead x hx)

/-- With nothing left there is nothing to come. -/
theorem yields_ended (hleft : s.1 = []) (hright : s.2.Holds base []) :
    Yields (mergeStep base order) s [] := by
  refine yields_nil_of_invariant (fun s => s.1 = [] ∧ s.2.Holds base []) ?_ ⟨hleft, hright⟩
  rintro ⟨left, right⟩ ⟨hnil, hholds⟩
  obtain rfl : left = [] := hnil
  have hcalm : Calm base order [] right [] :=
    ⟨List.Pairwise.nil, .of_nil, hholds⟩
  rcases mergeNext_proceeds [] right [] hcalm with hend | ⟨item, items', -, -, hlt⟩
  · exact hend
  · exact absurd hlt (Nat.not_lt_zero _)

/-- A calm level ends, after at most one item per entry. -/
theorem Calm.yields : ∀ (total : Nat) {left : List (Bytes × Delta)} {right : Peek σ RangeItem}
    {items : List RangeItem}, Calm base order left right items →
    left.length + items.length < total →
      ∃ out, Yields (mergeStep base order) (left, right) out ∧
        out.length ≤ left.length + items.length
  | 0, _, _, _, _, hlt => absurd hlt (Nat.not_lt_zero _)
  | total + 1, left, right, items, h, hlt => by
    rcases mergeNext_proceeds left right items h with ⟨hnone, hleft, hright⟩ |
      ⟨item, items', hitem, hcalm, hless⟩
    · exact ⟨[], yields_iff.mpr ⟨hnone, yields_ended hleft hright⟩, Nat.zero_le _⟩
    · obtain ⟨out, hout, hlen⟩ := Calm.yields total hcalm (by omega)
      exact ⟨item :: out, .cons hitem hout, by simp only [List.length_cons]; omega⟩

/-! ## A stalled level -/

/-- An error of the base that comes before a local change. -/
def Stalls (base : Step σ RangeItem) (order : Order) (s : Merging σ) : Prop :=
  ∃ items : List RangeItem, s.2.Holds base items ∧ ∃ (j : Nat) (e : GasError),
    items[j]? = some (.error e) ∧ ∃ x ∈ s.1,
      ∀ i < j, ∀ r : Record, items[i]? = some (.ok r) → Before order r.1 x.1

theorem stalls_takeLeft (hstalls : Stalls base order (left, right))
    (hagain : again.1.isSome = true ∧ Stalls base order again.2) :
    (takeLeft key d left right again).1.isSome = true ∧
      Stalls base order (takeLeft key d left right again).2 := by
  cases d with
  | set value => exact ⟨rfl, hstalls⟩
  | delete => exact hagain

/-- The change that is waited for is never reached. -/
theorem mergeNext_stalls : ∀ (left : List (Bytes × Delta)) (right : Peek σ RangeItem),
    Stalls base order (left, right) → (mergeNext base order left right).1.isSome = true ∧
      Stalls base order (mergeNext base order left right).2
  | [], right, ⟨_, _, _, _, _, _, hx, _⟩ => by cases hx
  | (key, d) :: left, right, ⟨items, hholds, j, e, herr, x, hx, hbefore⟩ => by
    have hmeets := mergeNext_cons order key d left hholds
    generalize mergeNext base order ((key, d) :: left) right = res at hmeets
    -- a record is not the error, and comes before the change
    have hrecord {r : Record} {rest : List RangeItem} (hr : items = .ok r :: rest) :
        Before order r.1 x.1 ∧ ∃ j : Nat, rest[j]? = some (.error e) ∧
          ∀ i < j, ∀ r' : Record, rest[i]? = some (.ok r') → Before order r'.1 x.1 := by
      subst hr
      obtain ⟨j, rfl⟩ : ∃ i, j = i + 1 :=
        Nat.exists_eq_succ_of_ne_zero (by rintro rfl; cases herr)
      exact ⟨hbefore 0 (by omega) r rfl, j, by simpa using herr,
        fun i hi r' hr' => hbefore (i + 1) (by omega) r' (by simpa using hr')⟩
    cases hmeets with
    | done hrest => cases herr
    | error hrest => exact ⟨rfl, _, hrest, j, e, herr, x, hx, hbefore⟩
    | before hrest hlt =>
      have hne : x ≠ (key, d) := by
        rintro rfl
        exact Before.irrefl ((hrecord rfl).1.trans hlt)
      have hstalls : Stalls base order (left, _) :=
        ⟨_, hrest, j, e, herr, x, (List.mem_cons.mp hx).resolve_left hne, hbefore⟩
      exact stalls_takeLeft hstalls (mergeNext_stalls left _ hstalls)
    | same hrest heq =>
      obtain ⟨hr, j, herr', hbefore'⟩ := hrecord rfl
      have hne : x ≠ (key, d) := by
        rintro rfl
        exact Before.irrefl (heq ▸ hr)
      have hstalls : Stalls base order (left, _) :=
        ⟨_, hrest, j, e, herr', x, (List.mem_cons.mp hx).resolve_left hne, hbefore'⟩
      exact stalls_takeLeft hstalls (mergeNext_stalls left _ hstalls)
    | after hrest hgt =>
      obtain ⟨-, j, herr', hbefore'⟩ := hrecord rfl
      exact ⟨rfl, _, hrest, j, e, herr', x, hx, hbefore'⟩

theorem endless_of_stalls (h : Stalls base order s) : Endless (mergeStep base order) s :=
  endless_of_invariant (Stalls base order) (fun s hs => mergeNext_stalls s.1 s.2 hs) h

theorem takeLeft_endless (hright : right.HoldsEndless base)
    (hagain : again.1.isSome = true ∧ again.2.2.HoldsEndless base) :
    (takeLeft key d left right again).1.isSome = true ∧
      (takeLeft key d left right again).2.2.HoldsEndless base := by
  cases d with
  | set value => exact ⟨rfl, hright⟩
  | delete => exact hagain

/-- Over a base that never ends. -/
theorem mergeNext_endless : ∀ (left : List (Bytes × Delta)) (right : Peek σ RangeItem),
    right.HoldsEndless base → (mergeNext base order left right).1.isSome = true ∧
      (mergeNext base order left right).2.2.HoldsEndless base
  | [], right, h => by
    obtain ⟨⟨a, hitem⟩, hholds⟩ := h.peek
    rw [mergeNext]
    generalize right.peek base = p at hitem hholds
    obtain ⟨item, right'⟩ := p
    obtain rfl : item = some a := hitem
    exact hholds.take
  | (key, d) :: left, right, h => by
    obtain ⟨⟨a, hitem⟩, hholds⟩ := h.peek
    rw [mergeNext]
    generalize right.peek base = p at hitem hholds
    obtain ⟨item, right'⟩ := p
    obtain rfl : item = some a := hitem
    cases a with
    | error e => exact ⟨rfl, hholds⟩
    | ok r =>
      dsimp only
      cases order.compareKeys key r.1 with
      | lt => exact takeLeft_endless hholds (mergeNext_endless left right' hholds)
      | eq => exact takeLeft_endless hholds.take.2 (mergeNext_endless left _ hholds.take.2)
      | gt => exact hholds.take

theorem endless_merge (h : s.2.HoldsEndless base) : Endless (mergeStep base order) s :=
  endless_of_invariant (fun s => s.2.HoldsEndless base)
    (fun s hs => mergeNext_endless s.1 s.2 hs) h

/-- A level over a base that ends, ends or never does. -/
theorem yields_or_endless (harr : Arranged order left) (hholds : right.Holds base items) :
    (NoStall order left items ∧ ∃ out, Yields (mergeStep base order) (left, right) out ∧
        out.length ≤ left.length + items.length) ∨
      (¬ NoStall order left items ∧ Endless (mergeStep base order) (left, right)) := by
  by_cases hcalm : NoStall order left items
  · exact .inl ⟨hcalm, Calm.yields _ ⟨harr, hcalm, hholds⟩ (Nat.lt_succ_self _)⟩
  · refine .inr ⟨hcalm, endless_of_stalls ?_⟩
    simp only [NoStall, not_forall] at hcalm
    obtain ⟨j, e, herr, x, hx, hnone⟩ := hcalm
    refine ⟨items, hholds, j, e, herr, x, hx, fun i hi r hr => ?_⟩
    by_contra hnot
    exact hnone ⟨i, hi, r, hr, hnot⟩

/-! ## Any number of overlays -/

/-- At every level, no error of the levels below comes before a change of the level. -/
def NeverStalls (base : Step σ RangeItem) (s : σ) (start stop : Option Bytes) (order : Order) :
    List Overlay → Prop
  | [] => True
  | ov :: below => NeverStalls base s start stop order below ∧
      ∀ items, Yields (nestStep base order below.length) (nestRange s start stop order below) items →
        NoStall order (mapRange ov start stop order) items

/-- The local entries of all levels within the bounds. -/
def localEntries (levels : List Overlay) (start stop : Option Bytes) (order : Order) : Nat :=
  (levels.map fun ov => (mapRange ov start stop order).length).sum

theorem nest_yields_or_endless {s : σ} (hbase : Yields base s items) (start stop : Option Bytes)
    (order : Order) : ∀ levels : List Overlay,
    (NeverStalls base s start stop order levels ∧
      ∃ out, Yields (nestStep base order levels.length) (nestRange s start stop order levels) out ∧
        out.length ≤ localEntries levels start stop order + items.length) ∨
    (¬ NeverStalls base s start stop order levels ∧
      Endless (nestStep base order levels.length) (nestRange s start stop order levels))
  | [] => .inl ⟨trivial, items, hbase, by simp [localEntries]⟩
  | ov :: below => by
    have harr := arranged_mapRange ov start stop order
    rcases nest_yields_or_endless hbase start stop order below with
      ⟨hbelow, out, hout, hlen⟩ | ⟨hbelow, hend⟩
    · have hholds : (Peek.fresh (nestRange s start stop order below)).Holds
          (nestStep base order below.length) out := hout
      rcases yields_or_endless harr hholds with ⟨hcalm, out', hout', hlen'⟩ | ⟨hstall, hend⟩
      · refine .inl ⟨⟨hbelow, fun l hl => hl.unique hout ▸ hcalm⟩, out', hout', ?_⟩
        simp only [localEntries, List.map_cons, List.sum_cons] at hlen ⊢
        omega
      · exact .inr ⟨fun h => hstall (h.2 out hout), hend⟩
    · exact .inr ⟨fun h => hbelow h.1, endless_merge hend⟩

/-- **A range over overlays ends**, after at most one item per local entry and base item,
exactly if no level stalls. -/
theorem range_ends_iff {s : σ} {items : List RangeItem} (hbase : Yields base s items)
    (start stop : Option Bytes) (order : Order) (levels : List Overlay) :
    (∃ out, Yields (nestStep base order levels.length) (nestRange s start stop order levels) out ∧
      out.length ≤ localEntries levels start stop order + items.length) ↔
    NeverStalls base s start stop order levels := by
  rcases nest_yields_or_endless hbase start stop order levels with
    ⟨hcalm, hends⟩ | ⟨hstall, hend⟩
  · exact iff_of_true hends hcalm
  · refine iff_of_false ?_ hstall
    rintro ⟨out, hout, -⟩
    exact hout.not_endless hend

end Level

/-- One change over one record. -/
theorem range_ends_iff_sample :
    (∃ out, Yields (nestStep listNext .ascending 1)
        (nestRange [.ok ([2], [7])] none none .ascending [(∅ : Overlay).insert [1] .delete]) out ∧
      out.length ≤ localEntries [(∅ : Overlay).insert [1] .delete] none none .ascending +
        [(.ok ([2], [7]) : RangeItem)].length) ↔
    NeverStalls listNext [.ok ([2], [7])] none none .ascending
      [(∅ : Overlay).insert [1] .delete] :=
  range_ends_iff (yields_listNext _) none none .ascending [(∅ : Overlay).insert [1] .delete]

/-- A base that runs out of gas at once, under one local change. -/
theorem range_stalls :
    Yields listNext [(.error .outOfGas : RangeItem)] [.error .outOfGas] ∧
      Endless (nestStep listNext .ascending 1) (nestRange [(.error .outOfGas : RangeItem)] none none
        .ascending [(∅ : Overlay).insert [1] (.set [7])]) := by
  refine ⟨yields_listNext _, endless_of_stalls ⟨[.error .outOfGas], yields_listNext _, 0, .outOfGas,
    rfl, ([1], .set [7]), ?_, by simp⟩⟩
  rw [nestRange, mem_mapRange]
  exact ⟨Std.ExtTreeMap.getElem?_insert_self, rfl⟩

end LayerSdk
