import LayerSdk.Overlay
import LayerSdk.StepIter

/-!
# The RocksDB iterator

`RockIterator` positions a raw iterator by hand: it seeks the bound its order
starts from, corrects an exact hit on the exclusive end, and on each `next`
compares the entry it stands on with the other bound. The raw iterator is that
of a sorted map.

`yields_rockIterator` says that all of this goes through the range of the map;
`rockRange_eq` that a RocksDB range is therefore the one `Backend` states.
-/

namespace LayerSdk

open StepIter

/-! ## The raw iterator -/

/-- The entry a raw iterator stands on; without one it is not valid. -/
abbrev RawIterator := Option Record

namespace RawIterator

def key (it : RawIterator) : Option Bytes := it.map Prod.fst

def seekToFirst (s : Store) : RawIterator := s.toList.head?

def seekToLast (s : Store) : RawIterator := s.toList.getLast?

/-- The first entry at or after `key`. -/
def seek (s : Store) (key : Bytes) : RawIterator :=
  s.toList.find? fun r => (compare key r.1).isLE

/-- The last entry at or before `key`. -/
def seekForPrev (s : Store) (key : Bytes) : RawIterator :=
  s.toList.reverse.find? fun r => (compare r.1 key).isLE

/-- The entry after this one. An iterator that is not valid stays where it is. -/
def next (s : Store) (it : RawIterator) : RawIterator :=
  it.bind fun r => s.toList.find? fun r' => (compare r.1 r'.1).isLT

def prev (s : Store) (it : RawIterator) : RawIterator :=
  it.bind fun r => s.toList.reverse.find? fun r' => (compare r'.1 r.1).isLT

end RawIterator

structure RockIterator where
  iterator : RawIterator
  order : Order
  stop : Option Bytes
  finished : Bool

namespace RockIterator

def new (s : Store) (order : Order) (start stop : Option Bytes) : RockIterator :=
  match order with
  | .ascending =>
    let iter := match start with
      | some begin => RawIterator.seek s begin
      | none => RawIterator.seekToFirst s
    ⟨iter, .ascending, stop, false⟩
  | .descending =>
    let iter := match stop with
      | some finish =>
        -- the end is not included, but `seek_for_prev` stops on it
        let iter := RawIterator.seekForPrev s finish
        if iter.key = some finish then iter.prev s else iter
      | none => RawIterator.seekToLast s
    ⟨iter, .descending, start, false⟩

/-- The entry it stands on, unless that is past the stop. -/
def record (it : RockIterator) : Option Record :=
  match it.order with
  | .ascending => it.iterator.filter fun r => it.stop.all fun e => !(compare r.1 e).isGE
  | .descending => it.iterator.filter fun r => it.stop.all fun e => !(compare r.1 e).isLT

def advance (s : Store) (it : RockIterator) : RawIterator :=
  match it.order with
  | .ascending => it.iterator.next s
  | .descending => it.iterator.prev s

def next (s : Store) : Step RockIterator Record := fun it =>
  if it.finished then (none, it)
  else
    match it.record with
    | some r => (some r, { it with iterator := it.advance s })
    | none => (none, { it with iterator := it.advance s, finished := true })

end RockIterator

/-! ## The bounds along the order -/

@[simp] theorem Order.length_arrange {α : Type} (order : Order) (l : List α) :
    (order.arrange l).length = l.length := by
  cases order with
  | ascending => rfl
  | descending => exact List.length_reverse

/-- Not before the bound the iteration starts from. -/
def Order.entered (order : Order) (start stop : Option Bytes) (key : Bytes) : Bool :=
  match order with
  | .ascending => start.all fun b => (compare b key).isLE
  | .descending => stop.all fun b => (compare key b).isLT

/-- Not past the bound the iteration goes to. -/
def Order.within (order : Order) (start stop : Option Bytes) (key : Bytes) : Bool :=
  match order with
  | .ascending => stop.all fun b => (compare key b).isLT
  | .descending => start.all fun b => (compare b key).isLE

theorem inRange_eq (order : Order) (start stop : Option Bytes) (key : Bytes) :
    inRange start stop key = (order.within start stop key && order.entered start stop key) := by
  cases order with
  | ascending => exact Bool.and_comm _ _
  | descending => rfl

section Bounds

variable {order : Order} {start stop : Option Bytes} {a b : Bytes}

theorem isLE_of_isLE_of_lt {c : Bytes} (h : (compare c a).isLE = true)
    (hlt : compare a b = .lt) : (compare c b).isLE = true :=
  Std.TransCmp.isLE_trans h (Ordering.isLE_of_eq_lt hlt)

theorem isLT_of_lt_of_isLT {c : Bytes} (hlt : compare a b = .lt)
    (h : (compare b c).isLT = true) : (compare a c).isLT = true :=
  Ordering.isLT_iff_eq_lt.mpr (Std.TransCmp.lt_trans hlt (Ordering.isLT_iff_eq_lt.mp h))

theorem Order.entered_of_before (hab : Before order a b)
    (h : order.entered start stop a = true) : order.entered start stop b = true := by
  cases order with
  | ascending =>
    cases start with
    | none => rfl
    | some c => exact isLE_of_isLE_of_lt h hab
  | descending =>
    cases stop with
    | none => rfl
    | some c => exact isLT_of_lt_of_isLT hab h

theorem Order.within_of_before (hab : Before order a b)
    (h : order.within start stop b = true) : order.within start stop a = true := by
  cases order with
  | ascending =>
    cases stop with
    | none => rfl
    | some c => exact isLT_of_lt_of_isLT hab h
  | descending =>
    cases start with
    | none => rfl
    | some c => exact isLE_of_isLE_of_lt h hab

end Bounds

namespace Arranged

variable {α : Type} {order : Order} {l : List (Bytes × α)} {p : Bytes → Bool}

/-- What holds up to some point is found by going up to there. -/
theorem filter_eq_takeWhile (hl : Arranged order l)
    (hp : ∀ a b, Before order a b → p b = true → p a = true) :
    l.filter (fun x => p x.1) = l.takeWhile fun x => p x.1 := by
  induction l with
  | nil => rfl
  | cons x l ih =>
    obtain ⟨hhead, htail⟩ := List.pairwise_cons.mp hl
    cases hx : p x.1 with
    | true => simp only [List.filter_cons, List.takeWhile_cons, hx, if_true, ih htail]
    | false =>
      have hnone : l.filter (fun x => p x.1) = [] := by
        refine List.filter_eq_nil_iff.mpr fun y hy hpy => ?_
        rw [hp _ _ (hhead y hy) hpy] at hx
        cases hx
      simp [hx, hnone]

/-- What holds from some point on is found by skipping what is before. -/
theorem filter_eq_dropWhile (hl : Arranged order l)
    (hp : ∀ a b, Before order a b → p a = true → p b = true) :
    l.filter (fun x => p x.1) = l.dropWhile fun x => !p x.1 := by
  induction l with
  | nil => rfl
  | cons x l ih =>
    obtain ⟨hhead, htail⟩ := List.pairwise_cons.mp hl
    cases hx : p x.1 with
    | false => simp [hx, ih htail]
    | true =>
      have hall : l.filter (fun x => p x.1) = l :=
        List.filter_eq_self.mpr fun y hy => hp _ _ (hhead y hy) hx
      simp [hx, hall]

/-- The first entry after one of the list is the next one. -/
theorem find?_after {pre rest : List (Bytes × α)} {x : Bytes × α}
    (hl : Arranged order (pre ++ x :: rest)) (hq : ∀ b, p b = true ↔ Before order x.1 b) :
    (pre ++ x :: rest).find? (fun y => p y.1) = rest.head? := by
  obtain ⟨-, hrest, hcross⟩ := List.pairwise_append.mp hl
  have hx : p x.1 = false := Bool.eq_false_iff.mpr fun h => ((hq _).mp h).ne rfl
  have hpre : pre.find? (fun y => p y.1) = none := by
    refine List.find?_eq_none.mpr fun y hy h => ?_
    exact (((hcross y hy x List.mem_cons_self).trans ((hq _).mp h)).ne rfl)
  rw [List.find?_append, hpre, Option.none_or, List.find?_cons, hx]
  cases rest with
  | nil => rfl
  | cons y rest =>
    have hy : p y.1 = true :=
      (hq _).mpr ((List.pairwise_cons.mp hrest).1 y List.mem_cons_self)
    rw [List.find?_cons, hy, List.head?_cons]

end Arranged

theorem mapRange_eq_takeWhile {α : Type} (m : Std.ExtTreeMap Bytes α) (start stop : Option Bytes)
    (order : Order) : mapRange m start stop order =
      ((order.arrange m.toList).dropWhile fun x => !order.entered start stop x.1).takeWhile
        fun x => order.within start stop x.1 := by
  have hl : Arranged order (order.arrange m.toList) := arranged_arrange (OrdMap.ascending_toList m)
  have harrange : mapRange m start stop order =
      (order.arrange m.toList).filter fun x => inRange start stop x.1 := by
    cases order with
    | ascending => rfl
    | descending => exact List.filter_reverse.symm
  rw [harrange, ← hl.filter_eq_dropWhile fun _ _ => Order.entered_of_before,
    ← Arranged.filter_eq_takeWhile (hl.filter _) fun _ _ => Order.within_of_before,
    List.filter_filter]
  simp only [inRange_eq order]

/-! ## The iterator goes through the range -/

section Iterate

variable {s : Store} {order : Order} {start stop : Option Bytes}

/-- The iterator has gone through the entries up to `rest`. -/
def RockIterator.StandsAt (s : Store) (order : Order) (it : RockIterator) (rest : List Record) :
    Prop :=
  it.iterator = rest.head? ∧ ∃ pre, order.arrange s.toList = pre ++ rest

theorem RockIterator.advance_eq {r : Record} {rest pre : List Record} {it : RockIterator}
    (horder : it.order = order) (hit : it.iterator = some r)
    (hpre : order.arrange s.toList = pre ++ r :: rest) : it.advance s = rest.head? := by
  have hl : Arranged order (pre ++ r :: rest) :=
    hpre ▸ arranged_arrange (OrdMap.ascending_toList s)
  rw [advance, horder, hit]
  cases order with
  | ascending =>
    have hafter := hl.find?_after (p := fun b => (compare r.1 b).isLT)
      fun b => Ordering.isLT_iff_eq_lt
    exact (congrArg (List.find? _) hpre).trans hafter
  | descending =>
    have hafter := hl.find?_after (p := fun b => (compare b r.1).isLT)
      fun b => Ordering.isLT_iff_eq_lt
    exact (congrArg (List.find? _) hpre).trans hafter

/-- The bound that stops an iteration. -/
def Order.stopBound (order : Order) (start stop : Option Bytes) : Option Bytes :=
  match order with
  | .ascending => stop
  | .descending => start

theorem RockIterator.record_eq {it : RockIterator} (horder : it.order = order)
    (hstop : it.stop = order.stopBound start stop) :
    it.record = it.iterator.filter fun r => order.within start stop r.1 := by
  rw [record, horder, hstop]
  cases order with
  | ascending =>
    simp only [Order.stopBound, Order.within]
    congr 1
    funext r
    congr 1
    funext e
    cases compare r.1 e <;> rfl
  | descending =>
    simp only [Order.stopBound, Order.within]
    congr 1
    funext r
    congr 1
    funext e
    have hswap : compare e r.1 = (compare r.1 e).swap := Std.OrientedCmp.eq_swap
    rw [hswap]
    cases compare r.1 e <;> rfl

theorem yields_finished {it : RockIterator} (h : it.finished = true) :
    Yields (RockIterator.next s) it [] := by
  refine yields_nil_of_invariant (fun it => it.finished = true) (fun it h => ?_) h
  simp only [RockIterator.next, h, if_true, and_self]

/-- From where it stands, the iterator goes on until its stop. -/
theorem yields_standsAt : ∀ {rest : List Record} {it : RockIterator}, it.order = order →
    it.stop = order.stopBound start stop → it.finished = false → it.StandsAt s order rest →
      Yields (RockIterator.next s) it (rest.takeWhile fun r => order.within start stop r.1)
  | [], it, horder, hstop, hfin, ⟨hit, _⟩ => by
    have hrecord : it.record = none := by
      rw [RockIterator.record_eq horder hstop, hit]
      rfl
    have hnext : RockIterator.next s it =
        (none, { it with iterator := it.advance s, finished := true }) := by
      simp [RockIterator.next, hfin, hrecord]
    exact yields_iff.mpr ⟨by rw [hnext]; rfl, by rw [hnext]; exact yields_finished rfl⟩
  | r :: rest, it, horder, hstop, hfin, ⟨hit, pre, hpre⟩ => by
    have hrecord := RockIterator.record_eq horder hstop
    rw [hit, List.head?_cons, Option.filter_some] at hrecord
    cases hw : order.within start stop r.1 with
    | true =>
      have hnext : RockIterator.next s it =
          (some r, { it with iterator := it.advance s }) := by
        simp [RockIterator.next, hfin, hrecord, hw]
      have hmoved : RockIterator.StandsAt s order { it with iterator := it.advance s } rest :=
        ⟨RockIterator.advance_eq horder hit hpre, pre ++ [r], by simpa using hpre⟩
      rw [List.takeWhile_cons, if_pos hw]
      refine .cons (by rw [hnext]) ?_
      rw [hnext]
      exact yields_standsAt horder hstop hfin hmoved
    | false =>
      have hnext : RockIterator.next s it =
          (none, { it with iterator := it.advance s, finished := true }) := by
        simp [RockIterator.next, hfin, hrecord, hw]
      rw [List.takeWhile_cons, if_neg (by simp [hw])]
      exact yields_iff.mpr ⟨by rw [hnext]; rfl, by rw [hnext]; exact yields_finished rfl⟩

/-- Going one back from an exact hit leaves the last entry before the end. -/
theorem seekForPrev_before (s : Store) (finish : Bytes) :
    (if (RawIterator.seekForPrev s finish).key = some finish
      then (RawIterator.seekForPrev s finish).prev s else RawIterator.seekForPrev s finish) =
        s.toList.reverse.find? fun r => (compare r.1 finish).isLT := by
  rw [RawIterator.seekForPrev]
  cases hfind : s.toList.reverse.find? fun r => (compare r.1 finish).isLE with
  | none =>
    have hnone : (s.toList.reverse.find? fun r => (compare r.1 finish).isLT) = none := by
      refine List.find?_eq_none.mpr fun r hr hlt => List.find?_eq_none.mp hfind r hr ?_
      exact Ordering.isLE_of_eq_lt (Ordering.isLT_iff_eq_lt.mp hlt)
    rw [hnone]
    rfl
  | some x =>
    by_cases hx : x.1 = finish
    · rw [← hx]
      exact if_pos rfl
    · obtain ⟨hle, pre, rest, hsplit, hpre⟩ := List.find?_eq_some_iff_append.mp hfind
      have hlt : (compare x.1 finish).isLT = true := by
        rcases Ordering.isLE_iff_eq_lt_or_eq_eq.mp hle with hlt | heq
        · exact Ordering.isLT_iff_eq_lt.mpr hlt
        · exact absurd (Std.LawfulEqCmp.compare_eq_iff_eq.mp heq) hx
      have hpre' : pre.find? (fun r => (compare r.1 finish).isLT) = none := by
        refine List.find?_eq_none.mpr fun r hr hr' => ?_
        have := hpre r hr
        rw [Ordering.isLE_of_eq_lt (Ordering.isLT_iff_eq_lt.mp hr')] at this
        cases this
      have hkey : ¬ RawIterator.key (some x) = some finish := fun h => hx (Option.some.inj h)
      rw [if_neg hkey, hsplit, List.find?_append, hpre',
        Option.none_or, List.find?_cons, hlt]

theorem RockIterator.new_order : (new s order start stop).order = order := by
  cases order <;> rfl

theorem RockIterator.new_stop :
    (new s order start stop).stop = order.stopBound start stop := by
  cases order <;> rfl

theorem RockIterator.new_finished : (new s order start stop).finished = false := by
  cases order <;> rfl

theorem RockIterator.new_iterator : (new s order start stop).iterator =
    (order.arrange s.toList).find? fun x => order.entered start stop x.1 := by
  cases order with
  | ascending =>
    cases start with
    | none => 
        simp only [new, RawIterator.seekToFirst, Order.arrange, Order.entered, Option.all_none]
        cases s.toList <;> rfl
    | some b => rfl
  | descending =>
    cases stop with
    | none =>
      simp only [new, RawIterator.seekToLast, Order.arrange, Order.entered, Option.all_none]
      rw [← List.head?_reverse]
      cases s.toList.reverse <;> rfl
    | some b => exact seekForPrev_before s b

/-- **The iterator yields the range of the map.** -/
theorem yields_rockIterator (s : Store) (start stop : Option Bytes) (order : Order) :
    Yields (RockIterator.next s) (RockIterator.new s order start stop)
      (mapRange s start stop order) := by
  rw [mapRange_eq_takeWhile]
  refine yields_standsAt RockIterator.new_order RockIterator.new_stop RockIterator.new_finished
    ⟨?_, _, (List.takeWhile_append_dropWhile (p := fun x : Record =>
      !order.entered start stop x.1)).symm⟩
  rw [RockIterator.new_iterator, List.find?_eq_head?_dropWhile_not]

end Iterate

/-! ## The range of a RocksDB store -/

/-- `RockReader::range` and `RockWriter::range`: charge, position an iterator, and
charge each record it yields. -/
def rockRange (s : Store) (m : GasMeter) (start stop : Option Bytes) (order : Order) :
    GasMeter × GasResult GasIter :=
  match defaultPersistedPrices.chargeRange m with
  | (m', .error e) => (m', .error e)
  | (m', .ok ()) =>
    (m', .ok (.ofRecords defaultPersistedPrices
      (drain (RockIterator.next s) s.size (RockIterator.new s order start stop))))

theorem rockRange_eq (s : Store) (m : GasMeter) (start stop : Option Bytes) (order : Order) :
    rockRange s m start stop order = persistedRange .rock s m start stop order := by
  have hlen : (mapRange s start stop order).length ≤ s.size := by
    rw [mapRange, Order.length_arrange, ← Std.ExtTreeMap.length_toList]
    exact List.length_filter_le _ _
  have hrock : ¬ (Backend.rock = .memory ∧ emptyBounds start stop = true) := by simp
  rw [rockRange, (yields_rockIterator s start stop order).drain_eq hlen]
  exact (if_neg hrock).symm

end LayerSdk
