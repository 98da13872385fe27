import LayerSdk.Atomic

/-!
# Overlays are flat maps

A transaction cache shows the storage below it with its own changes merged
in, record by record while a range is consumed. Seen from above this is one
map:

- `Merges.shows`: what the merged iterator goes through, and in which order.
- `ReadsAs`: an object that answers every read as one map would, or with
  `OutOfGas` on an exhausted meter. The stores are such objects, and putting
  a cache on one gives another (`ReadsAs.cacheTx`).
- `overlay_refines_flat`: whole programs of opened, written, committed and
  dropped caches against a stack of plain maps.
-/

namespace LayerSdk

open Std EffectProg Comp

/-! ## The merged iterator -/

/-- `a` comes before `b` in an iteration. -/
def Before : Order → Bytes → Bytes → Prop
  | .ascending, a, b => compare a b = .lt
  | .descending, a, b => compare b a = .lt

variable {order : Order} {α : Type}

theorem Before.ne {a b : Bytes} (h : Before order a b) : a ≠ b := by
  cases order with
  | ascending => exact OrdMap.ne_of_lt h
  | descending => exact (OrdMap.ne_of_lt h).symm

theorem Before.trans {a b c : Bytes} (h : Before order a b) (h' : Before order b c) :
    Before order a c := by
  cases order with
  | ascending => exact Std.TransCmp.lt_trans h h'
  | descending => exact Std.TransCmp.lt_trans h' h

def Arranged {α : Type} (order : Order) (l : List (Bytes × α)) : Prop :=
  l.Pairwise fun x y => Before order x.1 y.1

theorem arranged_arrange {l : List (Bytes × α)} (h : OrdMap.Ascending l) :
    Arranged order (order.arrange l) := by
  cases order with
  | ascending => exact h
  | descending => exact List.pairwise_reverse.mpr h

theorem mem_arrange {l : List α} {x : α} : x ∈ order.arrange l ↔ x ∈ l := by
  cases order with
  | ascending => rfl
  | descending => exact List.mem_reverse

/-- Lists in the same order with the same members are equal. -/
theorem Arranged.eq_of_mem_iff {l l' : List (Bytes × α)} (h : Arranged order l)
    (h' : Arranged order l') (hmem : ∀ x, x ∈ l ↔ x ∈ l') : l = l' := by
  cases order with
  | ascending => exact OrdMap.Ascending.eq_of_mem_iff h h' hmem
  | descending =>
    have hrev : l.reverse = l'.reverse :=
      OrdMap.Ascending.eq_of_mem_iff (List.pairwise_reverse.mpr h) (List.pairwise_reverse.mpr h')
        fun x => by rw [List.mem_reverse, List.mem_reverse, hmem]
    exact List.reverse_injective hrev

theorem before_trichotomy (order : Order) (a b : Bytes) :
    Before order a b ∨ a = b ∨ Before order b a := by
  cases order with
  | ascending =>
    cases h : compare a b with
    | lt => exact .inl h
    | eq => exact .inr (.inl (Std.LawfulEqCmp.compare_eq_iff_eq.mp h))
    | gt => exact .inr (.inr (Std.OrientedCmp.gt_iff_lt.mp h))
  | descending =>
    cases h : compare b a with
    | lt => exact .inl h
    | eq => exact .inr (.inl (Std.LawfulEqCmp.compare_eq_iff_eq.mp h).symm)
    | gt => exact .inr (.inr (Std.OrientedCmp.gt_iff_lt.mp h))

/-- What a change does to the charges collected so far: a deletion hands them on. -/
def Delta.carried (charges : List Nat) : Delta → List Nat
  | .set _ => []
  | .delete => charges

/-- What a change puts in front of the rest of the iteration. -/
def Delta.emit (k : Bytes) (charges : List Nat) (it : GasIter) : Delta → GasIter
  | .set v => ⟨(charges, (k, v)) :: it.items, it.tail⟩
  | .delete => it

section Step

variable {order : Order} {n : Nat} {lk rk rv : Bytes} {ls : List (Bytes × Delta)}
  {rs : List (List Nat × Record)} {cs tail acc : List Nat}

theorem mergeOverlay_before (h : Before order lk rk) (d : Delta) :
    mergeOverlay order (n + 1) ((lk, d) :: ls) ((cs, (rk, rv)) :: rs) tail acc =
      d.emit lk (acc ++ cs)
        (mergeOverlay order n ls (([], (rk, rv)) :: rs) tail (d.carried (acc ++ cs))) := by
  cases order with
  | ascending => cases d <;> simp only [mergeOverlay, show compare lk rk = .lt from h] <;> rfl
  | descending => cases d <;> simp only [mergeOverlay, show compare rk lk = .lt from h] <;> rfl

theorem mergeOverlay_same (d : Delta) :
    mergeOverlay order (n + 1) ((rk, d) :: ls) ((cs, (rk, rv)) :: rs) tail acc =
      d.emit rk (acc ++ cs) (mergeOverlay order n ls rs tail (d.carried (acc ++ cs))) := by
  cases order <;> cases d <;> simp only [mergeOverlay, Std.ReflCmp.compare_self] <;> rfl

theorem mergeOverlay_after (h : Before order rk lk) (d : Delta) :
    mergeOverlay order (n + 1) ((lk, d) :: ls) ((cs, (rk, rv)) :: rs) tail acc =
      let it := mergeOverlay order n ((lk, d) :: ls) rs tail []
      ⟨(acc ++ cs, (rk, rv)) :: it.items, it.tail⟩ := by
  cases order with
  | ascending =>
    have hgt : compare lk rk = .gt := Std.OrientedCmp.gt_iff_lt.mpr h
    simp only [mergeOverlay, hgt]
  | descending =>
    have hgt : compare rk lk = .gt := Std.OrientedCmp.gt_iff_lt.mpr h
    simp only [mergeOverlay, hgt]

end Step

/-- The merge as a relation, with one rule for each way in which the two sides go on. -/
inductive Merges (order : Order) : List (Bytes × Delta) → List (List Nat × Record) → List Nat →
    List Nat → GasIter → Prop
  | done {tail acc : List Nat} : Merges order [] [] tail acc ⟨[], acc ++ tail⟩
  | base {ls : List (Bytes × Delta)} {rs : List (List Nat × Record)} {tail acc cs : List Nat}
      {r : Record} {it : GasIter} : (∀ l ∈ ls.head?, Before order r.1 l.1) →
      Merges order ls rs tail [] it →
      Merges order ls ((cs, r) :: rs) tail acc ⟨(acc ++ cs, r) :: it.items, it.tail⟩
  | alone {ls : List (Bytes × Delta)} {tail acc : List Nat} {k : Bytes} {d : Delta} {it : GasIter} :
      Merges order ls [] [] (d.carried (acc ++ tail)) it →
      Merges order ((k, d) :: ls) [] tail acc (d.emit k (acc ++ tail) it)
  | before {ls : List (Bytes × Delta)} {rs : List (List Nat × Record)} {tail acc cs : List Nat}
      {k : Bytes} {d : Delta} {r : Record} {it : GasIter} : Before order k r.1 →
      Merges order ls (([], r) :: rs) tail (d.carried (acc ++ cs)) it →
      Merges order ((k, d) :: ls) ((cs, r) :: rs) tail acc (d.emit k (acc ++ cs) it)
  | same {ls : List (Bytes × Delta)} {rs : List (List Nat × Record)} {tail acc cs : List Nat}
      {k v : Bytes} {d : Delta} {it : GasIter} :
      Merges order ls rs tail (d.carried (acc ++ cs)) it →
      Merges order ((k, d) :: ls) ((cs, (k, v)) :: rs) tail acc (d.emit k (acc ++ cs) it)

theorem merges_mergeOverlay (order : Order) : ∀ (n : Nat) (ls : List (Bytes × Delta))
    (rs : List (List Nat × Record)) (tail acc : List Nat), ls.length + rs.length < n →
      Merges order ls rs tail acc (mergeOverlay order n ls rs tail acc)
  | 0, _, _, _, _, h => by omega
  | n + 1, [], [], tail, acc, _ => mergeOverlay_nil order n tail acc ▸ .done
  | n + 1, [], (cs, r) :: rs, tail, acc, hn =>
    .base nofun (merges_mergeOverlay order n [] rs tail [] (by simpa using hn))
  | n + 1, (k, .set v) :: ls, [], tail, acc, hn =>
    .alone (d := .set v) (merges_mergeOverlay order n ls [] [] [] (by simpa using hn))
  | n + 1, (k, .delete) :: ls, [], tail, acc, hn => by
    rw [mergeOverlay]
    exact .alone (d := .delete) (merges_mergeOverlay order n ls [] [] _ (by simpa using hn))
  | n + 1, (lk, d) :: ls, (cs, (rk, rv)) :: rs, tail, acc, hn => by
    simp only [List.length_cons] at hn
    rcases before_trichotomy order lk rk with hlt | rfl | hgt
    · rw [mergeOverlay_before hlt]
      exact .before hlt (merges_mergeOverlay order n ls _ tail _
        (by simp only [List.length_cons]; omega))
    · rw [mergeOverlay_same]
      exact .same (merges_mergeOverlay order n ls rs tail _ (by omega))
    · rw [mergeOverlay_after hgt]
      refine .base (fun l hl => ?_) (merges_mergeOverlay order n _ rs tail []
        (by simp only [List.length_cons]; omega))
      exact Option.some.inj hl ▸ hgt

/-- A change is shown as it is, a base record unless its key was changed. -/
def Merged (ls : List (Bytes × Delta)) (rs : List Record) (k v : Bytes) : Prop :=
  (k, Delta.set v) ∈ ls ∨ ((∀ d, (k, d) ∉ ls) ∧ (k, v) ∈ rs)

section Merges

variable {order : Order} {ls : List (Bytes × Delta)} {rs : List (List Nat × Record)}
  {tail acc : List Nat} {it : GasIter} {k k' v : Bytes} {d : Delta}

theorem Merged.key {rs : List Record} (h : Merged ls rs k v) :
    (∃ d, (k, d) ∈ ls) ∨ (k, v) ∈ rs :=
  h.imp (fun hmem => ⟨_, hmem⟩) And.right

theorem mem_emit : (k', v) ∈ (d.emit k acc it).records ↔
    (k' = k ∧ d = .set v) ∨ (k', v) ∈ it.records := by
  cases d <;> simp [Delta.emit, GasIter.records, eq_comm]

theorem arranged_emit (h : Arranged order it.records)
    (hbefore : ∀ k' v, (k', v) ∈ it.records → Before order k k') :
    Arranged order (d.emit k acc it).records := by
  cases d with
  | set v => exact List.pairwise_cons.mpr ⟨fun x hx => hbefore x.1 x.2 hx, h⟩
  | delete => exact h

theorem before_of_head? {a : Bytes} (hls : Arranged order ls)
    (h : ∀ l ∈ ls.head?, Before order a l.1) : ∀ l ∈ ls, Before order a l.1 := by
  cases ls with
  | nil => nofun
  | cons l ls =>
    refine List.forall_mem_cons.mpr ⟨h l rfl, fun l' hl' => ?_⟩
    exact (h l rfl).trans ((List.pairwise_cons.mp hls).1 l' hl')

/-- A change before everything that comes after it, where the base does not have its key. -/
theorem shows_emit {rs : List Record} (hls : Arranged order ((k, d) :: ls))
    (hrs : ∀ r ∈ rs, Before order k r.1)
    (h : Arranged order it.records ∧ ∀ k v, (k, v) ∈ it.records ↔ Merged ls rs k v) :
    Arranged order (d.emit k acc it).records ∧
      ∀ k' v, (k', v) ∈ (d.emit k acc it).records ↔ Merged ((k, d) :: ls) rs k' v := by
  obtain ⟨hfirst, -⟩ := List.pairwise_cons.mp hls
  obtain ⟨harr, hmem⟩ := h
  refine ⟨arranged_emit harr fun k' v hx => ?_, fun k' v => ?_⟩
  · rcases ((hmem k' v).mp hx).key with ⟨d', hd⟩ | hr
    · exact hfirst _ hd
    · exact hrs _ hr
  · have hfresh : ∀ w, (k, w) ∉ rs := fun w hw => (hrs _ hw).ne rfl
    rw [mem_emit, hmem]
    simp only [Merged, List.mem_cons]
    grind

/-- What the merge goes through, and in which order. -/
theorem Merges.shows (h : Merges order ls rs tail acc it) (hls : Arranged order ls)
    (hrs : Arranged order (rs.map Prod.snd)) : Arranged order it.records ∧
      ∀ k v, (k, v) ∈ it.records ↔ Merged ls (rs.map Prod.snd) k v := by
  induction h with
  | done => simp [GasIter.records, Merged, Arranged]
  | @base ls rs tail acc cs r it hhead _ ih =>
    obtain ⟨hfirst, hrest⟩ := List.pairwise_cons.mp hrs
    obtain ⟨harr, hmem⟩ := ih hls hrest
    have hbefore := before_of_head? hls hhead
    refine ⟨List.pairwise_cons.mpr ⟨fun x hx => ?_, harr⟩, fun k v => ?_⟩
    · rcases ((hmem x.1 x.2).mp hx).key with ⟨d, hd⟩ | hr
      · exact hbefore _ hd
      · exact hfirst _ hr
    · -- the key of the record is not changed
      have hfresh : ∀ d, (r.1, d) ∉ ls := fun d hd => (hbefore _ hd).ne rfl
      have hrecords : (⟨(acc ++ cs, r) :: it.items, it.tail⟩ : GasIter).records = r :: it.records :=
        rfl
      rw [hrecords, List.mem_cons, hmem]
      simp only [Merged, List.map_cons, List.mem_cons]
      grind
  | alone _ ih =>
    exact shows_emit hls (List.forall_mem_nil _) (ih hls.of_cons hrs)
  | before hlt _ ih =>
    refine shows_emit hls (List.forall_mem_cons.mpr ⟨hlt, fun x hx => ?_⟩) (ih hls.of_cons hrs)
    exact hlt.trans ((List.pairwise_cons.mp hrs).1 x hx)
  | @same ls rs tail acc cs k v d it _ ih =>
    obtain ⟨hbase, hrest⟩ := List.pairwise_cons.mp hrs
    obtain ⟨harr, hmem⟩ := shows_emit hls hbase (ih hls.of_cons hrest)
    refine ⟨harr, fun k' v' => (hmem k' v').trans ?_⟩
    -- the change hides the record of its key
    simp only [Merged, List.map_cons, List.mem_cons]
    grind

end Merges

/-! ## Objects that read as a map -/

theorem arranged_mapRange {α : Type} (m : ExtTreeMap Bytes α) (start stop : Option Bytes)
    (order : Order) : Arranged order (mapRange m start stop order) :=
  arranged_arrange ((OrdMap.ascending_toList m).filter _)

theorem mem_mapRange {α : Type} {m : ExtTreeMap Bytes α} {start stop : Option Bytes}
    {order : Order} {k : Bytes} {v : α} :
    (k, v) ∈ mapRange m start stop order ↔ m[k]? = some v ∧ inRange start stop k = true := by
  rw [mapRange, mem_arrange, List.mem_filter, ExtTreeMap.mem_toList_iff_getElem?_eq_some]

theorem getElem?_applyDeltas (s : Store) (ov : Overlay) (k : Bytes) :
    (applyDeltas s ov.toList)[k]? = match ov[k]? with
      | some d => d.value
      | none => s[k]? := by
  rw [applyDeltas, OrdMap.getElem?_applyAll]
  cases ov[k]? <;> rfl

/-- The merge of a range with the changes in it is the range of the changed map. -/
theorem records_mergeOverlay (s : Store) (ov : Overlay) (start stop : Option Bytes) (order : Order)
    (it : GasIter) (hit : it.records = mapRange s start stop order) (acc : List Nat) :
    (mergeOverlay order ((mapRange ov start stop order).length + it.items.length + 1)
      (mapRange ov start stop order) it.items it.tail acc).records =
        mapRange (applyDeltas s ov.toList) start stop order := by
  have hbase : Arranged order (it.items.map Prod.snd) := by
    change Arranged order it.records
    rw [hit]
    exact arranged_mapRange s start stop order
  have hchanges := arranged_mapRange ov start stop order
  have hlen : (mapRange ov start stop order).length + it.items.length <
    (mapRange ov start stop order).length + it.items.length + 1 := Nat.lt_succ_self _
  obtain ⟨harr, hmem⟩ := (merges_mergeOverlay order _ _ _ it.tail acc hlen).shows hchanges hbase
  refine harr.eq_of_mem_iff (arranged_mapRange _ start stop order) fun x => ?_
  obtain ⟨k, v⟩ := x
  rw [hmem, mem_mapRange, getElem?_applyDeltas]
  change Merged _ it.records k v ↔ _
  rw [hit]
  simp only [Merged, mem_mapRange]
  cases hin : inRange start stop k with
  | false => simp
  | true =>
    cases hov : ov[k]? with
    | none => simp
    | some d => cases d <;> simp [Delta.value]

/-- The meter has nothing left: every further charge fails. -/
def Exhausted (m : GasMeter) : Prop := m.limit ≤ m.used

theorem exhausted_of_charge {m m' : GasMeter} {cost : Nat} {e : GasError}
    (h : m.charge cost = (m', .error e)) : e = .outOfGas ∧ Exhausted m' := by
  simp only [GasMeter.charge] at h
  split at h
  · obtain ⟨rfl, he⟩ := Prod.mk.inj h
    exact ⟨(Except.error.inj he).symm, ‹_›⟩
  · cases h

theorem charge_zero_of_not_exhausted {m : GasMeter} (h : ¬ Exhausted m) :
    m.charge 0 = (m, .ok ()) := by
  rw [GasMeter.charge_zero]
  exact congrArg (Prod.mk m) (if_neg h)

/-- Every read is answered as the map would, or runs out of gas. -/
structure ReadsAs {σ : Type} (h : StorageObj σ) (view : σ → Store) : Prop where
  get : ∀ m key s, ∃ m' r, h (.get m key) s = some (s, m', r) ∧
    (r = .ok (view s)[key]? ∨ r = .error .outOfGas ∧ Exhausted m')
  range : ∀ m start stop order s, ∃ m' r, h (.range m start stop order) s = some (s, m', r) ∧
    ((∃ it, r = .ok it ∧ it.records = mapRange (view s) start stop order) ∨
      r = .error .outOfGas ∧ Exhausted m')

/-- A write is made and costs nothing, unless it is to a key that is not
taken, which is a panic. -/
structure WritesAs {σ : Type} (h : StorageObj σ) (view : σ → Store) (takes : Bytes → Bool) :
    Prop where
  set : ∀ {m key} value s, ¬ Exhausted m → takes key = true →
    ∃ s', h (.set m key value) s = some (s', m, .ok ()) ∧
      view s' = OrdMap.update (view s) key (some value)
  remove : ∀ {m key} s, ¬ Exhausted m → takes key = true →
    ∃ s', h (.remove m key) s = some (s', m, .ok ()) ∧ view s' = OrdMap.update (view s) key none
  set_none : ∀ {m key} value s, ¬ Exhausted m → takes key = false → h (.set m key value) s = none
  remove_none : ∀ {m key} s, ¬ Exhausted m → takes key = false → h (.remove m key) s = none

section Cache

variable {σ : Type} {h : StorageObj σ} {view : σ → Store}

/-- What a cache over an object shows. -/
def cacheView (view : σ → Store) (x : Overlay × σ) : Store := applyDeltas (view x.2) x.1.toList

theorem run_readerWrapper_get (hreads : ReadsAs h view) (ov : Overlay) (m : GasMeter) (key : Bytes)
    (s : σ) : ∃ m' r, run h (ReaderWrapper.get ov m key) s = some (s, m', r) ∧
      (r = .ok (cacheView view (ov, s))[key]? ∨ r = .error .outOfGas ∧ Exhausted m') := by
  rw [cacheView, getElem?_applyDeltas, ReaderWrapper.get]
  cases ov[key]? with
  | some d => exact ⟨m, .ok d.value, rfl, .inl rfl⟩
  | none =>
    obtain ⟨m', r, hget, hr⟩ := hreads.get m key s
    refine ⟨m', r, ?_, hr⟩
    rw [run_perform]
    exact hget

theorem run_readerWrapper_range (hreads : ReadsAs h view) (ov : Overlay) (m : GasMeter)
    (start stop : Option Bytes) (order : Order) (s : σ) :
    ∃ m' r, run h (ReaderWrapper.range ov m start stop order) s = some (s, m', r) ∧
      ((∃ it, r = .ok it ∧ it.records = mapRange (cacheView view (ov, s)) start stop order) ∨
        r = .error .outOfGas ∧ Exhausted m') := by
  obtain ⟨m', r, hrange, hr⟩ := hreads.range m start stop order s
  rw [ReaderWrapper.range, run_bind, run_perform, hrange]
  refine ⟨m', _, rfl, ?_⟩
  rcases hr with ⟨it, rfl, hit⟩ | ⟨rfl, hout⟩
  · exact .inl ⟨_, rfl, records_mergeOverlay (view s) ov start stop order it hit []⟩
  · exact .inr ⟨rfl, hout⟩

/-- **A cache over a map reads as a map.** -/
theorem ReadsAs.cacheTx (hreads : ReadsAs h view) (prices : PriceList) :
    ReadsAs (stack (cacheTx prices) h) (cacheView view) where
  get := by
    rintro m key ⟨ov, s⟩
    obtain ⟨m₁, r, hget, hr⟩ := run_readerWrapper_get hreads ov m key s
    simp only [stack, LayerSdk.cacheTx, run_bind, hget, Option.bind_some]
    rcases hr with rfl | ⟨rfl, hout⟩
    · cases hc : prices.chargeRead m₁ key (cacheView view (ov, s))[key]? with
      | mk m₂ c =>
        refine ⟨m₂, c.map fun _ => (cacheView view (ov, s))[key]?, by simp [hc], ?_⟩
        cases c with
        | ok u => exact .inl rfl
        | error e =>
          obtain ⟨rfl, hout⟩ := exhausted_of_charge hc
          exact .inr ⟨rfl, hout⟩
    · exact ⟨m₁, .error .outOfGas, rfl, .inr ⟨rfl, hout⟩⟩
  range := by
    rintro m start stop order ⟨ov, s⟩
    simp only [stack, LayerSdk.cacheTx]
    cases hc : prices.chargeRange m with
    | mk m₁ c =>
      cases c with
      | error e =>
        obtain ⟨rfl, hout⟩ := exhausted_of_charge hc
        exact ⟨m₁, .error .outOfGas, rfl, .inr ⟨rfl, hout⟩⟩
      | ok u =>
        obtain ⟨m₂, r, hrange, hr⟩ := run_readerWrapper_range hreads ov m₁ start stop order s
        refine ⟨m₂, r, ?_, hr⟩
        simp only [run_bind, hrange, Option.bind_some]
        rfl

theorem applyDeltas_insert (s : Store) (ov : Overlay) (key : Bytes) (d : Delta) :
    applyDeltas s (ov.insert key d).toList =
      OrdMap.update (applyDeltas s ov.toList) key d.value := by
  refine ExtTreeMap.ext_getElem? fun k => ?_
  rw [getElem?_applyDeltas, OrdMap.getElem?_update, getElem?_applyDeltas,
    ExtTreeMap.getElem?_insert]
  simp only [Std.LawfulEqCmp.compare_eq_iff_eq]
  by_cases hk : key = k
  · simp only [if_pos hk]
  · simp only [if_neg hk]

theorem writesAs_cacheTx :
    WritesAs (stack (cacheTx defaultCachePrices) h) (cacheView view) (fun _ => true) where
  set := by
    rintro m key value ⟨ov, s⟩ hm -
    have hcharge : defaultCachePrices.chargeRange m = (m, .ok ()) := charge_zero_of_not_exhausted hm
    refine ⟨(ov.insert key (.set value), s), ?_, applyDeltas_insert _ ov key (.set value)⟩
    simp only [stack, cacheTx, hcharge]
    rfl
  remove := by
    rintro m key ⟨ov, s⟩ hm -
    have hcost : defaultCachePrices.removeCost key = 0 := by
      simp [PriceList.removeCost, defaultCachePrices]
    have hcharge : defaultCachePrices.chargeRemove m key = (m, .ok ()) := by
      rw [PriceList.chargeRemove, hcost]
      exact charge_zero_of_not_exhausted hm
    refine ⟨(ov.insert key .delete, s), ?_, applyDeltas_insert _ ov key .delete⟩
    simp only [stack, cacheTx, hcharge]
    rfl
  set_none := by simp
  remove_none := by simp

end Cache

/-! ## The stores -/

/-- What a cache can be opened on. -/
inductive BaseStore where
  | writer (b : Backend)
  | reader (b : Backend)
deriving DecidableEq

namespace BaseStore

abbrev State : BaseStore → Type
  | writer _ => Writer
  | reader _ => Store

def obj : (B : BaseStore) → StorageObj B.State
  | writer b => writerObj b
  | reader b => LayerSdk.reader b

def view : (B : BaseStore) → B.State → Store
  | writer _ => Writer.view
  | reader _ => id

/-- A reader has no writes. The RocksDB writer feeds its hasher while it writes,
which looks at the first byte of the key. -/
def takes : BaseStore → Bytes → Bool
  | writer .memory, _ => true
  | writer .rock, key => key ≠ []
  | reader _, _ => false

end BaseStore

theorem persistedGet_cases (data : Store) (m : GasMeter) (key : Bytes) :
    ∃ m' r, persistedGet data m key = (m', r) ∧
      (r = .ok data[key]? ∨ r = .error .outOfGas ∧ Exhausted m') := by
  rw [persistedGet]
  cases hc : defaultPersistedPrices.chargeRead m key data[key]? with
  | mk m' c =>
    refine ⟨m', _, rfl, ?_⟩
    cases c with
    | ok u => exact .inl rfl
    | error e =>
      obtain ⟨rfl, hout⟩ := exhausted_of_charge hc
      exact .inr ⟨rfl, hout⟩

theorem mapRange_eq_nil_of_emptyBounds {α : Type} {start stop : Option Bytes}
    (h : emptyBounds start stop = true) (m : ExtTreeMap Bytes α) (order : Order) :
    mapRange m start stop order = [] := by
  refine List.eq_nil_iff_forall_not_mem.mpr fun x hx => ?_
  obtain ⟨-, hin⟩ := mem_mapRange.mp (show (x.1, x.2) ∈ _ from hx)
  cases start with
  | none => cases stop <;> cases h
  | some a =>
    cases stop with
    | none => cases h
    | some b =>
      simp only [emptyBounds, Ordering.isGT_iff_eq_gt] at h
      simp only [inRange, Option.all_some, Bool.and_eq_true, Ordering.isLT_iff_eq_lt] at hin
      have hlt : compare a b = .lt := Std.TransCmp.lt_of_isLE_of_lt hin.1 hin.2
      rw [h] at hlt
      cases hlt

theorem persistedRange_cases (b : Backend) (data : Store) (m : GasMeter)
    (start stop : Option Bytes) (order : Order) :
    ∃ m' r, persistedRange b data m start stop order = (m', r) ∧
      ((∃ it, r = .ok it ∧ it.records = mapRange data start stop order) ∨
        r = .error .outOfGas ∧ Exhausted m') := by
  rw [persistedRange]
  by_cases hempty : b = .memory ∧ emptyBounds start stop = true
  · rw [if_pos hempty]
    refine ⟨m, _, rfl, .inl ⟨_, rfl, ?_⟩⟩
    rw [mapRange_eq_nil_of_emptyBounds hempty.2]
    rfl
  · rw [if_neg hempty]
    cases hc : defaultPersistedPrices.chargeRange m with
    | mk m' c =>
      cases c with
      | ok u => exact ⟨m', _, rfl, .inl ⟨_, rfl, GasIter.records_ofRecords _ _⟩⟩
      | error e =>
        obtain ⟨rfl, hout⟩ := exhausted_of_charge hc
        exact ⟨m', _, rfl, .inr ⟨rfl, hout⟩⟩

theorem readsAs_memoryWriter : ReadsAs memoryWriter Writer.view where
  get := by
    intro m key w
    rw [memoryWriter, Writer.getElem?_view]
    cases w.changes[key]? with
    | some d => exact ⟨m, _, rfl, .inl rfl⟩
    | none =>
      obtain ⟨m', r, hget, hr⟩ := persistedGet_cases w.committed m key
      exact ⟨m', r, by simp only [hget], hr⟩
  range := by
    intro m start stop order w
    obtain ⟨m', r, hrange, hr⟩ := persistedRange_cases .memory w.committed m start stop order
    simp only [memoryWriter, hrange]
    refine ⟨m', _, rfl, ?_⟩
    rcases hr with ⟨it, rfl, hit⟩ | ⟨rfl, hout⟩
    · exact .inl ⟨_, rfl, records_mergeOverlay w.committed w.changes start stop order it hit []⟩
    · exact .inr ⟨rfl, hout⟩

theorem readsAs_base : ∀ B : BaseStore, ReadsAs B.obj B.view
  | .writer .memory => readsAs_memoryWriter
  | .writer .rock => by
    refine ⟨fun m key w => ?_, fun m start stop order w => ?_⟩
    · obtain ⟨m', r, hget, hr⟩ := persistedGet_cases w.view m key
      exact ⟨m', r, congrArg (fun x => some (w, x)) hget, hr⟩
    · obtain ⟨m', r, hrange, hr⟩ := persistedRange_cases .rock w.view m start stop order
      exact ⟨m', r, congrArg (fun x => some (w, x)) hrange, hr⟩
  | .reader b => by
    refine ⟨fun m key data => ?_, fun m start stop order data => ?_⟩
    · obtain ⟨m', r, hget, hr⟩ := persistedGet_cases data m key
      exact ⟨m', r, congrArg (fun x => some (data, x)) hget, hr⟩
    · obtain ⟨m', r, hrange, hr⟩ := persistedRange_cases b data m start stop order
      exact ⟨m', r, congrArg (fun x => some (data, x)) hrange, hr⟩

theorem FastHasher.set_nil (f : FastHasher) (value : Bytes) : f.set [] value = none := rfl

theorem FastHasher.remove_nil (f : FastHasher) : f.remove [] = none := rfl

theorem FastHasher.exists_set (f : FastHasher) {key : Bytes} (h : key ≠ []) (value : Bytes) :
    ∃ f', f.set key value = some f' := by
  rw [FastHasher.set, if_neg h]
  split <;> exact ⟨_, rfl⟩

theorem FastHasher.exists_remove (f : FastHasher) {key : Bytes} (h : key ≠ []) :
    ∃ f', f.remove key = some f' := by
  rw [FastHasher.remove, if_neg h]
  split <;> exact ⟨_, rfl⟩

theorem writesAs_rockWriter : WritesAs rockWriter Writer.view (fun key => key ≠ []) where
  set := by
    intro m key value w hm hkey
    obtain ⟨hasher, hset⟩ := w.hasher.exists_set (of_decide_eq_true hkey) value
    refine ⟨_, ?_, w.view_insert key (.set value) hasher⟩
    simp only [rockWriter, PriceList.chargeWrite, PriceList.writeCost_persisted,
      charge_zero_of_not_exhausted hm, hset]
    rfl
  remove := by
    intro m key w hm hkey
    obtain ⟨hasher, hremove⟩ := w.hasher.exists_remove (of_decide_eq_true hkey)
    refine ⟨_, ?_, w.view_insert key .delete hasher⟩
    simp only [rockWriter, PriceList.chargeRemove, PriceList.removeCost_persisted,
      charge_zero_of_not_exhausted hm, hremove]
    rfl
  set_none := by
    intro m key value w hm hkey
    obtain rfl : key = [] := by simpa using hkey
    simp only [rockWriter, PriceList.chargeWrite, PriceList.writeCost_persisted,
      charge_zero_of_not_exhausted hm, FastHasher.set_nil, Option.map_none]
  remove_none := by
    intro m key w hm hkey
    obtain rfl : key = [] := by simpa using hkey
    simp only [rockWriter, PriceList.chargeRemove, PriceList.removeCost_persisted,
      charge_zero_of_not_exhausted hm, FastHasher.remove_nil, Option.map_none]

theorem writesAs_base : ∀ B : BaseStore, WritesAs B.obj B.view B.takes
  | .writer .memory =>
    { set := fun value w _ _ => ⟨_, rfl, w.view_insert _ (.set value) w.hasher⟩
      remove := fun w _ _ => ⟨_, rfl, w.view_insert _ .delete w.hasher⟩
      set_none := fun _ _ _ h => by cases h
      remove_none := fun _ _ h => by cases h }
  | .writer .rock => writesAs_rockWriter
  | .reader _ =>
    { set := fun _ _ _ h => by cases h
      remove := fun _ _ h => by cases h
      set_none := fun _ _ _ _ => rfl
      remove_none := fun _ _ _ => rfl }

/-! ## Programs of nested caches -/

inductive TxKind where
  | subTx
  | weakSubTx
  | scratchTx
deriving DecidableEq, Repr

def TxKind.wrapper : TxKind → Wrapper storageSig storageSig Overlay
  | .subTx => LayerSdk.subTx
  | .weakSubTx => LayerSdk.weakSubTx
  | .scratchTx => LayerSdk.scratchTx

theorem TxKind.wrapper_eq (k : TxKind) : k.wrapper = cacheTx defaultCachePrices := by
  cases k <;> rfl

/-- `set` and `remove` go to the innermost open cache, or to the store. A
`ScratchTx` is never committed, and a `WeakSubTx` by its `RepLog`. -/
inductive TxCmd where
  | write (key : Bytes) (d : Delta)
  | start (kind : TxKind)
  | commit
  | abort
deriving DecidableEq

section Layers

variable {σ : Type}

/-- The open caches over a store, innermost first. -/
def Layers (σ : Type) : List TxKind → Type
  | [] => σ
  | _ :: ks => Overlay × Layers σ ks

def layered (h : StorageObj σ) : (ks : List TxKind) → StorageObj (Layers σ ks)
  | [] => h
  | k :: ks => stack k.wrapper (layered h ks)

def layersView (view : σ → Store) : (ks : List TxKind) → Layers σ ks → Store
  | [] => view
  | _ :: ks => cacheView (layersView view ks)

structure Session (σ : Type) where
  kinds : List TxKind
  layers : Layers σ kinds

def TxCmd.step (h : StorageObj σ) (m : GasMeter) : TxCmd → Session σ → Option (Session σ × GasMeter)
  | .write key d, ⟨ks, x⟩ =>
    (exec (layered h ks) (applyOp key d : StorageM GasError Unit) m x).map fun y =>
      (⟨ks, y.1⟩, y.2.2)
  | .start kind, ⟨ks, x⟩ => some (⟨kind :: ks, (∅, x)⟩, m)
  | .commit, ⟨.scratchTx :: _, _⟩ => none
  | .commit, ⟨_ :: ks, (ov, x)⟩ =>
    (exec (layered h ks) (commitOverlay ov : StorageM GasError Unit) m x).map fun y =>
      (⟨ks, y.1⟩, y.2.2)
  | .abort, ⟨_ :: ks, (_, x)⟩ => some (⟨ks, x⟩, m)
  | .commit, ⟨[], _⟩ => none
  | .abort, ⟨[], _⟩ => none

def runTx (h : StorageObj σ) : List TxCmd → Session σ → GasMeter → Option (Session σ × GasMeter)
  | [], ses, m => some (ses, m)
  | c :: rest, ses, m => (c.step h m ses).bind fun x => runTx h rest x.1 x.2

end Layers

/-! ## The flat maps -/

/-- One map per open cache, innermost first, and the store's. -/
abbrev FlatStack := List (TxKind × Store) × Store

def FlatStack.top : FlatStack → Store
  | ([], base) => base
  | ((_, s) :: _, _) => s

def FlatStack.setTop : FlatStack → Store → FlatStack
  | ([], _), s => ([], s)
  | ((k, _) :: rest, base), s => ((k, s) :: rest, base)

def flatStep : TxCmd → FlatStack → Option FlatStack
  | .write key d, flat => some (flat.setTop (OrdMap.update flat.top key d.value))
  | .start kind, flat => some ((kind, flat.top) :: flat.1, flat.2)
  | .commit, ((.scratchTx, _) :: _, _) => none
  | .commit, ((_, s) :: rest, base) => some (FlatStack.setTop (rest, base) s)
  | .abort, (_ :: rest, base) => some (rest, base)
  | .commit, ([], _) => none
  | .abort, ([], _) => none

/-- `none` is a program that commits a `ScratchTx`, or ends a cache it has not
opened. -/
def flatRun : List TxCmd → FlatStack → Option FlatStack
  | [], flat => some flat
  | c :: rest, flat => (flatStep c flat).bind (flatRun rest)

/-! ## Which keys reach the store -/

def touchTop (keys : List Bytes) : List (List Bytes) → List (List Bytes)
  | [] => []
  | t :: ts => (keys ++ t) :: ts

/-- The keys written in each open cache after a command. -/
def touch : TxCmd → List (List Bytes) → List (List Bytes)
  | .write key _, ts => touchTop [key] ts
  | .start _, ts => [] :: ts
  | .commit, t :: ts => touchTop t ts
  | .abort, _ :: ts => ts
  | .commit, [] => []
  | .abort, [] => []

/-- The keys a command writes to the store. -/
def keysToBase : TxCmd → List (List Bytes) → List Bytes
  | .write key _, [] => [key]
  | .commit, [t] => t
  | _, _ => []

def baseKeys : List TxCmd → List (List Bytes) → List Bytes
  | [], _ => []
  | c :: rest, ts => keysToBase c ts ++ baseKeys rest (touch c ts)

/-! ## The simulation -/

section Simulation

variable {σ : Type} {h : StorageObj σ} {view : σ → Store} {takes : Bytes → Bool} {m : GasMeter}

theorem layered_cons (k : TxKind) (ks : List TxKind) :
    layered h (k :: ks) = stack (cacheTx defaultCachePrices) (layered h ks) := by
  rw [layered, k.wrapper_eq]

theorem readsAs_layered (hreads : ReadsAs h view) :
    ∀ ks, ReadsAs (layered h ks) (layersView view ks)
  | [] => hreads
  | k :: ks => by
    rw [layered_cons]
    exact (readsAs_layered hreads ks).cacheTx _

/-- A cache takes every key. -/
def takesAt (takes : Bytes → Bool) : List TxKind → Bytes → Bool
  | [] => takes
  | _ :: _ => fun _ => true

theorem writesAs_layered (hwrites : WritesAs h view takes) :
    ∀ ks, WritesAs (layered h ks) (layersView view ks) (takesAt takes ks)
  | [] => hwrites
  | k :: ks => by
    rw [layered_cons]
    exact writesAs_cacheTx

theorem exec_applyOp_some (hwrites : WritesAs h view takes) (hm : ¬ Exhausted m) {key : Bytes}
    (hkey : takes key = true) (d : Delta) (s : σ) :
    ∃ s', exec h (applyOp key d : StorageM GasError Unit) m s = some (s', .ok (), m) ∧
      view s' = OrdMap.update (view s) key d.value := by
  cases d with
  | set value =>
    obtain ⟨s', hset, hview⟩ := hwrites.set value s hm hkey
    exact ⟨s', by rw [applyOp, exec_set, hset]; rfl, hview⟩
  | delete =>
    obtain ⟨s', hremove, hview⟩ := hwrites.remove s hm hkey
    exact ⟨s', by rw [applyOp, exec_remove, hremove]; rfl, hview⟩

theorem exec_applyOp_none (hwrites : WritesAs h view takes) (hm : ¬ Exhausted m) {key : Bytes}
    (hkey : takes key = false) (d : Delta) (s : σ) :
    exec h (applyOp key d : StorageM GasError Unit) m s = none := by
  cases d with
  | set value => rw [applyOp, exec_set, hwrites.set_none value s hm hkey]; rfl
  | delete => rw [applyOp, exec_remove, hwrites.remove_none s hm hkey]; rfl

theorem exec_applyOps_none (hwrites : WritesAs h view takes) (hm : ¬ Exhausted m) :
    ∀ {ops : List (Bytes × Delta)} (s : σ), (∃ e ∈ ops, takes e.1 = false) →
      exec h (applyOps ops : StorageM GasError Unit) m s = none
  | [], _, ⟨_, he, _⟩ => by cases he
  | (key, d) :: rest, s, ⟨e, he, hbad⟩ => by
    rw [applyOps, exec_bind]
    cases hkey : takes key with
    | false => rw [exec_applyOp_none hwrites hm hkey]; rfl
    | true =>
      obtain ⟨s₁, hop, -⟩ := exec_applyOp_some hwrites hm hkey d s
      rw [hop, Option.bind_some, andThen]
      refine exec_applyOps_none hwrites hm s₁ ⟨e, ?_, hbad⟩
      rcases List.mem_cons.mp he with rfl | he
      · rw [hkey] at hbad
        cases hbad
      · exact he

/-- Each open cache shows its flat map and holds changes at the touched keys. -/
def Matches (view : σ → Store) : (ks : List TxKind) → Layers σ ks → FlatStack →
    List (List Bytes) → Prop
  | [], s, ([], base), [] => view s = base
  | k :: ks, (ov, x), ((k', s) :: rest, base), t :: ts =>
    k' = k ∧ layersView view (k :: ks) (ov, x) = s ∧ (∀ key, key ∈ t ↔ key ∈ ov) ∧
      Matches view ks x (rest, base) ts
  | _, _, _, _ => False

theorem Matches.view_eq : ∀ {ks : List TxKind} {x : Layers σ ks} {flat : FlatStack}
    {ts : List (List Bytes)}, Matches view ks x flat ts → layersView view ks x = flat.top
  | [], _, ([], _), [], hmatch => hmatch
  | _ :: _, (_, _), ((_, _) :: _, _), _ :: _, hmatch => hmatch.2.1

/-- Only the store looks at the keys. -/
theorem Matches.keys_write {key : Bytes} {d : Delta} : ∀ {ks : List TxKind} {x : Layers σ ks}
    {flat : FlatStack} {ts : List (List Bytes)}, Matches view ks x flat ts →
    ((∀ k ∈ keysToBase (.write key d) ts, takes k = true) ↔ takesAt takes ks key = true)
  | [], _, ([], _), [], _ => List.forall_mem_singleton
  | _ :: _, (_, _), ((_, _) :: _, _), _ :: _, _ => ⟨fun _ => rfl, fun _ => nofun⟩

theorem Matches.keys_commit {t : List Bytes} : ∀ {ks : List TxKind} {x : Layers σ ks}
    {flat : FlatStack} {ts : List (List Bytes)}, Matches view ks x flat ts →
    ((∀ k ∈ keysToBase .commit (t :: ts), takes k = true) ↔ ∀ k ∈ t, takesAt takes ks k = true)
  | [], _, ([], _), [], _ => Iff.rfl
  | _ :: _, (_, _), ((_, _) :: _, _), _ :: _, _ => ⟨fun _ _ _ => rfl, fun _ => nofun⟩

theorem exists_not_taken {keys : List Bytes} (h : ¬ ∀ key ∈ keys, takes key = true) :
    ∃ key ∈ keys, takes key = false := by
  simpa using h

theorem exec_applyOp_cacheTx {ε : Type} [FromGas ε] (hm : ¬ Exhausted m) (key : Bytes) (d : Delta)
    (ov : Overlay) (s : σ) :
    exec (stack (cacheTx defaultCachePrices) h) (applyOp key d : StorageM ε Unit) m (ov, s) =
      some ((ov.insert key d, s), .ok (), m) := by
  have hremove : defaultCachePrices.removeCost key = 0 := by
    simp [PriceList.removeCost, defaultCachePrices]
  cases d with
  | set value =>
    rw [applyOp, exec_set]
    simp only [stack, cacheTx, PriceList.chargeRange, defaultCachePrices,
      charge_zero_of_not_exhausted hm]
    rfl
  | delete =>
    rw [applyOp, exec_remove]
    simp only [stack, cacheTx, PriceList.chargeRemove, hremove, charge_zero_of_not_exhausted hm]
    rfl

/-- A write through the open caches changes the innermost one only. -/
theorem Matches.write (hwrites : WritesAs h view takes) (hm : ¬ Exhausted m) (key : Bytes)
    (d : Delta) : ∀ {ks : List TxKind} {x : Layers σ ks} {flat : FlatStack}
    {ts : List (List Bytes)}, Matches view ks x flat ts → takesAt takes ks key = true →
    ∃ x', exec (layered h ks) (applyOp key d : StorageM GasError Unit) m x = some (x', .ok (), m) ∧
      Matches view ks x' (flat.setTop (OrdMap.update flat.top key d.value)) (touchTop [key] ts)
  | [], x, ([], base), [], hmatch, hkey => by
    obtain ⟨s', hsome, hview⟩ := exec_applyOp_some hwrites hm hkey d x
    refine ⟨s', hsome, hview.trans ?_⟩
    rw [show view x = base from hmatch]
    rfl
  | k :: ks, (ov, x), ((k', s) :: rest, base), t :: ts, hmatch, hkey => by
    obtain ⟨rfl, hs, hkeys, hrest⟩ := hmatch
    refine ⟨(ov.insert key d, x), ?_, rfl, ?_, fun key' => ?_, hrest⟩
    · exact (congrArg (fun o => exec o _ m (ov, x)) (layered_cons k' ks)).trans
        (exec_applyOp_cacheTx hm key d ov x)
    · rw [FlatStack.top, ← hs]
      exact applyDeltas_insert _ ov key d
    · rw [List.singleton_append, List.mem_cons, ExtTreeMap.mem_insert, hkeys]
      simp only [Std.LawfulEqCmp.compare_eq_iff_eq]
      exact or_congr_left eq_comm

@[simp] theorem FlatStack.top_setTop : ∀ (flat : FlatStack) (s : Store), (flat.setTop s).top = s
  | ([], _), _ => rfl
  | ((_, _) :: _, _), _ => rfl

@[simp] theorem FlatStack.setTop_setTop : ∀ (flat : FlatStack) (s s' : Store),
    (flat.setTop s).setTop s' = flat.setTop s'
  | ([], _), _, _ => rfl
  | ((_, _) :: _, _), _, _ => rfl

theorem FlatStack.setTop_top : ∀ flat : FlatStack, flat.setTop flat.top = flat
  | ([], _) => rfl
  | ((_, _) :: _, _) => rfl

/-- Only which keys were touched counts. -/
theorem Matches.congr_touched : ∀ {ks : List TxKind} {x : Layers σ ks} {flat : FlatStack}
    {keys keys' : List Bytes} {ts : List (List Bytes)}, (∀ key, key ∈ keys ↔ key ∈ keys') →
    Matches view ks x flat (touchTop keys ts) → Matches view ks x flat (touchTop keys' ts)
  | [], _, ([], _), _, _, [], _, hmatch => hmatch
  | _ :: _, (_, _), ((_, _) :: _, _), keys, keys', t :: ts, hsame, hmatch => by
    obtain ⟨hk, hs, hkeys, hrest⟩ := hmatch
    refine ⟨hk, hs, fun key => ?_, hrest⟩
    rw [← hkeys, List.mem_append, List.mem_append, hsame]

/-- The commit loop makes the changes one by one. -/
theorem Matches.applyOps (hwrites : WritesAs h view takes) (hm : ¬ Exhausted m)
    {ks : List TxKind} : ∀ {ops : List (Bytes × Delta)} {x : Layers σ ks} {flat : FlatStack}
    {ts : List (List Bytes)}, Matches view ks x flat ts →
    (∀ e ∈ ops, takesAt takes ks e.1 = true) →
    ∃ x', exec (layered h ks) (LayerSdk.applyOps ops : StorageM GasError Unit) m x =
        some (x', .ok (), m) ∧
      Matches view ks x' (flat.setTop (applyDeltas flat.top ops)) (touchTop (ops.map Prod.fst) ts)
  | [], x, flat, ts, hmatch, _ => by
    refine ⟨x, rfl, ?_⟩
    rw [show applyDeltas flat.top [] = flat.top from rfl, flat.setTop_top]
    cases ts <;> exact hmatch
  | (key, d) :: rest, x, flat, ts, hmatch, hops => by
    obtain ⟨x₁, hop, hmatch₁⟩ := hmatch.write hwrites hm key d (hops _ (List.mem_cons_self))
    obtain ⟨x₂, hrest, hmatch₂⟩ := hmatch₁.applyOps hwrites hm
      fun e he => hops e (List.mem_cons_of_mem _ he)
    refine ⟨x₂, ?_, ?_⟩
    · rw [LayerSdk.applyOps, exec_bind, hop, Option.bind_some, andThen, hrest]
    · rw [FlatStack.top_setTop, FlatStack.setTop_setTop] at hmatch₂
      have htouch : touchTop (rest.map Prod.fst) (touchTop [key] ts) =
          touchTop (rest.map Prod.fst ++ [key]) ts := by
        cases ts <;> simp [touchTop]
      rw [htouch] at hmatch₂
      exact hmatch₂.congr_touched fun k => by simp [or_comm]

theorem Matches.start {ks : List TxKind} {x : Layers σ ks} {flat : FlatStack}
    {ts : List (List Bytes)} (hmatch : Matches view ks x flat ts) (kind : TxKind) :
    Matches view (kind :: ks) (∅, x) ((kind, flat.top) :: flat.1, flat.2) ([] :: ts) := by
  refine ⟨rfl, ?_, fun key => by simp, hmatch⟩
  rw [← hmatch.view_eq]
  exact ExtTreeMap.ext_getElem? fun key => by
    simp only [layersView, cacheView, getElem?_applyDeltas, ExtTreeMap.getElem?_empty]

/-- The changes of a cache go to the one below, or to the store. -/
theorem Matches.commit (hwrites : WritesAs h view takes) (hm : ¬ Exhausted m) {k : TxKind}
    {ks : List TxKind} {ov : Overlay} {x : Layers σ ks} {k' : TxKind} {s : Store}
    {rest : List (TxKind × Store)} {base : Store} {t : List Bytes} {ts : List (List Bytes)}
    (hmatch : Matches view (k :: ks) (ov, x) ((k', s) :: rest, base) (t :: ts)) :
    ((∀ key ∈ keysToBase .commit (t :: ts), takes key = true) ∧
      ∃ x', exec (layered h ks) (commitOverlay ov : StorageM GasError Unit) m x =
          some (x', .ok (), m) ∧
        Matches view ks x' (FlatStack.setTop (rest, base) s) (touchTop t ts)) ∨
    ((∃ key ∈ keysToBase .commit (t :: ts), takes key = false) ∧
      exec (layered h ks) (commitOverlay ov : StorageM GasError Unit) m x = none) := by
  obtain ⟨-, hs, hkeys, hrest⟩ := hmatch
  have hkeysOv : ∀ key, key ∈ ov.toList.map Prod.fst ↔ key ∈ t := by
    intro key
    rw [ExtTreeMap.map_fst_toList_eq_keys, ExtTreeMap.mem_keys, hkeys]
  by_cases hall : ∀ key ∈ keysToBase .commit (t :: ts), takes key = true
  · refine .inl ⟨hall, ?_⟩
    obtain ⟨x', hexec, hmatch'⟩ := hrest.applyOps hwrites hm fun e he =>
      hrest.keys_commit.mp hall e.1 ((hkeysOv e.1).mp (List.mem_map_of_mem he))
    refine ⟨x', hexec, ?_⟩
    have hs' : applyDeltas (FlatStack.top (rest, base)) ov.toList = s := by
      rw [← hrest.view_eq]
      exact hs
    rw [hs'] at hmatch'
    exact hmatch'.congr_touched hkeysOv
  · refine .inr ⟨exists_not_taken hall, ?_⟩
    rw [hrest.keys_commit] at hall
    obtain ⟨key, hkey, hbad⟩ := exists_not_taken hall
    obtain ⟨e, he, rfl⟩ := List.mem_map.mp ((hkeysOv key).mpr hkey)
    exact exec_applyOps_none (writesAs_layered hwrites ks) hm x ⟨e, he, hbad⟩

/-- One command: it goes as in the flat maps, or writes a key the store does not
take, which is a panic. -/
theorem step_matches (hwrites : WritesAs h view takes) (hm : ¬ Exhausted m) {c : TxCmd} :
    ∀ {ks : List TxKind} {x : Layers σ ks} {flat flat' : FlatStack} {ts : List (List Bytes)},
    Matches view ks x flat ts → flatStep c flat = some flat' →
    ((∀ key ∈ keysToBase c ts, takes key = true) ∧ ∃ ses, c.step h m ⟨ks, x⟩ = some (ses, m) ∧
      Matches view ses.kinds ses.layers flat' (touch c ts)) ∨
    ((∃ key ∈ keysToBase c ts, takes key = false) ∧ c.step h m ⟨ks, x⟩ = none) := by
  intro ks x flat flat' ts hmatch hflat
  cases c with
  | write key d =>
    cases hflat
    by_cases hall : ∀ k ∈ keysToBase (.write key d) ts, takes k = true
    · obtain ⟨x', hexec, hmatch'⟩ := hmatch.write hwrites hm key d (hmatch.keys_write.mp hall)
      exact .inl ⟨hall, ⟨ks, x'⟩, by simp only [TxCmd.step, hexec, Option.map_some], hmatch'⟩
    · refine .inr ⟨exists_not_taken hall, ?_⟩
      rw [hmatch.keys_write, Bool.not_eq_true] at hall
      simp only [TxCmd.step, exec_applyOp_none (writesAs_layered hwrites ks) hm hall,
        Option.map_none]
  | start kind =>
    cases hflat
    refine .inl ⟨fun key hkey => ?_, ⟨kind :: ks, (∅, x)⟩, rfl, hmatch.start kind⟩
    cases ts <;> cases hkey
  | commit =>
    cases ks with
    | nil =>
      obtain ⟨_ | ⟨y, rest⟩, base⟩ := flat
      · cases hflat
      · cases ts <;> exact hmatch.elim
    | cons k ks' =>
      obtain ⟨ov, x'⟩ := x
      obtain ⟨_ | ⟨⟨k', s⟩, rest⟩, base⟩ := flat
      · cases hflat
      · cases ts with
        | nil => exact hmatch.elim
        | cons t ts' =>
          obtain rfl : k' = k := hmatch.1
          obtain ⟨hstep, rfl⟩ : TxCmd.commit.step h m ⟨k' :: ks', (ov, x')⟩ =
              (exec (layered h ks') (commitOverlay ov : StorageM GasError Unit) m x').map
                (fun y => (⟨ks', y.1⟩, y.2.2)) ∧ FlatStack.setTop (rest, base) s = flat' := by
            cases k' <;> cases hflat <;> exact ⟨rfl, rfl⟩
          rw [hstep]
          rcases hmatch.commit hwrites hm with ⟨hall, y, hexec, hmatch'⟩ | ⟨hbad, hexec⟩
          · exact .inl ⟨hall, ⟨ks', y⟩, by rw [hexec]; rfl, hmatch'⟩
          · exact .inr ⟨hbad, by rw [hexec]; rfl⟩
  | abort =>
    cases ks with
    | nil =>
      obtain ⟨_ | ⟨y, rest⟩, base⟩ := flat
      · cases hflat
      · cases ts <;> exact hmatch.elim
    | cons k ks' =>
      obtain ⟨ov, x'⟩ := x
      obtain ⟨_ | ⟨⟨k', s⟩, rest⟩, base⟩ := flat
      · cases hflat
      · cases ts with
        | nil => exact hmatch.elim
        | cons t ts' =>
          cases hflat
          refine .inl ⟨fun key hkey => ?_, ⟨ks', x'⟩, rfl, hmatch.2.2.2⟩
          cases ts' <;> cases hkey

/-- A whole program goes as in the flat maps if and only if every key that
reaches the store is taken there. -/
theorem run_matches (hwrites : WritesAs h view takes) (hm : ¬ Exhausted m) :
    ∀ {cmds : List TxCmd} {ks : List TxKind} {x : Layers σ ks} {flat flat' : FlatStack}
    {ts : List (List Bytes)}, Matches view ks x flat ts → flatRun cmds flat = some flat' →
    ((∀ key ∈ baseKeys cmds ts, takes key = true) ∧
      ∃ ses ts', runTx h cmds ⟨ks, x⟩ m = some (ses, m) ∧
        Matches view ses.kinds ses.layers flat' ts') ∨
    ((∃ key ∈ baseKeys cmds ts, takes key = false) ∧ runTx h cmds ⟨ks, x⟩ m = none)
  | [], ks, x, flat, flat', ts, hmatch, hflat => by
    cases hflat
    exact .inl ⟨fun key hkey => (List.not_mem_nil hkey).elim, ⟨ks, x⟩, ts, rfl, hmatch⟩
  | c :: rest, ks, x, flat, flat', ts, hmatch, hflat => by
    obtain ⟨flat₁, hstep, hrest⟩ := Option.bind_eq_some_iff.mp hflat
    rcases step_matches hwrites hm hmatch hstep with
      ⟨hkeys, ses, hrun, hmatch₁⟩ | ⟨⟨key, hkey, hbad⟩, hrun⟩
    · simp only [runTx, hrun, Option.bind_some, baseKeys]
      rcases run_matches hwrites hm hmatch₁ hrest with ⟨hkeys', hgood⟩ | ⟨⟨key, hkey, hbad⟩, hnone⟩
      · refine .inl ⟨fun key hkey => ?_, hgood⟩
        exact (List.mem_append.mp hkey).elim (hkeys key) (hkeys' key)
      · exact .inr ⟨⟨key, List.mem_append_right _ hkey, hbad⟩, hnone⟩
    · refine .inr ⟨⟨key, List.mem_append_left _ hkey, hbad⟩, ?_⟩
      simp only [runTx, hrun, Option.bind_none]

end Simulation

/-! ## What a session shows -/

section Shows

theorem chargeAll_error : ∀ {cs : List Nat} {m m' : GasMeter} {e : GasError},
    m.chargeAll cs = (m', .error e) → Exhausted m'
  | [], _, _, _, h => by cases h
  | c :: cs, m, m', e, h => by
    rw [GasMeter.chargeAll] at h
    cases hc : m.charge c with
    | mk m₁ r =>
      rw [hc] at h
      cases r with
      | ok u => exact chargeAll_error h
      | error e' =>
        obtain ⟨rfl, -⟩ := Prod.mk.inj h
        exact (exhausted_of_charge hc).2

theorem collectItems_cases (tail : List Nat) : ∀ (items : List (List Nat × Record)) (m : GasMeter),
    ∃ m' r, GasIter.collectItems tail items m = (m', r) ∧
      (r = .ok (items.map Prod.snd) ∨ (∃ e, r = .error e) ∧ Exhausted m')
  | [], m => by
    refine ⟨_, _, rfl, ?_⟩
    cases hc : m.chargeAll tail with
    | mk m' r =>
      cases r with
      | ok u => exact .inl rfl
      | error e => exact .inr ⟨⟨e, rfl⟩, chargeAll_error hc⟩
  | (cs, r) :: rest, m => by
    rw [GasIter.collectItems]
    cases hc : m.chargeAll cs with
    | mk m₁ c =>
      cases c with
      | error e => exact ⟨m₁, _, rfl, .inr ⟨⟨e, rfl⟩, chargeAll_error hc⟩⟩
      | ok u =>
        obtain ⟨m₂, rs, hrest, hrs⟩ := collectItems_cases tail rest m₁
        refine ⟨m₂, rs.map (r :: ·), by simp only [hrest], ?_⟩
        rcases hrs with rfl | ⟨⟨e, rfl⟩, hout⟩
        · exact .inl rfl
        · exact .inr ⟨⟨e, rfl⟩, hout⟩

/-- The maps of the open caches. -/
def Session.levels {σ : Type} (view : σ → Store) (ses : Session σ) : FlatStack :=
  levelsOf ses.kinds ses.layers
where
  levelsOf : (ks : List TxKind) → Layers σ ks → FlatStack
    | [], s => ([], view s)
    | k :: ks, (ov, x) =>
      ((k, cacheView (layersView view ks) (ov, x)) :: (levelsOf ks x).1, (levelsOf ks x).2)

theorem Matches.levels {σ : Type} {view : σ → Store} : ∀ {ks : List TxKind} {x : Layers σ ks}
    {flat : FlatStack} {ts : List (List Bytes)}, Matches view ks x flat ts →
    Session.levels.levelsOf view ks x = flat
  | [], _, ([], _), [], hmatch => Prod.ext rfl hmatch
  | _ :: _, (_, _), ((_, _) :: _, _), _ :: _, ⟨rfl, hs, _, hrest⟩ => by
    have ih := hrest.levels
    simp only [Session.levels.levelsOf, ih]
    rw [← hs]
    rfl

/-- The session has the open caches of `flat`, each showing its map there, and
every read at the innermost one is answered from its map unless the gas
runs out. -/
def Shows (B : BaseStore) (ses : Session B.State) (flat : FlatStack) : Prop :=
  ses.levels B.view = flat ∧
  (∀ m key, ∃ r m', exec (layered B.obj ses.kinds) (Storage.get key : StorageM GasError _) m
      ses.layers = some (ses.layers, r, m') ∧ (r = .ok flat.top[key]? ∨ Exhausted m')) ∧
  (∀ m start stop order, ∃ r m', exec (layered B.obj ses.kinds) (do
      let it ← Storage.range start stop order
      collect it : StorageM GasError (List Record)) m ses.layers = some (ses.layers, r, m') ∧
        (r = .ok (mapRange flat.top start stop order) ∨ Exhausted m'))

theorem Matches.shows {B : BaseStore} {ses : Session B.State} {flat : FlatStack}
    {ts : List (List Bytes)} (hmatch : Matches B.view ses.kinds ses.layers flat ts) :
    Shows B ses flat := by
  have hreads := readsAs_layered (readsAs_base B) ses.kinds
  refine ⟨hmatch.levels, fun m key => ?_, fun m start stop order => ?_⟩
  · obtain ⟨m', r, hget, hr⟩ := hreads.get m key ses.layers
    refine ⟨_, m', by rw [exec_get, hget]; rfl, ?_⟩
    rw [hmatch.view_eq] at hr
    rcases hr with rfl | ⟨-, hout⟩
    · exact .inl rfl
    · exact .inr hout
  · obtain ⟨m', r, hrange, hr⟩ := hreads.range m start stop order ses.layers
    rw [hmatch.view_eq] at hr
    rw [exec_bind, exec_range, hrange]
    rcases hr with ⟨it, rfl, hit⟩ | ⟨rfl, hout⟩
    · obtain ⟨m₂, rs, hcollect, hrs⟩ := collectItems_cases it.tail it.items m'
      refine ⟨rs.mapError fromGas, m₂, ?_, ?_⟩
      · simp only [Option.map_some, liftRes, Except.mapError, Option.bind_some, andThen,
          exec_collect, GasIter.collect, hcollect]
      · rcases hrs with rfl | ⟨-, hout⟩
        · refine .inl ?_
          rw [← hit]
          rfl
        · exact .inr hout
    · exact ⟨_, m', rfl, .inr hout⟩

end Shows

/-- **Overlays are flat maps.** A program of nested caches over a store ends in
the maps that it makes of plain ones, and reads there what they hold, if and
only if no key the store does not take is written to the store. -/
theorem overlay_refines_flat (B : BaseStore) (s : B.State) (cmds : List TxCmd) {m : GasMeter}
    (hm : ¬ Exhausted m) {flat : FlatStack}
    (hflat : flatRun cmds ([], B.view s) = some flat) :
    (∃ ses, runTx B.obj cmds ⟨[], s⟩ m = some (ses, m) ∧ Shows B ses flat) ↔
      ∀ key ∈ baseKeys cmds [], B.takes key = true := by
  have hstart : Matches B.view [] s ([], B.view s) [] := rfl
  rcases run_matches (writesAs_base B) hm hstart hflat with
    ⟨hkeys, ses, ts, hrun, hmatch⟩ | ⟨⟨key, hkey, hbad⟩, hnone⟩
  · exact ⟨fun _ => hkeys, fun _ => ⟨ses, hrun, hmatch.shows⟩⟩
  · constructor
    · rintro ⟨ses, hrun, -⟩
      rw [hnone] at hrun
      cases hrun
    · intro hkeys
      rw [hkeys key hkey] at hbad
      cases hbad

/-- A removal in a cache inside a cache, committed twice. -/
def sampleTx : List TxCmd :=
  [.start .subTx, .write [1] (.set [7]), .start .weakSubTx, .write [2] .delete, .commit, .commit]

theorem overlay_refines_flat_sample : ∃ ses flat,
    flatRun sampleTx ([], Writer.view ⟨∅, ∅, .new []⟩) = some flat ∧
      runTx (BaseStore.writer .rock).obj sampleTx ⟨[], ⟨∅, ∅, .new []⟩⟩ .infinite =
        some (ses, .infinite) ∧ Shows (.writer .rock) ses flat := by
  have hm : ¬ Exhausted .infinite := by unfold Exhausted; decide
  obtain ⟨flat, hflat⟩ : ∃ flat,
      flatRun sampleTx ([], (BaseStore.writer .rock).view ⟨∅, ∅, .new []⟩) = some flat := ⟨_, rfl⟩
  obtain ⟨ses, hrun, hshows⟩ :=
    (overlay_refines_flat (.writer .rock) ⟨∅, ∅, .new []⟩ sampleTx hm hflat).mpr (by decide)
  exact ⟨ses, flat, hflat, hrun, hshows⟩

/-- The empty key, committed to the RocksDB writer. -/
def emptyKeyTx : List TxCmd := [.start .subTx, .write [] (.set [7]), .commit]

theorem emptyKeyTx_panics :
    (flatRun emptyKeyTx ([], Writer.view ⟨∅, ∅, .new []⟩)).isSome = true ∧
      runTx (BaseStore.writer .rock).obj emptyKeyTx ⟨[], ⟨∅, ∅, .new []⟩⟩ .infinite = none := by
  refine ⟨rfl, ?_⟩
  decide +kernel

end LayerSdk
