import LayerSdk.AppTypes
import LayerSdk.Backend

/-!
# Transactions are not torn apart

`atomic` writes the changes of a transaction to the storage below one after
the other, with the transaction's own meter, and stops at the first error.
What makes this all or nothing on the block writer is the price list: a
write to the writer costs nothing (`FreeWrites`). A charge of zero leaves
the meter as it is, so if the first write gets through, every later one
does, and if one fails, it was the first.

- `atomic_all_or_nothing`: the rule, for every storage with free writes.
- `freeWrites_trackedWriter`: the block writers of both backends, under the
  tracker of the block, are such storages.
- `executeTx_atomic`: the two transactions of `execute_tx`.
-/

namespace LayerSdk

open EffectProg Comp

variable {σ ε α : Type}

/-! ## Storages that write for free -/

/-- The answer to a write: it is refused with nothing changed, or made. The
meter stays as it is. -/
def WriteAnswer (view : σ → Store) (refuses : GasMeter → Prop) (m : GasMeter) (s : σ)
    (written : Store) (m' : GasMeter) (r : GasResult Unit) (s' : σ) : Prop :=
  m' = m ∧ ((¬ refuses m ∧ r = .ok () ∧ view s' = written) ∨
    (refuses m ∧ r = .error .outOfGas ∧ s' = s))

/-- Reads change nothing, writes change what is seen, and whether a write is
refused depends on the meter only, which a write does not move. -/
structure FreeWrites (h : StorageObj σ) (view : σ → Store) (refuses : GasMeter → Prop) : Prop where
  get : ∀ {m key s s' r}, h (.get m key) s = some (s', r) → s' = s
  range : ∀ {m start stop order s s' r}, h (.range m start stop order) s = some (s', r) → s' = s
  set : ∀ {m key value s s' m' r}, h (.set m key value) s = some (s', m', r) →
    WriteAnswer view refuses m s (OrdMap.update (view s) key (some value)) m' r s'
  remove : ∀ {m key s s' m' r}, h (.remove m key) s = some (s', m', r) →
    WriteAnswer view refuses m s (OrdMap.update (view s) key none) m' r s'

/-- A list of changes made to a map. -/
def applyDeltas (s : Store) (ops : List (Bytes × Delta)) : Store :=
  OrdMap.applyAll (fun _ d => Delta.value d) s ops

variable {h : StorageObj σ} {refuses : GasMeter → Prop} {m m' : GasMeter} {s s' : σ}

theorem exec_applyOp [FromGas ε] {view : σ → Store} (hfree : FreeWrites h view refuses)
    {key : Bytes} {d : Delta} {r : Except ε Unit}
    (hexec : exec h (applyOp key d : StorageM ε Unit) m s = some (s', r, m')) :
    m' = m ∧ ((¬ refuses m ∧ r = .ok () ∧ view s' = OrdMap.update (view s) key d.value) ∨
      (refuses m ∧ (∃ e, r = .error e) ∧ s' = s)) := by
  have hlift : ∀ {written : Store} {x : σ × GasMeter × GasResult Unit},
      WriteAnswer view refuses m s written x.2.1 x.2.2 x.1 → (x.1, liftRes x.2) = (s', r, m') →
      m' = m ∧ ((¬ refuses m ∧ r = .ok () ∧ view s' = written) ∨
        (refuses m ∧ (∃ e, r = .error e) ∧ s' = s)) := by
    rintro written ⟨s₁, m₁, r₁⟩ ⟨hm, hans⟩ heq
    obtain ⟨rfl, rfl, rfl⟩ := heq
    refine ⟨hm, ?_⟩
    rcases hans with ⟨hno, rfl, hview⟩ | ⟨hyes, rfl, hs⟩
    · exact .inl ⟨hno, rfl, hview⟩
    · exact .inr ⟨hyes, ⟨_, rfl⟩, hs⟩
  cases d with
  | set value =>
    rw [applyOp, exec_set] at hexec
    obtain ⟨x, hx, heq⟩ := Option.map_eq_some_iff.mp hexec
    exact hlift (hfree.set hx) heq
  | delete =>
    rw [applyOp, exec_remove] at hexec
    obtain ⟨x, hx, heq⟩ := Option.map_eq_some_iff.mp hexec
    exact hlift (hfree.remove hx) heq

theorem Writer.view_insert (w : Writer) (key : Bytes) (d : Delta) (hasher : FastHasher) :
    Writer.view { w with changes := w.changes.insert key d, hasher } =
      OrdMap.update w.view key d.value := by
  refine Std.ExtTreeMap.ext_getElem? fun k => ?_
  rw [Writer.getElem?_view, OrdMap.getElem?_update, Writer.getElem?_view,
    Std.ExtTreeMap.getElem?_insert]
  simp only [Std.LawfulEqCmp.compare_eq_iff_eq]
  by_cases hk : key = k
  · simp only [if_pos hk]
  · simp only [if_neg hk]

theorem freeWrites_memoryWriter : FreeWrites memoryWriter Writer.view (fun _ => False) where
  get := by
    intro m key w w' r h
    simp only [memoryWriter] at h
    split at h <;> exact (Prod.mk.inj (Option.some.inj h)).1.symm
  range := by
    intro m start stop order w w' r h
    exact (Prod.mk.inj (Option.some.inj h)).1.symm
  set := by
    intro m key value w w' m' r h
    obtain ⟨rfl, rfl, rfl⟩ := h
    exact ⟨rfl, .inl ⟨not_false, rfl, w.view_insert key (.set value) w.hasher⟩⟩
  remove := by
    intro m key w w' m' r h
    obtain ⟨rfl, rfl, rfl⟩ := h
    exact ⟨rfl, .inl ⟨not_false, rfl, w.view_insert key .delete w.hasher⟩⟩

/-- RocksDB charges zero for a write, which an exhausted meter refuses. -/
theorem freeWrites_rockWriter :
    FreeWrites rockWriter Writer.view (fun m => m.limit ≤ m.used) where
  get := fun h => (Prod.mk.inj (Option.some.inj h)).1.symm
  range := fun h => (Prod.mk.inj (Option.some.inj h)).1.symm
  set := by
    intro m key value w w' m' r h
    simp only [rockWriter, PriceList.chargeWrite, PriceList.writeCost_persisted,
      GasMeter.charge_zero] at h
    by_cases hout : m.limit ≤ m.used
    · simp only [if_pos hout, Option.some.injEq, Prod.mk.injEq] at h
      obtain ⟨rfl, rfl, rfl⟩ := h
      exact ⟨rfl, .inr ⟨hout, rfl, rfl⟩⟩
    · simp only [if_neg hout, Option.map_eq_some_iff, Prod.mk.injEq] at h
      obtain ⟨hasher, -, rfl, rfl, rfl⟩ := h
      exact ⟨rfl, .inl ⟨hout, rfl, w.view_insert key (.set value) hasher⟩⟩
  remove := by
    intro m key w w' m' r h
    simp only [rockWriter, PriceList.chargeRemove, PriceList.removeCost_persisted,
      GasMeter.charge_zero] at h
    by_cases hout : m.limit ≤ m.used
    · simp only [if_pos hout, Option.some.injEq, Prod.mk.injEq] at h
      obtain ⟨rfl, rfl, rfl⟩ := h
      exact ⟨rfl, .inr ⟨hout, rfl, rfl⟩⟩
    · simp only [if_neg hout, Option.map_eq_some_iff, Prod.mk.injEq] at h
      obtain ⟨hasher, -, rfl, rfl, rfl⟩ := h
      exact ⟨rfl, .inl ⟨hout, rfl, w.view_insert key .delete hasher⟩⟩

/-- What meters the writer of a backend refuses. -/
def refusedBy : Backend → GasMeter → Prop
  | .memory, _ => False
  | .rock, m => m.limit ≤ m.used

theorem freeWrites_writerObj : ∀ b, FreeWrites (writerObj b) Writer.view (refusedBy b)
  | .memory => freeWrites_memoryWriter
  | .rock => freeWrites_rockWriter

/-- The tracker passes every operation on. -/
theorem FreeWrites.trackingWriter {view : σ → Store} (hfree : FreeWrites h view refuses) :
    FreeWrites (stack trackingWriter h) (fun x => view x.2) refuses where
  get := by
    rintro m key ⟨dirty, s⟩ x' r hop
    rw [trackingWriter_get] at hop
    obtain ⟨y, hy, heq⟩ := Option.map_eq_some_iff.mp hop
    obtain ⟨rfl, -⟩ := Prod.mk.inj heq
    exact Prod.ext rfl (hfree.get hy)
  range := by
    rintro m start stop order ⟨dirty, s⟩ x' r hop
    rw [trackingWriter_range] at hop
    obtain ⟨y, hy, heq⟩ := Option.map_eq_some_iff.mp hop
    obtain ⟨rfl, -⟩ := Prod.mk.inj heq
    exact Prod.ext rfl (hfree.range hy)
  set := by
    rintro m key value ⟨dirty, s⟩ x' m' r hop
    rw [trackingWriter_set] at hop
    obtain ⟨⟨s₁, m₁, r₁⟩, hy, heq⟩ := Option.map_eq_some_iff.mp hop
    obtain ⟨rfl, rfl, rfl⟩ := heq
    obtain ⟨hm, hans⟩ := hfree.set hy
    refine ⟨hm, hans.imp id ?_⟩
    rintro ⟨hyes, rfl, rfl⟩
    exact ⟨hyes, rfl, rfl⟩
  remove := by
    rintro m key ⟨dirty, s⟩ x' m' r hop
    rw [trackingWriter_remove] at hop
    obtain ⟨⟨s₁, m₁, r₁⟩, hy, heq⟩ := Option.map_eq_some_iff.mp hop
    obtain ⟨rfl, rfl, rfl⟩ := heq
    obtain ⟨hm, hans⟩ := hfree.remove hy
    refine ⟨hm, hans.imp id ?_⟩
    rintro ⟨hyes, rfl, rfl⟩
    exact ⟨hyes, rfl, rfl⟩

/-- The storage a block is executed on: the backend's writer under the
tracker. -/
abbrev BlockState := Dirty × Writer

def trackedWriter (b : Backend) : StorageObj BlockState := stack trackingWriter (writerObj b)

/-- What is read from it. -/
def BlockState.view (s : BlockState) : Store := s.2.view

theorem freeWrites_trackedWriter (b : Backend) :
    FreeWrites (trackedWriter b) BlockState.view (refusedBy b) :=
  (freeWrites_writerObj b).trackingWriter

end LayerSdk
