import LayerSdk.Sha256Eval
import LayerSdk.App
import LayerSdk.FastHash

/-!
# The incremental state root

`finalize_block` never scans the state: it merges the block's writes into an
index kept in memory. Here the index is shown to be an index of the committed
consensus entries after any run of the application, and the root that a
block returns and stores to be the root of a full scan of the store it left
behind.

The argument has three parts. A block's storage keeps, along every program
that runs on it, a record of how what is read differs from the committed
store (`BlockInv`). A commit changes the committed store to what was read,
or changes nothing (`commit_cases`). And each operation either keeps the
consensus entries, folds the block's writes into the index, or drops the
index (`keepsIndex`, one lemma per operation).
-/

namespace LayerSdk

open EffectProg Comp FailState

/-! ## Equal consensus entries -/

/-- The two stores differ in sidecar entries at most. -/
def SameConsensus (a b : Store) : Prop := ∀ k, isSidecar k = false → a[k]? = b[k]?

theorem SameConsensus.refl (a : Store) : SameConsensus a a := fun _ _ => rfl

variable {a b data : Store} {H : Bytes → Digest} {w w' : Writer} {m m' : GasMeter}

theorem SameConsensus.trans {d : Store} (h : SameConsensus a b) (h' : SameConsensus b d) :
    SameConsensus a d := fun k hk => (h k hk).trans (h' k hk)

theorem SameConsensus.scanEntries_eq (h : SameConsensus a b) : scanEntries a = scanEntries b := by
  refine (ascending_scanEntries a).eq_of_mem_iff (ascending_scanEntries b) fun e => ?_
  rw [getElem?_scanEntries, getElem?_scanEntries]
  refine and_congr_right fun hk => ?_
  rw [h e.1 hk]

theorem SameConsensus.stateRoot_eq (h : SameConsensus a b) : stateRoot H a = stateRoot H b := by
  rw [stateRoot, stateRoot, h.scanEntries_eq]

theorem LeafIndex.congr {index : RootIndex} (h : LeafIndex H index a) (hsame : SameConsensus a b) :
    LeafIndex H index b := by
  intro k
  rw [h k]
  by_cases hk : isSidecar k = true
  · rw [if_pos hk, if_pos hk]
  · rw [if_neg hk, if_neg hk, hsame k (by simpa using hk)]

/-! ## What runs on a writer -/

theorem writerObj_committed {b : Backend} {op : StorageOp} {r : op.Res}
    (h : writerObj b op w = some (w', r)) : w'.committed = w.committed := by
  cases op with
  | get m key => rw [(freeWrites_writerObj b).get h]
  | range m start stop order => rw [(freeWrites_writerObj b).range h]
  | set m key value | remove m key =>
    cases b with
    | memory =>
      cases h
      rfl
    | rock =>
      simp only [writerObj, rockWriter] at h
      split at h
      · cases h
        rfl
      · obtain ⟨hasher, -, heq⟩ := Option.map_eq_some_iff.mp h
        obtain ⟨rfl, -⟩ := Prod.mk.inj heq
        rfl

theorem exec_writerObj_committed {ε α : Type} {b : Backend} {p : StorageM ε α} {r : Except ε α}
    (h : exec (writerObj b) p m w = some (w', r, m')) : w'.committed = w.committed :=
  run_invariant (fun x => x.committed = w.committed)
    (fun _ _ _ _ hop hx => (writerObj_committed hop).trans hx) _ h rfl

/-- The block's storage is over `data`, and the tracker knows the difference. -/
structure BlockInv (data : Store) (s : BlockState) : Prop where
  committed : s.2.committed = data
  tracks : Tracks s.1 data (BlockState.view s)

theorem Tracks.update {dirty : Dirty} {view : Store} (h : Tracks dirty data view) (key : Bytes)
    (op : Option Bytes) :
    Tracks (track dirty key op (.ok ())) data (OrdMap.update view key op) where
  consensus k hk := by
    rw [OrdMap.getElem?_update, track]
    by_cases hkey : key = k
    · subst hkey
      rw [if_pos rfl, hk, if_neg (by simp), Std.ExtTreeMap.getElem?_insert_self]
      rfl
    · rw [if_neg hkey, h.consensus k hk]
      split
      · rfl
      · rw [Std.ExtTreeMap.getElem?_insert, if_neg (by simpa using hkey)]
  sidecar k hk := by
    rw [track]
    split
    · exact h.sidecar k hk
    · rename_i hside
      have hkey : key ≠ k := by
        rintro rfl
        exact hside hk
      rw [Std.ExtTreeMap.getElem?_insert, if_neg (by simpa using hkey), h.sidecar k hk]

/-- One write on the tracked writer, made or refused. -/
theorem BlockInv.write {dirty : Dirty} (h : BlockInv data (dirty, w)) {refuses : GasMeter → Prop}
    {key : Bytes} {op : Option Bytes} {r : GasResult Unit} (hcomm : w'.committed = w.committed)
    (hans : WriteAnswer Writer.view refuses m w (OrdMap.update w.view key op) m' r w') :
    BlockInv data (track dirty key op r, w') := by
  obtain ⟨-, ⟨-, rfl, hview⟩ | ⟨-, rfl, rfl⟩⟩ := hans
  · refine ⟨hcomm.trans h.committed, ?_⟩
    have htr := h.tracks.update key op
    rw [BlockState.view, ← hview] at htr
    exact htr
  · exact h

theorem BlockInv.step {b : Backend} {op : StorageOp} {s s' : BlockState} {r : op.Res}
    (hop : trackedWriter b op s = some (s', r)) (h : BlockInv data s) : BlockInv data s' := by
  obtain ⟨dirty, w⟩ := s
  cases op with
  | get m key =>
    rw [(freeWrites_trackedWriter b).get hop]
    exact h
  | range m start stop order =>
    rw [(freeWrites_trackedWriter b).range hop]
    exact h
  | set m key value =>
    rw [trackedWriter, trackingWriter_set] at hop
    obtain ⟨⟨w₁, m₁, r₁⟩, hw, heq⟩ := Option.map_eq_some_iff.mp hop
    cases heq
    exact h.write (writerObj_committed hw) ((freeWrites_writerObj b).set hw)
  | remove m key =>
    rw [trackedWriter, trackingWriter_remove] at hop
    obtain ⟨⟨w₁, m₁, r₁⟩, hw, heq⟩ := Option.map_eq_some_iff.mp hop
    cases heq
    exact h.write (writerObj_committed hw) ((freeWrites_writerObj b).remove hw)

/-- Every program on the block's storage keeps the record. -/
theorem BlockInv.exec {ε α : Type} {b : Backend} {p : StorageM ε α} {s s' : BlockState}
    {r : Except ε α} (hexec : Comp.exec (trackedWriter b) p m s = some (s', r, m'))
    (h : BlockInv data s) : BlockInv data s' :=
  run_invariant (BlockInv data) (fun _ _ _ _ hop hs => hs.step hop) _ hexec h

theorem Persistent.view_writer (p : Persistent) : p.writer.view = p.data := by
  refine Std.ExtTreeMap.ext_getElem? fun k => ?_
  rw [Writer.getElem?_view]
  simp [Persistent.writer]

theorem BlockInv.start (p : Persistent) : BlockInv p.data (∅, p.writer) := by
  refine ⟨rfl, ?_⟩
  rw [BlockState.view, p.view_writer]
  exact Tracks.empty p.data

/-! ## Commits -/

/-- On a meter that is not exhausted every change is made, unless the hasher panics. -/
theorem memoryCommitOps_live (hm : m.used < m.limit) (ops : List (Bytes × Delta)) (f : FastHasher)
    (s : Store) : memoryCommitOps ops m f s =
      (ops.foldlM FastHasher.apply f).map fun f' => (applyDeltas s ops, m, .ok f') := by
  induction ops generalizing f s with
  | nil => rfl
  | cons op rest ih =>
    obtain ⟨key, value | -⟩ := op
    all_goals
      simp only [memoryCommitOps, PriceList.chargeWrite, PriceList.writeCost_persisted,
        PriceList.chargeRemove, PriceList.removeCost_persisted, GasMeter.charge_zero,
        if_neg (Nat.not_le.mpr hm), List.foldlM_cons, FastHasher.apply]
    · cases f.set key value with
      | none => rfl
      | some f' => exact ih f' _
    · cases f.remove key with
      | none => rfl
      | some f' => exact ih f' _

theorem memoryCommitOps_cases {ops : List (Bytes × Delta)} {f : FastHasher} {s s' : Store}
    {r : GasResult FastHasher} (h : memoryCommitOps ops m f s = some (s', m', r)) :
    (∃ f', r = .ok f' ∧ s' = applyDeltas s ops) ∨ ∃ e, r = .error e ∧ s' = s := by
  by_cases hm : m.used < m.limit
  · rw [memoryCommitOps_live hm] at h
    obtain ⟨f', -, heq⟩ := Option.map_eq_some_iff.mp h
    cases heq
    exact .inl ⟨f', rfl, rfl⟩
  cases ops with
  | nil =>
    cases h
    exact .inl ⟨f, rfl, rfl⟩
  | cons op rest =>
    -- the meter refuses the first operation
    obtain ⟨key, value | -⟩ := op
    all_goals
      simp only [memoryCommitOps, PriceList.chargeWrite, PriceList.writeCost_persisted,
        PriceList.chargeRemove, PriceList.removeCost_persisted, GasMeter.charge_zero,
        if_pos (Nat.not_lt.mp hm)] at h
      split at h
      · cases h
      · cases h
        exact .inr ⟨_, rfl, rfl⟩

/-- A commit brings the committed store to what the writer shows, or fails and
changes nothing. -/
theorem commit_cases {p p' : Persistent} {r : GasResult Unit} (hw : w.committed = p.data)
    (h : p.commit H w m = some (p', m', r)) :
    (r = .ok () ∧ (∀ k, k ≠ appHashKey → p'.data[k]? = w.view[k]?)) ∨
      (∃ e, r = .error e ∧ p'.data = p.data) := by
  unfold Persistent.commit at h
  split at h
  · obtain ⟨⟨s, m₁, r₁⟩, hops, heq⟩ := Option.map_eq_some_iff.mp h
    rcases memoryCommitOps_cases hops with ⟨f, rfl, rfl⟩ | ⟨e, rfl, rfl⟩
    · obtain ⟨rfl, -, rfl⟩ := heq
      exact .inl ⟨rfl, fun k _ => rfl⟩
    · obtain ⟨rfl, -, rfl⟩ := heq
      exact .inr ⟨e, rfl, hw⟩
  · simp only [Option.some.injEq, Prod.mk.injEq] at h
    obtain ⟨rfl, -, rfl⟩ := h
    refine .inl ⟨rfl, fun k hk => ?_⟩
    rw [Std.ExtTreeMap.getElem?_insert, if_neg (by simpa using hk.symm)]

/-! ## Programs that write only at some keys -/

section Sidecar

variable {σ ε α β : Type} [FromGas ε] [FromStd ε]

/-- `Item::save` writes the text of the value, or fails without a write. -/
theorem exec_save_cases {h : StorageObj σ} {view : σ → Store} {refuses : GasMeter → Prop}
    (hfree : FreeWrites h view refuses) {i : Item α} {x : α} {m m' : GasMeter} {s s' : σ}
    {r : Except ε Unit} (hexec : Comp.exec h (i.save x : StorageM ε Unit) m s = some (s', r, m')) :
    (∃ e, r = .error e ∧ s' = s) ∨ (r = .ok () ∧ ∃ bz, i.codec.toJsonVec x = .ok bz ∧
      view s' = OrdMap.update (view s) i.key (some bz)) := by
  rw [Item.save, exec_bind] at hexec
  cases hjson : i.codec.toJsonVec x with
  | error e =>
    rw [hjson] at hexec
    have hthrow : Comp.exec h (throw (fromStd e) : StorageM ε Unit) m s = some (s', r, m') := hexec
    obtain ⟨rfl, rfl, -⟩ := exec_throw_cases hthrow
    exact .inl ⟨_, rfl, rfl⟩
  | ok bz =>
    rw [hjson] at hexec
    have hset : Comp.exec h (applyOp i.key (.set bz) : StorageM ε Unit) m s =
        some (s', r, m') := hexec
    obtain ⟨-, ⟨-, rfl, hview⟩ | ⟨-, ⟨e, rfl⟩, rfl⟩⟩ := exec_applyOp hfree hset
    · exact .inr ⟨rfl, bz, rfl, hview⟩
    · exact .inl ⟨e, rfl, rfl⟩

/-- The program writes only at keys in `K`: run on a writer, it leaves every
other entry as it is. -/
def WritesOnly (K : Bytes → Prop) (p : StorageM ε α) : Prop :=
  ∀ ⦃b : Backend⦄ ⦃m m' : GasMeter⦄ ⦃w w' : Writer⦄ ⦃r : Except ε α⦄,
    Comp.exec (writerObj b) p m w = some (w', r, m') → ∀ k, ¬ K k → w'.view[k]? = w.view[k]?

variable {K : Bytes → Prop}

omit [FromGas ε] [FromStd ε] in
theorem WritesOnly.pure (x : α) : WritesOnly K (pure x : StorageM ε α) := by
  intro b m m' w w' r h k _
  obtain ⟨rfl, -, -⟩ := exec_pure_cases h
  rfl

omit [FromGas ε] [FromStd ε] in
theorem WritesOnly.bind {p : StorageM ε α} {f : α → StorageM ε β} (hp : WritesOnly K p)
    (hf : ∀ x, WritesOnly K (f x)) : WritesOnly K (p >>= f) := by
  intro b m m' w w' r h k hk
  rcases Comp.exec_bind_cases h with ⟨w₁, x, m₁, hfirst, hrest⟩ | ⟨e, hfirst, -⟩
  · exact (hf x hrest k hk).trans (hp hfirst k hk)
  · exact hp hfirst k hk

theorem getElem?_update_of_not {s : Store} {key : Bytes} (hkey : K key) (op : Option Bytes)
    {k : Bytes} (hk : ¬ K k) : (OrdMap.update s key op)[k]? = s[k]? := by
  rw [OrdMap.getElem?_update, if_neg]
  rintro rfl
  exact hk hkey

theorem WritesOnly.save {i : Item α} (hkey : K i.key) (x : α) :
    WritesOnly K (i.save x : StorageM ε Unit) := by
  intro b m m' w w' r h k hk
  rcases exec_save_cases (freeWrites_writerObj b) h with ⟨e, -, rfl⟩ | ⟨-, bz, -, hview⟩
  · rfl
  · rw [hview]
    exact getElem?_update_of_not hkey _ hk

omit [FromStd ε] in
theorem WritesOnly.remove {i : Item α} (hkey : K i.key) :
    WritesOnly K (i.remove : StorageM ε Unit) := by
  intro b m m' w w' r h k hk
  have hop : Comp.exec (writerObj b) (applyOp i.key .delete : StorageM ε Unit) m w =
      some (w', r, m') := h
  obtain ⟨-, ⟨-, -, hview⟩ | ⟨-, -, rfl⟩⟩ := exec_applyOp (freeWrites_writerObj b) hop
  · rw [hview]
    exact getElem?_update_of_not hkey _ hk
  · rfl

end Sidecar

theorem WritesOnly.removeRecords {K : Bytes → Prop} : ∀ {items : List (Item Bytes)},
    (∀ i ∈ items, K i.key) → WritesOnly K (removeRecords items)
  | [], _ => WritesOnly.pure 0
  | i :: _, h =>
    (WritesOnly.remove (h i (List.mem_cons_self))).bind fun _ =>
      (WritesOnly.removeRecords fun j hj => h j (List.mem_cons_of_mem _ hj)).bind fun n =>
        WritesOnly.pure (n + 1)

/-- The keys of the records beside the consensus state, without the state root
itself. -/
def IsRecord (k : Bytes) : Prop := isSidecar k = true ∧ k ≠ str "_state_root"

/-! ## The operations keep the index -/

section Operations

variable {H : Bytes → Digest} {c : AppCodecs} {α : Type}

/-- The index, when there is one, is an index of the committed store. -/
def IndexInv (H : Bytes → Digest) (a : App) : Prop :=
  ∀ index, a.rootIndex = some index → LeafIndex H index a.storage.data

variable {a a' : App} {m : GasMeter} {r : Except PulsarError α} {p : StorageM PulsarError α}

theorem IndexInv.of_same (h : IndexInv H a) (hindex : a'.rootIndex = a.rootIndex)
    (hsame : SameConsensus a'.storage.data a.storage.data) : IndexInv H a' := by
  intro index hsome
  rw [hindex] at hsome
  exact (h index hsome).congr fun k hk => (hsame k hk).symm

theorem IndexInv.of_none (h : a.rootIndex = none) : IndexInv H a := by
  intro index hsome
  rw [h] at hsome
  cases hsome

theorem sidecar_appHashKey : isSidecar appHashKey = true := by decide

theorem exec_commitWriter {w : Writer} {x : α} (hw : w.committed = a.storage.data)
    (h : FailState.exec (commitWriter H w m x) a = some (r, a')) :
    (a'.rootIndex = a.rootIndex ∧ a'.data = a.data) ∧
      ((∃ e, r = .error e ∧ a'.storage.data = a.storage.data) ∨
        (r = .ok x ∧ ∀ k, k ≠ appHashKey → a'.storage.data[k]? = w.view[k]?)) := by
  obtain ⟨⟨storage, m', rc⟩, hcommit, heq⟩ := Option.map_eq_some_iff.mp h
  obtain ⟨rfl, rfl⟩ := heq
  refine ⟨⟨rfl, rfl⟩, ?_⟩
  rcases commit_cases hw hcommit with ⟨rfl, hview⟩ | ⟨e, rfl, hdata⟩
  · exact .inr ⟨rfl, hview⟩
  · exact .inl ⟨_, rfl, hdata⟩

/-- What a writer leaves: nothing but the writes of the program, all of them or
none. -/
theorem withWriter_cases (h : FailState.exec (withWriter H p) a = some (r, a')) :
    (a'.rootIndex = a.rootIndex ∧ a'.data = a.data) ∧
      ((∃ e, r = .error e ∧ a'.storage.data = a.storage.data) ∨
        ∃ x w m, r = .ok x ∧
          Comp.exec (writerObj a.storage.backend) p .infinite a.storage.writer =
            some (w, .ok x, m) ∧
          ∀ k, k ≠ appHashKey → a'.storage.data[k]? = w.view[k]?) := by
  rw [withWriter, FailState.exec_ofFun] at h
  split at h
  · cases h
  · cases h
    exact ⟨⟨rfl, rfl⟩, .inl ⟨_, rfl, rfl⟩⟩
  · rename_i w x m hrun
    have hw : w.committed = a.storage.data := exec_writerObj_committed hrun
    obtain ⟨hkeep, hfail | ⟨hr, hview⟩⟩ := exec_commitWriter hw h
    · exact ⟨hkeep, .inl hfail⟩
    · exact ⟨hkeep, .inr ⟨x, w, m, hr, hrun, hview⟩⟩

theorem sameConsensus_of_ne_appHashKey {s t : Store}
    (h : ∀ k, k ≠ appHashKey → s[k]? = t[k]?) : SameConsensus s t := by
  intro k hk
  refine h k ?_
  rintro rfl
  rw [sidecar_appHashKey] at hk
  cases hk

theorem withWriter_writesOnly {K : Bytes → Prop} (hp : WritesOnly K p) (hK : K appHashKey)
    (h : FailState.exec (withWriter H p) a = some (r, a')) :
    (a'.rootIndex = a.rootIndex ∧ a'.data = a.data) ∧
      ∀ k, ¬ K k → a'.storage.data[k]? = a.storage.data[k]? := by
  obtain ⟨hkeep, ⟨e, -, hdata⟩ | ⟨x, w, m, -, hrun, hview⟩⟩ := withWriter_cases h
  · exact ⟨hkeep, fun k _ => by rw [hdata]⟩
  · refine ⟨hkeep, fun k hk => ?_⟩
    rw [hview k fun heq => hk (heq ▸ hK), hp hrun k hk, a.storage.view_writer]

/-- The operations on records beside the consensus state. -/
theorem withWriter_sidecar (hp : WritesOnly (fun k => isSidecar k = true) p)
    (h : FailState.exec (withWriter H p) a = some (r, a')) :
    a'.rootIndex = a.rootIndex ∧ SameConsensus a'.storage.data a.storage.data := by
  obtain ⟨⟨hindex, -⟩, hsame⟩ := withWriter_writesOnly hp sidecar_appHashKey h
  exact ⟨hindex, fun k hk => hsame k (by simp [hk])⟩

/-- An index that is there is kept; a missing one is built, or the scan fails. -/
theorem exec_ensureRootIndex {r : Except PulsarError Unit}
    (h : FailState.exec (ensureRootIndex H) a = some (r, a')) :
    (r = .ok () ∧ ∃ index, a' = { a with rootIndex := some index } ∧
      (IndexInv H a → LeafIndex H index a.storage.data)) ∨ (∃ e, r = .error e) ∧ a' = a := by
  have htriple : Triple (fun x => x = a) (ensureRootIndex H)
      (fun _ x => ∃ index, x = { a with rootIndex := some index } ∧
        (IndexInv H a → LeafIndex H index a.storage.data)) (fun _ x => x = a) := by
    refine Triple.bind_get fun a₀ => ?_
    refine Triple.ite (fun _ => ?_) fun hsome => Triple.pure ?_
    · refine Triple.bind (Q := fun entries x => x = a ∧ entries = scanEntries x.storage.data) ?_
        fun entries => Triple.modify ?_
      · refine Triple.ofFun fun b b' r ⟨h, _⟩ hread => ?_
        obtain ⟨⟨data', res, m'⟩, hscan, heq⟩ := Option.map_eq_some_iff.mp hread
        cases heq
        cases res with
        | error e => exact h
        | ok entries => exact ⟨h, (exec_scan_ok hscan).2⟩
      · rintro x ⟨rfl, rfl⟩
        exact ⟨_, rfl, fun _ => leafIndex_buildIndex _⟩
    · rintro x ⟨rfl, rfl⟩
      obtain ⟨index, hindex⟩ := Option.ne_none_iff_exists'.mp (mt Option.isNone_iff_eq_none.mpr hsome)
      exact ⟨index, by rw [← hindex], fun hinv => hinv index hindex⟩
  cases r with
  | ok u => exact .inl ⟨rfl, htriple rfl h⟩
  | error e => exact .inr ⟨⟨e, rfl⟩, htriple rfl h⟩

theorem exec_ensureRootIndex_some {index : RootIndex} (h : a.rootIndex = some index) :
    FailState.exec (ensureRootIndex H) a = some (.ok (), a) := by
  change FailState.exec (if a.rootIndex.isNone then rebuildRootIndex H else pure ()) a = _
  rw [h]
  rfl

theorem keepsIndex_ensureRootIndex (F : Persistent → Prop) :
    Triple (fun a => IndexInv H a ∧ F a.storage) (ensureRootIndex H)
      (fun _ a => IndexInv H a ∧ F a.storage) (fun _ a => IndexInv H a ∧ F a.storage) := by
  rintro a a' r ⟨hinv, hF⟩ hexec
  obtain ⟨rfl, index, rfl, hindex⟩ | ⟨⟨e, rfl⟩, rfl⟩ := exec_ensureRootIndex hexec
  · refine ⟨fun _ hsome => ?_, hF⟩
    cases hsome
    exact hindex hinv
  · exact ⟨hinv, hF⟩

/-- Committing a block: the committed store becomes what the block's storage
shows, and the index follows. -/
theorem exec_commitBlock {commit : Bool} {block : BlockInfo} {s : BlockState}
    {r : Except PulsarError Unit} (hinv : IndexInv H a) (hblock : BlockInv a.storage.data s)
    (h : FailState.exec (commitBlock H commit block s m) a = some (r, a')) :
    IndexInv H a' ∧ (commit = true → r = .ok () →
        ∀ k, k ≠ appHashKey → a'.storage.data[k]? = (BlockState.view s)[k]?) ∧
      (¬ (commit = true ∧ r = .ok ()) → a'.storage.data = a.storage.data) := by
  cases commit with
  | false =>
    cases h
    exact ⟨hinv, fun hc => Bool.noConfusion hc, fun _ => rfl⟩
  | true =>
    rcases FailState.exec_bind_cases h with ⟨u, a₁, hcommit, hclose⟩ | ⟨e, hcommit, rfl⟩
    · obtain ⟨⟨hindex, -⟩, ⟨e, he, -⟩ | ⟨-, hview⟩⟩ := exec_commitWriter hblock.committed hcommit
      · cases he
      cases hclose
      refine ⟨?_, fun _ _ => hview, fun hno => absurd ⟨rfl, rfl⟩ hno⟩
      intro index hsome
      obtain ⟨old, hold, rfl⟩ := Option.map_eq_some_iff.mp hsome
      rw [hindex] at hold
      have hfold := (hinv old hold).foldDirty hblock.tracks
      exact hfold.congr fun k hk => (sameConsensus_of_ne_appHashKey hview k hk).symm
    · obtain ⟨⟨hindex, -⟩, ⟨e', -, hdata⟩ | ⟨hr, -⟩⟩ := exec_commitWriter hblock.committed hcommit
      · refine ⟨hinv.of_same hindex ?_, fun _ hr => (nomatch hr), fun _ => hdata⟩
        rw [hdata]
        exact SameConsensus.refl _
      · cases hr

theorem stateRootItem_ne_appHashKey : c.stateRootItem.key ≠ appHashKey := by
  change str "_state_root" ≠ appHashKey
  decide

/-- The root of the committed store is stored beside it. -/
def StoredRoot (H : Bytes → Digest) (c : AppCodecs) (a : App) : Prop :=
  ∃ bz, c.digest.toJsonVec (stateRoot H a.storage.data) = .ok bz ∧
    a.storage.data[c.stateRootItem.key]? = some bz

/-- Storing the root of what is committed. It changes no consensus entry, and where
it fails no entry at all. -/
theorem triple_storeStateRoot (data : Store) :
    Triple (fun a => IndexInv H a ∧ a.storage.data = data) (storeStateRoot H c)
      (fun _ a => (IndexInv H a ∧ StoredRoot H c a) ∧ SameConsensus a.storage.data data)
      (fun _ a => IndexInv H a ∧ a.storage.data = data) := by
  refine Triple.bind (keepsIndex_ensureRootIndex fun p => p.data = data) fun _ => ?_
  refine Triple.bind_get fun a₀ => Triple.bind_unwrap fun index hindex => ?_
  rintro a a' r ⟨⟨hinv, rfl⟩, rfl⟩ hexec
  have hsave : WritesOnly (fun k => isSidecar k = true) (c.stateRootItem.save
      (rootWithPending H index ∅) : StorageM PulsarError Unit) :=
    WritesOnly.save (K := fun k => isSidecar k = true) rfl _
  obtain ⟨hkeep, hsame⟩ := withWriter_sidecar hsave hexec
  have hinv' : IndexInv H a' := hinv.of_same hkeep hsame
  obtain ⟨-, ⟨e, rfl, hdata⟩ | ⟨x, w, m, rfl, hrun, hview⟩⟩ := withWriter_cases hexec
  · exact ⟨hinv', hdata⟩
  · refine ⟨⟨hinv', ?_⟩, hsame⟩
    have hroot := (hinv index hindex).rootWithPending_eq (Tracks.empty a.storage.data)
    rcases exec_save_cases (freeWrites_writerObj a.storage.backend) hrun with
      ⟨e, he, -⟩ | ⟨-, bz, hjson, hsaved⟩
    · cases he
    rw [StoredRoot, hsame.stateRoot_eq, ← hroot]
    refine ⟨bz, hjson, ?_⟩
    rw [hview _ stateRootItem_ne_appHashKey, hsaved, OrdMap.getElem?_update, if_pos rfl]

theorem storedRoot_storeStateRoot : Triple (IndexInv H) (storeStateRoot H c)
    (fun _ a => IndexInv H a ∧ StoredRoot H c a) (fun _ => IndexInv H) := fun a _ _ hinv hexec =>
  (triple_storeStateRoot a.storage.data).mono (fun _ h => h) (fun _ _ h => h.1)
    (fun _ _ h => h.1) ⟨hinv, rfl⟩ hexec

theorem triple_runTracked {data : Store} {s : BlockState} {P : App → Prop} (hs : BlockInv data s) :
    Triple P (runTracked p s m)
      (fun x a => P a ∧ BlockInv data x.2.1 ∧
        Comp.exec (trackedWriter a.storage.backend) p m s = some (x.2.1, .ok x.1, x.2.2))
      (fun _ => P) := by
  refine Triple.ofFun fun a a' r hP hrun => ?_
  obtain ⟨⟨s', res, m'⟩, hexec, heq⟩ := Option.map_eq_some_iff.mp hrun
  cases heq
  cases res with
  | error e => exact hP
  | ok x => exact ⟨hP, hs.exec hexec, hexec⟩

variable {Tx Msg Data Genesis : Type} {logic : StateMachine Tx Msg Data Genesis}
  {call : AppCall Tx}

theorem keepsIndex_checkBlock {P : App → Prop} {block oldBlock : BlockInfo} :
    Triple P (checkBlock block oldBlock) (fun _ => P) (fun _ => P) :=
  Triple.ite (fun _ => Triple.crash) fun _ =>
    Triple.ite (fun _ => Triple.throw fun _ h => h) fun _ =>
      Triple.ite (fun _ => Triple.throw fun _ h => h) fun _ => Triple.pure fun _ h => h

/-- **One block.** The index is kept; a committed block leaves the consensus entries
that its execution shows, and returns and stores their root; anything else
leaves the entries as they were. -/
theorem triple_finalizeBlock (storage : Persistent) (fullBlock : Block Tx) (payload : Option Bytes)
    (commit : Bool) :
    Triple (fun a => IndexInv H a ∧ a.storage = storage)
      (finalizeBlockImpl H c logic fullBlock payload commit)
      (fun resp a => IndexInv H a ∧ (commit = false → a.storage.data = storage.data) ∧
        (commit = true → (resp.appHash = (stateRoot H a.storage.data).bytes ∧ StoredRoot H c a) ∧
          ∃ block params s m, Comp.exec (trackedWriter storage.backend)
            (runBlock c logic fullBlock block params payload) .infinite (∅, storage.writer) =
              some (s, .ok (resp.events, resp.txResults), m) ∧
            SameConsensus a.storage.data (BlockState.view s)))
      (fun _ a => IndexInv H a ∧ a.storage.data = storage.data) := by
  have hfail (e : PulsarError) (a : App) (h : IndexInv H a ∧ a.storage = storage) :
      IndexInv H a ∧ a.storage.data = storage.data := ⟨h.1, congrArg _ h.2⟩
  refine Triple.bind_get fun a₀ => Triple.bind_unwrap fun data _ => ?_
  refine Triple.bind (keepsIndex_checkBlock.mono (fun a h => h.1) (fun _ _ h => h) hfail) fun _ => ?_
  refine Triple.bind ((keepsIndex_ensureRootIndex (· = storage)).mono (fun _ h => h)
    (fun _ _ h => h) hfail) fun _ => ?_
  refine Triple.bind_get fun a₁ => ?_
  refine Triple.bind ((triple_runTracked (BlockInv.start a₁.storage)).mono (fun a h => h)
    (fun _ _ h => h) fun e a h => hfail e a h.1) fun out => ?_
  refine Triple.bind_unwrap fun index hindex => ?_
  rintro a a' r ⟨⟨⟨hinv, rfl⟩, rfl⟩, hblock, hrun⟩ hexec
  -- the root of the merge is the root of what the block shows
  have hroot := (hinv index hindex).rootWithPending_eq hblock.tracks
  rcases FailState.exec_bind_cases hexec with ⟨⟨u, s', m'⟩, a₁, hsave, hrest⟩ | ⟨e, hsave, rfl⟩
  · have hsaved := triple_runTracked (P := fun x => x = a) hblock rfl hsave
    obtain ⟨rfl, hblock', hrun'⟩ := hsaved
    rcases exec_save_cases (freeWrites_trackedWriter a₁.storage.backend) hrun' with
      ⟨e, he, -⟩ | ⟨-, bz, hjson, hview⟩
    · cases he
    rcases FailState.exec_bind_cases hrest with ⟨v, a₂, hcommit, hdone⟩ | ⟨e, hcommit, rfl⟩
    · obtain ⟨rfl, rfl⟩ := Prod.mk.inj (Option.some.inj hdone)
      obtain ⟨hinv', hdata, hkept⟩ := exec_commitBlock hinv hblock' hcommit
      refine ⟨hinv', fun hc => hkept fun hboth => ?_, fun hc => ?_⟩
      · cases hc.symm.trans hboth.1
      have hdata' := hdata hc rfl
      have hsame : SameConsensus a₂.storage.data (BlockState.view out.2.1) := by
        refine (sameConsensus_of_ne_appHashKey hdata').trans ?_
        rw [hview]
        exact fun k hk => getElem?_update_of_not (K := fun k => isSidecar k = true) rfl _ (by simp [hk])
      refine ⟨?_, _, _, _, _, hrun, hsame⟩
      rw [StoredRoot, hsame.stateRoot_eq, ← hroot]
      refine ⟨rfl, bz, hjson, ?_⟩
      rw [hdata' _ stateRootItem_ne_appHashKey, hview, OrdMap.getElem?_update, if_pos rfl]
    · obtain ⟨hinv', -, hkept⟩ := exec_commitBlock hinv hblock' hcommit
      exact ⟨hinv', hkept fun hboth => nomatch hboth.2⟩
  · exact hfail e _ (triple_runTracked (P := fun x => IndexInv H x ∧ x.storage = a.storage) hblock
      ⟨hinv, rfl⟩ hsave)

theorem triple_finalizeBlockImpl (fullBlock : Block Tx) (payload : Option Bytes) (commit : Bool) :
    Triple (IndexInv H) (finalizeBlockImpl H c logic fullBlock payload commit)
      (fun resp a => IndexInv H a ∧ (commit = true →
        resp.appHash = (stateRoot H a.storage.data).bytes ∧ StoredRoot H c a))
      (fun _ => IndexInv H) := fun a _ _ hinv hexec =>
  (triple_finalizeBlock a.storage fullBlock payload commit).mono (fun _ h => h)
    (fun _ _ h => ⟨h.1, fun hc => (h.2.2 hc).1⟩) (fun _ _ h => h.1) ⟨hinv, rfl⟩ hexec

/-! ## Records beside the consensus state -/

theorem isRecord_append {kind : String} (suffix : String) (h : isSidecar (str kind) = true ∧
    ¬ str kind <+: str "_state_root" := by decide) : IsRecord (str (kind ++ suffix)) := by
  rw [str_append]
  exact ⟨isSidecar_append h.1 _, fun heq => h.2 (heq ▸ List.prefix_append _ _)⟩

theorem isRecord_recordsAt {kinds : String × String}
    (h₁ : ∀ suffix, IsRecord (str (kinds.1 ++ suffix)))
    (h₂ : ∀ suffix, IsRecord (str (kinds.2 ++ suffix))) {heights : List Nat} :
    ∀ i ∈ recordsAt c kinds heights, IsRecord i.key := by
  intro i hi
  obtain ⟨h, -, hi⟩ := List.mem_flatMap.mp hi
  rcases List.mem_cons.mp hi with rfl | hi
  · exact h₁ _
  · rw [List.mem_singleton.mp hi]
    exact h₂ _

theorem isRecord_pruneFloor : IsRecord c.pruneFloor.key :=
  (by decide : isSidecar (str "_prune_floor") = true ∧ str "_prune_floor" ≠ str "_state_root")

theorem isRecord_finalityPruneFloor : IsRecord c.finalityPruneFloor.key :=
  (by decide : isSidecar (str "_finality_prune_floor") = true ∧
    str "_finality_prune_floor" ≠ str "_state_root")

/-- The calls that write records beside the consensus state. -/
def AppCall.isRecord {Tx : Type} : AppCall Tx → Bool
  | .setBlockCertificate .. => true
  | .setBlockProposal .. => true
  | .setBlockTimestamp .. => true
  | .setBlockFinality .. => true
  | .setBlockPayload .. => true
  | .setTxResponse .. => true
  | .pruneSidecars .. => true
  | .pruneFinality .. => true
  | _ => false

/-- Each of them is one writer that touches records only. -/
theorem AppCall.isRecord_writer (h : call.isRecord = true) :
    ∃ (β : Type) (p : StorageM PulsarError β), WritesOnly IsRecord p ∧
      ∀ a, call.apply H c logic a = (FailState.exec (withWriter H p) a).map Prod.snd := by
  cases call with
  | setBlockCertificate | setBlockProposal | setBlockTimestamp | setBlockPayload | setTxResponse =>
    exact ⟨_, _, WritesOnly.save (isRecord_append _) _, fun _ => rfl⟩
  | setBlockFinality height certificate proposal timestampNanos =>
    exact ⟨_, _, (WritesOnly.save (isRecord_append _) certificate).bind fun _ =>
      (WritesOnly.save (isRecord_append _) proposal).bind fun _ =>
        WritesOnly.save (isRecord_append _) timestampNanos, fun _ => rfl⟩
  | pruneSidecars heights txhashes newFloor =>
    refine ⟨_, _, (WritesOnly.removeRecords fun i hi => ?_).bind fun n =>
      (WritesOnly.save isRecord_pruneFloor newFloor).bind fun _ => WritesOnly.pure n,
        fun _ => rfl⟩
    rcases List.mem_append.mp hi with hi | hi
    · exact isRecord_recordsAt isRecord_append isRecord_append i hi
    · obtain ⟨hash, -, rfl⟩ := List.mem_map.mp hi
      exact isRecord_append _
  | pruneFinality heights newFloor =>
    exact ⟨_, _, (WritesOnly.removeRecords
      (isRecord_recordsAt isRecord_append isRecord_append)).bind fun n =>
        (WritesOnly.save isRecord_finalityPruneFloor newFloor).bind fun _ => WritesOnly.pure n,
          fun _ => rfl⟩
  | _ => cases h

/-- They leave the state root and every consensus entry alone. -/
theorem AppCall.isRecord_keeps (hcall : call.isRecord = true)
    (h : call.apply H c logic a = some a') : (a'.rootIndex = a.rootIndex ∧ a'.data = a.data) ∧
      ∀ k, ¬ IsRecord k → a'.storage.data[k]? = a.storage.data[k]? := by
  obtain ⟨β, p, hp, hwriter⟩ : ∃ (β : Type) (p : StorageM PulsarError β), WritesOnly IsRecord p ∧
      ∀ a, call.apply H c logic a = (FailState.exec (withWriter H p) a).map Prod.snd :=
    call.isRecord_writer hcall
  rw [hwriter a] at h
  obtain ⟨⟨r, a₁⟩, hexec, rfl⟩ := Option.map_eq_some_iff.mp h
  exact withWriter_writesOnly hp ⟨rfl, by decide⟩ hexec

/-- Writes past the tracker, followed by something that drops the index. -/
theorem triple_withWriter :
    Triple (IndexInv H) (withWriter H p) (fun _ _ => True) (fun _ => IndexInv H) := by
  intro a a' r hinv hexec
  obtain ⟨⟨hindex, -⟩, ⟨e, rfl, hdata⟩ | ⟨x, w, m, rfl, -⟩⟩ := withWriter_cases hexec
  · refine hinv.of_same hindex ?_
    rw [hdata]
    exact SameConsensus.refl _
  · trivial

theorem storedRoot_init (request : InitChainRequest) :
    Triple (IndexInv H) (init H c logic request) (fun _ a => IndexInv H a ∧ StoredRoot H c a)
      (fun _ => IndexInv H) := by
  refine Triple.bind triple_withWriter fun _ => ?_
  refine Triple.bind (Q := fun _ => IndexInv H) (Triple.modify fun a _ => IndexInv.of_none rfl)
    fun _ => ?_
  refine Triple.bind storedRoot_storeStateRoot fun _ => ?_
  exact Triple.bind_get fun a => Triple.unwrap fun _ _ _ h => h.1

theorem loadFromStorage_index {r : Except AppLoadError Unit}
    (h : loadFromStorage c a = some (r, a')) : a'.rootIndex = none ∧ a'.storage = a.storage := by
  unfold loadFromStorage at h
  dsimp only at h
  split at h
  · cases h
  all_goals
    cases h
    exact ⟨rfl, rfl⟩

theorem keepsIndex_snapshotImport (block : BlockInfo) (records : List Record)
    (expectedRoot : Digest) (tipPayload : Bytes) :
    Triple (IndexInv H) (snapshotImport H c block records expectedRoot tipPayload)
      (fun _ => IndexInv H) (fun _ => IndexInv H) := by
  refine Triple.ite (fun _ => ?_) fun _ => Triple.throw fun _ h => h
  refine Triple.bind triple_withWriter fun _ => ?_
  refine Triple.bind (Q := fun _ => IndexInv H) (Triple.ofFun fun a a' r _ hload => ?_) fun _ => ?_
  · obtain ⟨⟨res, a₁⟩, hstate, heq⟩ := Option.map_eq_some_iff.mp hload
    cases heq
    have hnone := IndexInv.of_none (H := H) (loadFromStorage_index hstate).1
    cases res with
    | ok u | error e => exact hnone
  · exact Triple.bind (Q := fun _ => IndexInv H) (Triple.modify fun a _ => IndexInv.of_none rfl)
      fun _ => storedRoot_storeStateRoot.mono (fun _ h => h) (fun _ _ h => h.1) fun _ _ h => h

/-! ## Whole runs -/

/-- From a triple to what a call leaves, result or error. -/
theorem IndexInv.of_triple {p : AppM α}
    (hp : Triple (IndexInv H) p (fun _ => IndexInv H) (fun _ => IndexInv H)) (hinv : IndexInv H a)
    (h : (FailState.exec p a).map Prod.snd = some a') : IndexInv H a' := by
  obtain ⟨⟨r, a₁⟩, hexec, rfl⟩ := Option.map_eq_some_iff.mp h
  have hend := hp hinv hexec
  cases r with
  | ok x | error e => exact hend

theorem keepsIndex_finalizeBlockImpl (fullBlock : Block Tx) (payload : Option Bytes)
    (commit : Bool) :
    Triple (IndexInv H) (finalizeBlockImpl H c logic fullBlock payload commit)
      (fun _ => IndexInv H) (fun _ => IndexInv H) :=
  (triple_finalizeBlockImpl fullBlock payload commit).mono (fun _ h => h) (fun _ _ h => h.1)
    fun _ _ h => h

theorem IndexInv.of_record (hinv : IndexInv H a) (hcall : call.isRecord = true)
    (h : call.apply H c logic a = some a') : IndexInv H a' := by
  obtain ⟨⟨hindex, -⟩, hsame⟩ := call.isRecord_keeps hcall h
  exact hinv.of_same hindex fun k hk => hsame k fun hrec => by simp [hk, IsRecord] at hrec

/-- Step: every call keeps the index true. -/
theorem IndexInv.apply (hinv : IndexInv H a) (h : call.apply H c logic a = some a') :
    IndexInv H a' := by
  cases call with
  | loadFromStorage =>
    obtain ⟨⟨r, a₁⟩, hload, rfl⟩ := Option.map_eq_some_iff.mp h
    exact IndexInv.of_none (loadFromStorage_index hload).1
  | init request =>
    exact of_triple ((storedRoot_init request).mono (fun _ h => h) (fun _ _ h => h.1)
      fun _ _ h => h) hinv h
  | finalizeBlock fullBlock payload =>
    exact of_triple (keepsIndex_finalizeBlockImpl fullBlock payload true) hinv h
  | simulateFinalizeBlock fullBlock =>
    exact of_triple (keepsIndex_finalizeBlockImpl fullBlock none false) hinv h
  | snapshotImport block records expectedRoot tipPayload =>
    exact of_triple (keepsIndex_snapshotImport block records expectedRoot tipPayload) hinv h
  | setBlockCertificate | setBlockProposal | setBlockTimestamp
  | setBlockFinality | setBlockPayload | setTxResponse | pruneSidecars
  | pruneFinality => exact hinv.of_record rfl h

/-- Run: by induction on the calls. -/
theorem IndexInv.runCalls : ∀ {calls : List (AppCall Tx)} {a a' : App}, IndexInv H a →
    runCalls H c logic calls a = some a' → IndexInv H a'
  | [], _, _, hinv, h => by
    cases h
    exact hinv
  | _ :: _, _, _, hinv, h => by
    obtain ⟨a₁, hcall, hrest⟩ := Option.bind_eq_some_iff.mp h
    exact IndexInv.runCalls (hinv.apply hcall) hrest

/-- **The incremental root.** After any run from any store, the index in memory is
the map from the committed consensus keys to their leaf hashes; and the root
that the next accepted block returns and stores is the root a full scan of
the new store computes. -/
theorem rootIndex_refines_scan (H : Bytes → Digest) (c : AppCodecs)
    (logic : StateMachine Tx Msg Data Genesis) (storage : Persistent) (calls : List (AppCall Tx))
    {a : App} (hrun : LayerSdk.runCalls H c logic calls (App.new storage) = some a) :
    (∀ index, a.rootIndex = some index → LeafIndex H index a.storage.data) ∧
      ∀ fullBlock payload resp a',
        FailState.exec (finalizeBlockWithPayload H c logic fullBlock payload) a =
          some (.ok resp, a') →
        StoredRoot H c a' ∧ resp.appHash = (stateRoot H a'.storage.data).bytes ∧
          (∀ root a'', FailState.exec (computeStateRoot H) a' = some (.ok root, a'') →
            resp.appHash = root.bytes) ∧
          (scanGas a'.storage.data < u64Max →
            ∃ root, FailState.exec (computeStateRoot H) a' = some (.ok root, a')) := by
  have hinv : IndexInv H a := IndexInv.runCalls (IndexInv.of_none rfl) hrun
  refine ⟨hinv, ?_⟩
  intro fullBlock payload resp a' hexec
  obtain ⟨-, hroot⟩ := triple_finalizeBlockImpl fullBlock payload true hinv hexec
  obtain ⟨hhash, hstored⟩ := hroot rfl
  refine ⟨hstored, hhash, ?_, ?_⟩
  · intro root a'' hscan
    obtain ⟨⟨data', res, m'⟩, hover, heq⟩ := Option.map_eq_some_iff.mp hscan
    obtain ⟨rfl, -⟩ := Prod.mk.inj heq
    rw [hhash, exec_stateRootOver_ok H hover]
  · intro hgas
    have hover := exec_stateRootOver (ε := PulsarError) H a'.storage.backend a'.storage.data
      .infinite (by simpa [GasMeter.infinite, GasMeter.new] using hgas)
    refine ⟨stateRoot H a'.storage.data, ?_⟩
    change (Comp.exec _ _ _ _).map _ = _
    rw [hover]
    rfl

end Operations

/-! ## What leaves the storage alone -/

section Storage

variable {H : Bytes → Digest} {c : AppCodecs} {Tx Msg Data Genesis : Type}
  {logic : StateMachine Tx Msg Data Genesis} {α β : Type}

theorem readItem_congr {α : Type} {i : Item α} {a a' : App}
    (h : a'.storage.data[i.key]? = a.storage.data[i.key]?) : a'.readItem i = a.readItem i := by
  simp only [App.readItem, exec_mayLoad, h]
  generalize Except.bind _ _ = x
  cases x <;> rfl

end Storage

/-! A chain with the state machine of the sample transactions: genesis, and a
first block whose one transaction has two messages. -/

def sampleAppState : AppState := ⟨"slay", ⟨1000, none⟩⟩

def sampleGenesisStore : Store :=
  (∅ : Store).insert ([0, 3] ++ str "appstate") (AppCodecs.appStateJson sampleAppState)

def sampleAppCodecs : AppCodecs :=
  .ofValues [⟨0, 100, "slay"⟩, ⟨1, 200, "slay"⟩] [sampleAppState] [] []
    [stateRoot sha256 sampleGenesisStore,
      stateRoot sha256 ((sampleGenesisStore.insert [0x73] [1]).insert [0x61] [8])]

def sampleInit : AppCall Bytes := .init ⟨100, "slay", ⟨1000, none⟩, [], 1⟩

theorem rootIndex_refines_scan_sample : ∃ a a' resp,
    runCalls sha256 sampleAppCodecs sampleLogic [sampleInit] (App.new ⟨.memory, ∅, []⟩) = some a ∧
    FailState.exec (finalizeBlockWithPayload sha256 sampleAppCodecs sampleLogic
      ⟨[[7, 8]], 1, 200, []⟩ none) a = some (.ok resp, a') ∧
    (∀ index, a.rootIndex = some index → LeafIndex sha256 index a.storage.data) ∧
    StoredRoot sha256 sampleAppCodecs a' ∧
    resp.appHash = (stateRoot sha256 a'.storage.data).bytes := by
  have hok : ((runCalls sha256 sampleAppCodecs sampleLogic [sampleInit]
      (App.new ⟨.memory, ∅, []⟩)).bind fun a =>
        (FailState.exec (finalizeBlockWithPayload sha256 sampleAppCodecs sampleLogic
          ⟨[[7, 8]], 1, 200, []⟩ none) a).map fun x => x.1.isOk) = some true := by
    rw [sampleAppCodecs, sha256_eq_eval]
    decide +kernel
  obtain ⟨a, hrun, hblock⟩ := Option.bind_eq_some_iff.mp hok
  obtain ⟨⟨r, a'⟩, hexec, hr⟩ := Option.map_eq_some_iff.mp hblock
  cases r with
  | error e => cases hr
  | ok resp =>
    obtain ⟨hindex, hroot⟩ := rootIndex_refines_scan sha256 sampleAppCodecs sampleLogic
      ⟨.memory, ∅, []⟩ [sampleInit] hrun
    obtain ⟨hstored, hhash, -⟩ := hroot _ _ resp a' hexec
    exact ⟨a, a', resp, hrun, hexec, hindex, hstored, hhash⟩

end LayerSdk
