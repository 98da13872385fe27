import LayerSdk.AppRoot
import LayerSdk.WriteKeys

/-!
# Dry runs of a block

`simulate_finalize_block` and `finalize_block` are one routine that commits at
its end or does not. Up to there they are the same program on the same state
(`finalizeBlockImpl_eq`), so they differ only if the commit fails. It does
not: the meter it is charged to has not moved (`KeepsMeter`), and the block
has written no empty key (`keyed_runBlock`).

What a dry run leaves is the index of leaf hashes, if there was none. A later
call would have built the same one (`exec_finalizeBlockImpl_indexed`).
-/

namespace LayerSdk

open EffectProg FailState

/-! ## The meter of a block -/

section Meter

variable {α β : Type} {b : Backend}

/-- The three phases of a block have their own meters, and a write costs nothing
on a block's storage. -/
def KeepsMeter (b : Backend) (p : StorageM PulsarError α) : Prop :=
  ∀ ⦃m m' : GasMeter⦄ ⦃s s' : BlockState⦄ ⦃r : Except PulsarError α⦄,
    Comp.exec (trackedWriter b) p m s = some (s', r, m') → m' = m

theorem KeepsMeter.pure (x : α) : KeepsMeter b (pure x : StorageM PulsarError α) :=
  fun _ _ _ _ _ h => (Comp.exec_pure_cases h).2.2

theorem KeepsMeter.ofExcept (x : Except PulsarError α) :
    KeepsMeter b (Comp.ofExcept x : StorageM PulsarError α) := by
  cases x with
  | ok x => exact KeepsMeter.pure x
  | error e => exact fun _ _ _ _ _ h => (Comp.exec_throw_cases h).2.2

theorem KeepsMeter.bind {p : StorageM PulsarError α} {f : α → StorageM PulsarError β}
    (hp : KeepsMeter b p) (hf : ∀ x, KeepsMeter b (f x)) : KeepsMeter b (p >>= f) := by
  intro m m' s s' r h
  rcases Comp.exec_bind_cases h with ⟨s₁, x, m₁, hfirst, hrest⟩ | ⟨e, hfirst, -⟩
  · rw [hf x hrest, hp hfirst]
  · exact hp hfirst

theorem KeepsMeter.withMeter (sub : GasMeter) (p : StorageM PulsarError α) :
    KeepsMeter b (Comp.withMeter sub p) :=
  fun _ _ _ _ _ h => (exec_withMeter_cases h).1

theorem KeepsMeter.save (i : Item α) (x : α) :
    KeepsMeter b (i.save x : StorageM PulsarError Unit) := by
  refine KeepsMeter.bind (KeepsMeter.ofExcept _) fun bz => ?_
  intro m m' s s' r h
  have hset : Comp.exec (trackedWriter b) (applyOp i.key (.set bz) : StorageM PulsarError Unit) m s =
      some (s', r, m') := h
  exact (exec_applyOp (freeWrites_trackedWriter b) hset).1

theorem keepsMeter_runBlock {Tx Msg Data Genesis : Type} (c : AppCodecs)
    (logic : StateMachine Tx Msg Data Genesis) (fullBlock : Block Tx) (block : BlockInfo)
    (params : BlockParams) (payload : Option Bytes) :
    KeepsMeter b (runBlock c logic fullBlock block params payload) := by
  refine KeepsMeter.bind (KeepsMeter.withMeter _ _) fun _ => ?_
  refine KeepsMeter.bind (KeepsMeter.ofExcept _) fun _ => ?_
  refine KeepsMeter.bind (KeepsMeter.withMeter _ _) fun _ => ?_
  refine KeepsMeter.bind (KeepsMeter.ofExcept _) fun _ => ?_
  refine KeepsMeter.bind (KeepsMeter.withMeter _ _) fun _ => ?_
  refine KeepsMeter.bind (KeepsMeter.ofExcept _) fun _ => ?_
  refine KeepsMeter.bind (KeepsMeter.save _ _) fun _ => ?_
  cases payload with
  | none => exact KeepsMeter.pure _
  | some bytes => exact KeepsMeter.bind (KeepsMeter.save _ _) fun _ => KeepsMeter.pure _

end Meter

/-! ## The pending changes of a block -/

theorem keyedOverlay_step {op : StorageOp} {s s' : BlockState} {r : op.Res} (hop : AtKey op)
    (h : trackedWriter .memory op s = some (s', r)) (hs : KeyedOverlay s.2.changes) :
    KeyedOverlay s'.2.changes := by
  obtain ⟨dirty, w⟩ := s
  cases op with
  | get m key =>
    rw [(freeWrites_trackedWriter .memory).get h]
    exact hs
  | range m start stop order =>
    rw [(freeWrites_trackedWriter .memory).range h]
    exact hs
  | set m key value =>
    rw [trackedWriter, trackingWriter_set] at h
    cases h
    exact hs.insert hop _
  | remove m key =>
    rw [trackedWriter, trackingWriter_remove] at h
    cases h
    exact hs.insert hop _

theorem Keyed.keyedOverlay {α : Type} {p : StorageM PulsarError α} (hp : Keyed p)
    {m m' : GasMeter} {s s' : BlockState} {r : Except PulsarError α}
    (h : Comp.exec (trackedWriter .memory) p m s = some (s', r, m'))
    (hs : KeyedOverlay s.2.changes) : KeyedOverlay s'.2.changes :=
  Yields.run (fun _ _ _ _ hop hstep hI => keyedOverlay_step hop hstep hI) (hp.yields m) h hs

/-! ## The commit -/

/-- A writer without the empty key commits, if the meter is not exhausted. -/
theorem exists_commit {H : Bytes → Digest} {p : Persistent} {w : Writer} {m : GasMeter}
    (hm : m.used < m.limit) (hw : p.backend = .memory → KeyedOverlay w.changes) :
    ∃ p' m', p.commit H w m = some (p', m', .ok ()) := by
  unfold Persistent.commit
  split
  · rename_i hback
    have hkeys : ∀ x ∈ w.changes.toList, x.1 ≠ [] := fun x hx => (hw hback).ne_nil_of_mem hx
    rw [memoryCommitOps_live hm, (foldlM_apply_iff _ _ _).mpr ⟨hkeys, rfl⟩]
    exact ⟨_, _, rfl⟩
  · exact ⟨_, _, rfl⟩

section Blocks

variable {Tx Msg Data Genesis : Type} (H : Bytes → Digest) (c : AppCodecs)
  (logic : StateMachine Tx Msg Data Genesis)

theorem exists_commitBlock (block : BlockInfo) {s : BlockState} {m : GasMeter} {a : App}
    (hm : m.used < m.limit) (hs : a.storage.backend = .memory → KeyedOverlay s.2.changes) :
    ∃ a', exec (commitBlock H true block s m) a = some (.ok (), a') := by
  obtain ⟨p', m', hcommit⟩ := exists_commit (H := H) (p := a.storage) hm hs
  refine ⟨closeBlock H block s.1 { a with storage := p' }, ?_⟩
  have hw : exec (commitWriter H s.2 m ()) a = some (.ok (), { a with storage := p' }) := by
    change (a.storage.commit H s.2 m).map _ = _
    rw [hcommit]
    rfl
  change exec (commitWriter H s.2 m () >>= fun _ => modify (closeBlock H block s.1)) a = _
  rw [exec_bind_eq, hw]
  rfl

/-! ## One routine -/

/-- The routine after the checks, up to the commit. -/
def runIndexed (fullBlock : Block Tx) (payload : Option Bytes) (block : BlockInfo)
    (params : BlockParams) : AppM (FinalizeBlockResponse Data × BlockState × GasMeter) := do
  let a ← get
  let (out, s, m) ←
    runTracked (runBlock c logic fullBlock block params payload) (∅, a.storage.writer) .infinite
  let index ← unwrap a.rootIndex
  let root := rootWithPending H index s.1
  let ((), s, m) ← runTracked (c.stateRootItem.save root) s m
  pure (⟨out.1, out.2, root.bytes⟩, s, m)

/-- The commit and what is returned. -/
def finishBlock (commit : Bool) (block : BlockInfo)
    (x : FinalizeBlockResponse Data × BlockState × GasMeter) : AppM (FinalizeBlockResponse Data) := do
  commitBlock H commit block x.2.1 x.2.2
  pure x.1

theorem finalizeBlockImpl_eq (fullBlock : Block Tx) (payload : Option Bytes) (commit : Bool) :
    finalizeBlockImpl H c logic fullBlock payload commit = (do
      let data ← unwrap (← get).data
      let block : BlockInfo := ⟨fullBlock.height, fullBlock.time, data.chainId⟩
      checkBlock block data.block
      ensureRootIndex H
      let x ← runIndexed H c logic fullBlock payload block data.params
      finishBlock H commit block x) := by
  simp only [finalizeBlockImpl, runIndexed, finishBlock, bind_assoc, pure_bind]

/-! ## The two modes agree -/

/-- What comes back from a call, without the state it leaves. -/
def returned {α : Type} (x : Option (Except PulsarError α × App)) : Option (Except PulsarError α) :=
  x.map Prod.fst

theorem returned_bind_congr {α β : Type} {p : AppM α} {f g : α → AppM β} {a : App}
    (h : ∀ x a', exec p a = some (.ok x, a') → returned (exec (f x) a') = returned (exec (g x) a')) :
    returned (exec (p >>= f) a) = returned (exec (p >>= g) a) := by
  rw [exec_bind_eq, exec_bind_eq]
  cases hp : exec p a with
  | none => rfl
  | some x =>
    obtain ⟨_ | x, a'⟩ := x
    · rfl
    · exact h x a' hp

/-- Up to the commit the application stays as it is, and what is pending at the end
of a block can be committed. -/
theorem triple_runIndexed (fullBlock : Block Tx) (block : BlockInfo) (params : BlockParams)
    (a : App) :
    Triple (fun x => x = a) (runIndexed H c logic fullBlock none block params)
      (fun x a' => a' = a ∧ x.2.2 = .infinite ∧
        (Keyed (runBlock c logic fullBlock block params none) → a.storage.backend = .memory →
          KeyedOverlay x.2.1.2.changes))
      (fun _ a' => a' = a) := by
  refine Triple.bind_get fun a₀ => ?_
  rintro b a' r ⟨rfl, rfl⟩ hexec
  refine Triple.bind ((triple_runTracked (BlockInv.start b.storage)).mono (fun x h => h)
    (fun _ _ h => h) fun _ x h => h) (fun out => ?_) (show b = b from rfl) hexec
  refine Triple.bind_unwrap fun index _ => ?_
  rintro b₁ a' r ⟨rfl, hblock, hrun⟩ hexec
  refine Triple.bind ((triple_runTracked hblock).mono (fun x h => h)
    (fun _ _ h => h) fun _ x h => h) (fun saved => ?_) (show b₁ = b₁ from rfl) hexec
  refine Triple.pure ?_
  rintro b₂ ⟨rfl, -, hsave⟩
  have hm : saved.2.2 = .infinite := by
    rw [KeepsMeter.save _ _ hsave, keepsMeter_runBlock c logic fullBlock block params none hrun]
  refine ⟨rfl, hm, fun hkeyed hmem => ?_⟩
  rw [hmem] at hrun hsave
  have hroot : Keyed (c.stateRootItem.save (rootWithPending H index out.2.1.1) :
      StorageM PulsarError Unit) := only_save (by change str "_state_root" ≠ []; decide) _
  exact hroot.keyedOverlay hsave (hkeyed.keyedOverlay hrun KeyedOverlay.empty)

theorem returned_finishBlock {block : BlockInfo}
    {x : FinalizeBlockResponse Data × BlockState × GasMeter} {a : App} (hm : x.2.2 = .infinite)
    (hs : a.storage.backend = .memory → KeyedOverlay x.2.1.2.changes) :
    returned (exec (finishBlock H true block x) a) = some (.ok x.1) := by
  have hlt : x.2.2.used < x.2.2.limit := by
    rw [hm]
    decide
  obtain ⟨a', hcommit⟩ := exists_commitBlock H block hlt hs
  rw [finishBlock, exec_bind_eq, hcommit]
  rfl

/-- The commit adds nothing to what is returned. -/
theorem returned_finalizeBlockImpl {fullBlock : Block Tx}
    (hkeyed : ∀ block params, Keyed (runBlock c logic fullBlock block params none)) (a : App) :
    returned (exec (finalizeBlockImpl H c logic fullBlock none false) a) =
      returned (exec (finalizeBlockImpl H c logic fullBlock none true) a) := by
  rw [finalizeBlockImpl_eq, finalizeBlockImpl_eq]
  refine returned_bind_congr fun a₀ _ _ => ?_
  refine returned_bind_congr fun data _ _ => ?_
  refine returned_bind_congr fun _ _ _ => ?_
  refine returned_bind_congr fun _ a₁ _ => ?_
  refine returned_bind_congr fun x a₂ hexec => ?_
  obtain ⟨rfl, hm, hs⟩ := triple_runIndexed H c logic fullBlock _ _ a₁ rfl hexec
  rw [returned_finishBlock H hm (hs (hkeyed _ _))]
  rfl

/-! ## What a dry run leaves -/

/-- Nothing has changed but the index, and that only where it was missing. -/
def Indexed (a a' : App) : Prop := a' = a ∨ exec (ensureRootIndex H) a = some (.ok (), a')

theorem Indexed.same {a a' : App} (h : Indexed H a a') :
    a'.storage = a.storage ∧ a'.data = a.data := by
  rcases h with rfl | h
  · exact ⟨rfl, rfl⟩
  · obtain ⟨-, index, rfl, -⟩ | ⟨⟨e, he⟩, -⟩ := exec_ensureRootIndex h
    · exact ⟨rfl, rfl⟩
    · cases he

theorem indexed_simulateFinalizeBlock (fullBlock : Block Tx) (a : App) :
    Triple (fun x => x = a) (simulateFinalizeBlock H c logic fullBlock)
      (fun _ a' => Indexed H a a') (fun _ a' => Indexed H a a') := by
  rw [simulateFinalizeBlock, finalizeBlockImpl_eq]
  refine Triple.bind_get fun a₀ => Triple.bind_unwrap fun data _ => ?_
  refine Triple.bind (keepsIndex_checkBlock.mono (fun x h => h.1) (fun _ _ h => h)
    fun _ _ h => .inl h) fun _ => ?_
  refine Triple.bind (Q := fun _ => Indexed H a) ?_ fun _ => ?_
  · rintro x a' r rfl hexec
    obtain ⟨rfl, -⟩ | ⟨⟨e, rfl⟩, rfl⟩ := exec_ensureRootIndex hexec
    · exact .inr hexec
    · exact .inl rfl
  · refine Triple.bind (Q := fun _ => Indexed H a) ?_ fun x => Triple.pure fun _ h => h
    intro a₁ a' r h hexec
    have hend := triple_runIndexed H c logic fullBlock _ _ a₁ rfl hexec
    cases r with
    | ok x =>
      rw [hend.1]
      exact h
    | error e =>
      rw [hend]
      exact h

/-- What a call shows to the outside: its result, the committed store and the block
info. -/
def observed {α : Type} (x : Option (Except PulsarError α × App)) :
    Option (Except PulsarError α × Persistent × Option InnerData) :=
  x.map fun y => (y.1, y.2.storage, y.2.data)

theorem exec_checkBlock_cases (block oldBlock : BlockInfo) :
    (∀ a, exec (checkBlock block oldBlock) a = none) ∨
      ∃ r, ∀ a, exec (checkBlock block oldBlock) a = some (r, a) := by
  rw [checkBlock]
  split
  · exact .inl fun _ => rfl
  · right
    split
    · exact ⟨_, fun _ => rfl⟩
    · split <;> exact ⟨_, fun _ => rfl⟩

/-- A block does the same whether or not the index was there before. -/
theorem observed_finalizeBlockImpl (fullBlock : Block Tx) (payload : Option Bytes) (commit : Bool)
    {a a' : App} (h : Indexed H a a') :
    observed (exec (finalizeBlockImpl H c logic fullBlock payload commit) a') =
      observed (exec (finalizeBlockImpl H c logic fullBlock payload commit) a) := by
  rcases h with rfl | h
  · rfl
  obtain ⟨-, index, rfl, -⟩ | ⟨⟨e, he⟩, -⟩ := exec_ensureRootIndex h
  · rw [finalizeBlockImpl_eq]
    have hget : ∀ (f : App → AppM (FinalizeBlockResponse Data)) (x : App),
      exec (MonadState.get >>= f) x = exec (f x) x := fun _ _ => rfl
    rw [hget, hget]
    cases hdata : a.data with
    | none => rfl
    | some data =>
      have hunwrap : ∀ (f : InnerData → AppM (FinalizeBlockResponse Data)) (x : App),
        exec (unwrap (some data) >>= f) x = exec (f data) x := fun _ _ => rfl
      rw [hunwrap, hunwrap, exec_bind_eq, exec_bind_eq]
      rcases exec_checkBlock_cases ⟨fullBlock.height, fullBlock.time, data.chainId⟩ data.block with
        hnone | ⟨_ | u, hcheck⟩
      · rw [hnone, hnone]
      · rw [hcheck, hcheck]
        simp only [Option.bind_some, followed, observed, Option.map_some, hdata]
      · rw [hcheck, hcheck]
        simp only [Option.bind_some, followed]
        rw [exec_bind_eq, exec_bind_eq, h, exec_ensureRootIndex_some rfl, hdata]
  · cases he

theorem observed_after_dryRuns (fullBlock : Block Tx) (commit : Bool) :
    ∀ {blocks : List (Block Tx)} {a a' : App},
      runCalls H c logic (blocks.map .simulateFinalizeBlock) a = some a' →
      observed (exec (finalizeBlockImpl H c logic fullBlock none commit) a') =
        observed (exec (finalizeBlockImpl H c logic fullBlock none commit) a)
  | [], a, a', h => by rw [Option.some.inj h]
  | b :: rest, a, a', h => by
    obtain ⟨a₁, hcall, hrest⟩ := Option.bind_eq_some_iff.mp h
    obtain ⟨⟨r, a₂⟩, hexec, rfl⟩ := Option.map_eq_some_iff.mp hcall
    rw [observed_after_dryRuns fullBlock commit hrest]
    refine observed_finalizeBlockImpl H c logic fullBlock none commit ?_
    have hend := indexed_simulateFinalizeBlock H c logic b a rfl hexec
    cases r with
    | ok x | error e => exact hend

end Blocks

/-- **Dry runs.** From every state of the application, a simulated block returns what
the block would return, result or error, and leaves the committed store and
the block info as they are; and after any number of dry runs a block returns
and commits what it would have without them. -/
theorem simulateFinalizeBlock_agrees (H : Bytes → Digest) (c : AppCodecs) (E : Externals)
    (depth : Nat) (parseGenesis : Bytes → Except PulsarError GenesisState) (a : App)
    (fullBlock : Block SignedTx) :
    returned (exec (simulateFinalizeBlock H c (stateMachine E depth parseGenesis) fullBlock) a) =
        returned (exec (finalizeBlock H c (stateMachine E depth parseGenesis) fullBlock) a) ∧
      (∀ r a', exec (simulateFinalizeBlock H c (stateMachine E depth parseGenesis) fullBlock) a =
        some (r, a') → a'.storage = a.storage ∧ a'.data = a.data) ∧
      ∀ (blocks : List (Block SignedTx)) (a' : App), runCalls H c (stateMachine E depth parseGenesis)
          (blocks.map .simulateFinalizeBlock) a = some a' →
        observed (exec (finalizeBlock H c (stateMachine E depth parseGenesis) fullBlock) a') =
          observed (exec (finalizeBlock H c (stateMachine E depth parseGenesis) fullBlock) a) := by
  refine ⟨?_, fun r a' hexec => ?_, fun blocks a' hruns => ?_⟩
  · exact returned_finalizeBlockImpl H c _
      (fun block params => keyed_runBlock E depth c parseGenesis fullBlock block params) a
  · have hend := indexed_simulateFinalizeBlock H c _ fullBlock a rfl hexec
    cases r with
    | ok x | error e => exact Indexed.same H hend
  · exact observed_after_dryRuns H c _ fullBlock true hruns

end LayerSdk
