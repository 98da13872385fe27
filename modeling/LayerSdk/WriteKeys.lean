import LayerSdk.App
import LayerSdk.KeeperWalk

/-!
# No write at the empty key

The memory store hashes the first byte of a key when it commits, so a write at
the empty key is a panic there, while RocksDB panics at the write. No keeper
makes such a write: the modules write under their namespace, a contract under
its own, and the paths of the IBC keeper start with `ibc/`. So what a block
has written can always be committed (`keyed_runBlock`).
-/

namespace LayerSdk

open EffectProg Comp

/-- A write names a key that is not empty. -/
abbrev AtKey : StorageOp → Prop := WritesAt fun key => key ≠ []

/-- All writes of a program name a key. -/
abbrev Keyed {ε α : Type} (p : StorageM ε α) : Prop := Only AtKey p

instance within_keyed (ns) : Within (fun key => key ≠ []) ns := ⟨fun _ h => by cases h⟩

/-- Every change in the overlay is at a key that is not empty. -/
def KeyedOverlay (ov : Overlay) : Prop := ¬ [] ∈ ov

theorem KeyedOverlay.empty : KeyedOverlay ∅ := Std.ExtTreeMap.not_mem_empty

theorem KeyedOverlay.insert {ov : Overlay} (hov : KeyedOverlay ov) {key : Bytes} (hkey : key ≠ [])
    (d : Delta) : KeyedOverlay (ov.insert key d) := by
  rw [KeyedOverlay, Std.ExtTreeMap.mem_insert, not_or]
  exact ⟨by simpa using hkey, hov⟩

theorem KeyedOverlay.ne_nil_of_mem {ov : Overlay} (hov : KeyedOverlay ov) {x : Bytes × Delta}
    (hx : x ∈ ov.toList) : x.1 ≠ [] := by
  intro heq
  exact hov (heq ▸ OrdMap.mem_of_mem_toList hx)

theorem Free.ne_nil {key : Bytes} (h : Free key) : key ≠ [] := by
  cases h with
  | wasm key => exact List.cons_ne_nil _ _
  | ibc x => exact fun h => Ibc.not_outside_key x (h ▸ nofun)

/-! ## Blocks -/

section Blocks

variable (E : Externals) (depth : Nat) (c : AppCodecs)
  (parseGenesis : Bytes → Except PulsarError GenesisState)

theorem keyed_executeTxs (block : BlockInfo) (txs : List SignedTx) :
    Keyed (executeTxs (stateMachine E depth parseGenesis) block txs) := by
  have hbuilt {α : Type} {p : StorageM PulsarError α} (h : Built E p) : Keyed p :=
    h.only fun _ => Free.ne_nil
  have (signer : Bytes) (msgs : List Msg) :
      Keyed (processMsgs (stateMachine E depth parseGenesis) signer block msgs) :=
    hbuilt (built_processMsgs ..)
  have (tx : SignedTx) : Keyed (executeTx (stateMachine E depth parseGenesis) block tx) := by
    have : Keyed ((stateMachine E depth parseGenesis).validateTx block tx) :=
      hbuilt (built_validateTx ..)
    rw [executeTx]
    refine Only.bind inferInstance fun x => ?_
    obtain ⟨_ | data, valMeter⟩ := x
    · infer_instance
    · dsimp only
      split <;> infer_instance
  induction txs with
  | nil => exact only_pure []
  | cons tx rest ih =>
    rw [executeTxs]
    infer_instance

/-- A block without a payload writes at keys only. -/
theorem keyed_runBlock (fullBlock : Block SignedTx) (block : BlockInfo) (params : BlockParams) :
    Keyed (runBlock c (stateMachine E depth parseGenesis) fullBlock block params none) := by
  have := keyed_executeTxs E depth parseGenesis block fullBlock.txs
  have : Keyed ((stateMachine E depth parseGenesis).beginBlock fullBlock) := by
    have : Keyed ((proposerKey E).save fullBlock.proposerAddress : StorageM PulsarError Unit) :=
      only_save (by change str "_proposer" ≠ []; decide) _
    change Keyed (beginBlock E fullBlock)
    rw [beginBlock]
    infer_instance
  have : Keyed ((stateMachine E depth parseGenesis).endBlock block) :=
    (built_endBlock ..).only fun _ => Free.ne_nil
  have : Keyed (c.lastBlock.save block : StorageM PulsarError Unit) :=
    only_save (by change str "_last_block" ≠ []; decide) _
  rw [runBlock]
  infer_instance

end Blocks

end LayerSdk
