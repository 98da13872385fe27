import LayerSdk.AppRoot
import Mathlib.Data.List.Nodup

/-!
# Importing a snapshot

`snapshot_import` checks the root over the list it is given and then writes the
list into the store as it is. So what is committed is the old store with the
records over it (`importedData`), and the check says nothing about it unless
the list is all there is of consensus state (`Adopts`): its keys are distinct,
none of them is a sidecar key, and no old entry stays beside them.

The records are committed before the app state is read back from them. A dump
without a readable app state is refused when it is in the store already.
-/

namespace LayerSdk

open EffectProg FailState

/-! ## What is written -/

/-- The records, one after the other, over a store. -/
def setAll (data : Store) (records : List Record) : Store :=
  records.foldl (fun s r => OrdMap.update s r.1 (some r.2)) data

section Import

variable {H : Bytes → Digest} {c : AppCodecs} {a : App} {block : BlockInfo}
  {records : List Record} {tipPayload : Bytes}

theorem exec_setRecords {σ : Type} {h : StorageObj σ} {view : σ → Store}
    {refuses : GasMeter → Prop} (hfree : FreeWrites h view refuses) :
    ∀ {records : List Record} {m m' : GasMeter} {s s' : σ},
      Comp.exec h (setRecords records) m s = some (s', .ok (), m') →
        view s' = setAll (view s) records
  | [], m, m', s, s', hexec => by
    obtain ⟨rfl, -, -⟩ := Comp.exec_pure_cases hexec
    rfl
  | (key, value) :: rest, m, m', s, s', hexec => by
    obtain ⟨s₁, u, m₁, hset, hrest⟩ := Comp.exec_bind_ok hexec
    have hop : Comp.exec h (applyOp key (.set value) : StorageM PulsarError Unit) m s =
        some (s₁, .ok u, m₁) := hset
    obtain ⟨-, ⟨-, -, hview⟩ | ⟨-, ⟨e, he⟩, -⟩⟩ := exec_applyOp hfree hop
    · rw [exec_setRecords hfree hrest, hview]
      rfl
    · cases he

/-- The store after the commit, but for the store's own hash: the records, then
the block info and the payload of the tip. -/
def importedData (c : AppCodecs) (data : Store) (block : BlockInfo) (records : List Record)
    (tipPayload : Bytes) : Store :=
  OrdMap.update
    (OrdMap.update (setAll data records) c.lastBlock.key
      (c.lastBlock.codec.toJsonVec block).toOption)
    (c.blockPayload block.height).key
    ((c.blockPayload block.height).codec.toJsonVec tipPayload).toOption

theorem exec_writeSnapshot {b : Backend} {m m' : GasMeter} {w w' : Writer}
    (h : Comp.exec (writerObj b) (writeSnapshot c block records tipPayload) m w =
      some (w', .ok (), m')) :
    w'.view = importedData c w.view block records tipPayload := by
  obtain ⟨w₁, u, m₁, hset, h₁⟩ := Comp.exec_bind_ok h
  obtain ⟨w₂, u₂, m₂, hlast, hpay⟩ := Comp.exec_bind_ok h₁
  rcases exec_save_cases (freeWrites_writerObj b) hlast with ⟨e, he, -⟩ | ⟨-, bz, hbz, hview⟩
  · cases he
  rcases exec_save_cases (freeWrites_writerObj b) hpay with ⟨e, he, -⟩ | ⟨-, bz', hbz', hview'⟩
  · cases he
  rw [hview', hview, exec_setRecords (freeWrites_writerObj b) hset, importedData, hbz, hbz']
  rfl

theorem sidecar_importedData (k : Bytes) (hk : isSidecar k = false) (data : Store) :
    (importedData c data block records tipPayload)[k]? = (setAll data records)[k]? := by
  have hlast : isSidecar c.lastBlock.key = true := rfl
  have hpay : isSidecar (c.blockPayload block.height).key = true := (isRecord_append _).1
  have hne : ∀ key, isSidecar key = true → key ≠ k := by
    rintro key hkey rfl
    rw [hk] at hkey
    cases hkey
  rw [importedData, OrdMap.getElem?_update, if_neg (hne _ hpay), OrdMap.getElem?_update,
    if_neg (hne _ hlast)]

/-- The records are in the store: the root check has passed and the write is
committed. -/
def Written (H : Bytes → Digest) (c : AppCodecs) (block : BlockInfo) (records : List Record)
    (expectedRoot : Digest) (tipPayload : Bytes) (a a₁ : App) : Prop :=
  verifySnapshotRoot H records expectedRoot = true ∧
    exec (withWriter H (writeSnapshot c block records tipPayload)) a = some (.ok (), a₁)

variable {expectedRoot : Digest} {a₁ : App}

theorem Written.data (h : Written H c block records expectedRoot tipPayload a a₁) :
    ∀ k, k ≠ appHashKey →
      a₁.storage.data[k]? = (importedData c a.storage.data block records tipPayload)[k]? := by
  obtain ⟨-, ⟨e, he, -⟩ | ⟨x, w, m, -, hrun, hview⟩⟩ := withWriter_cases h.2
  · cases he
  · intro k hk
    rw [hview k hk, exec_writeSnapshot hrun, a.storage.view_writer]

/-- What is left to do then: read the state back and store its root. -/
def adoptState (H : Bytes → Digest) (c : AppCodecs) : AppM Unit := do
  loadImported c
  modify fun a => { a with rootIndex := none }
  storeStateRoot H c

theorem exec_snapshotImport {a' : App} {r : Except PulsarError Unit}
    (h : exec (snapshotImport H c block records expectedRoot tipPayload) a = some (r, a')) :
    ((∃ e, r = .error e) ∧ a'.storage.data = a.storage.data) ∨
      ∃ a₁, Written H c block records expectedRoot tipPayload a a₁ ∧
        exec (adoptState H c) a₁ = some (r, a') := by
  rw [snapshotImport] at h
  split at h
  · rename_i hverify
    rcases FailState.exec_bind_cases h with ⟨u, a₁, hwrite, hrest⟩ | ⟨e, hwrite, rfl⟩
    · exact .inr ⟨a₁, ⟨hverify, hwrite⟩, hrest⟩
    · obtain ⟨-, ⟨e', -, hdata⟩ | ⟨x, w, m, hr, -, -⟩⟩ := withWriter_cases hwrite
      · exact .inl ⟨⟨e, rfl⟩, hdata⟩
      · cases hr
  · cases h
    exact .inl ⟨⟨_, rfl⟩, rfl⟩

/-- The entries an adopted import leaves. -/
theorem Written.scanEntries {a₂ : App}
    (h : Written H c block records expectedRoot tipPayload a a₁)
    (hsame : SameConsensus a₂.storage.data a₁.storage.data) : LayerSdk.scanEntries a₂.storage.data =
      LayerSdk.scanEntries (setAll a.storage.data records) := by
  refine SameConsensus.scanEntries_eq (hsame.trans fun k hk => ?_)
  rw [h.data k, sidecar_importedData k hk]
  rintro rfl
  rw [sidecar_appHashKey] at hk
  cases hk

end Import

/-! A store with one entry of its own, and a dump that holds only the app state. -/

end LayerSdk
