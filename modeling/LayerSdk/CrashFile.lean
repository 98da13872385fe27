import Mathlib.Logic.Function.Basic

/-!
# A file that survives crashes

One name in a directory, the files it has named, and the operations a program
extends and replaces it with: create a file under another name, write, sync,
rename over the name, sync the directory, open, append. Any operation may fail
or be the one in which the process dies. When the machine goes down, the bytes
of a file that are not synced may be lost from some point on, and a rename may
be undone if the directory has not been synced since.

`Survives good fs` says that whatever is found under the name after a crash is
`good`; it is kept by the two ways programs change such a file, appending with
a sync (`append_cases`) and replacing it by a synced copy
(`replace_survives`).
-/

namespace CrashFile

/-- The bytes of a file that are on the disk, and those written since. -/
structure Inode (β : Type) where
  synced : List β
  pending : List β

namespace Inode

variable {β : Type}

def content (i : Inode β) : List β := i.synced ++ i.pending

/-- What is left when the bytes from some point on are lost. -/
def torn (i : Inode β) (kept : Nat) : List β := i.synced ++ i.pending.take kept

theorem torn_length (i : Inode β) : i.torn i.pending.length = i.content := by
  rw [torn, List.take_length, content]

theorem torn_synced (b : List β) (kept : Nat) : (⟨b, []⟩ : Inode β).torn kept = b := by
  rw [torn, List.take_nil, List.append_nil]

end Inode

/-- `entry` is the file the name stands for. `older` are those it may stand for again
after a crash, as the directory has not been synced. -/
structure Fs (β : Type) where
  files : Nat → Inode β
  next : Nat
  entry : Option Nat
  older : List (Option Nat)

/-- An operation succeeds, fails, or is the last of the process. -/
inductive Outcome where
  | ok
  | fail
  | crash
deriving DecidableEq, Repr

/-- Why a program ends early: an error it can see, or the end of the process. -/
inductive Stop where
  | err
  | crashed
deriving DecidableEq, Repr

/-- A program over the file system. -/
def Io (β α : Type) := Fs β → Except Stop α × Fs β

namespace Io

variable {β α γ : Type}

def ret (a : α) : Io β α := fun fs => (.ok a, fs)

/-- `?` -/
def andThen (p : Io β α) (f : α → Io β γ) : Io β γ := fun fs =>
  match p fs with
  | (.ok a, fs) => f a fs
  | (.error e, fs) => (.error e, fs)

instance instMonad : Monad (Io β) where
  pure := ret
  bind := andThen

/-- An operation that does nothing unless it succeeds. -/
def attempt (o : Outcome) (effect : Fs β → α × Fs β) : Io β α := fun fs =>
  match o with
  | .ok => (.ok (effect fs).1, (effect fs).2)
  | .fail => (.error .err, fs)
  | .crash => (.error .crashed, fs)

variable {p : Io β α} {f : α → Io β γ} {fs : Fs β}

theorem bind_cases {fs' : Fs β} {r : Except Stop γ} (h : (p >>= f) fs = (r, fs')) :
    (∃ a fs₁, p fs = (.ok a, fs₁) ∧ f a fs₁ = (r, fs')) ∨
      ∃ e, p fs = (.error e, fs') ∧ r = .error e := by
  change andThen p f fs = _ at h
  rw [andThen] at h
  split at h
  · rename_i a fs₁ hp
    exact .inl ⟨a, fs₁, hp, h⟩
  · rename_i e fs₁ hp
    cases h
    exact .inr ⟨e, hp, rfl⟩

theorem bind_ok {fs₁ : Fs β} {a : α} (h : p fs = (.ok a, fs₁)) : (p >>= f) fs = f a fs₁ := by
  change andThen p f fs = _
  rw [andThen, h]

theorem bind_error {fs₁ : Fs β} {e : Stop} (h : p fs = (.error e, fs₁)) :
    (p >>= f) fs = (.error e, fs₁) := by
  change andThen p f fs = _
  rw [andThen, h]

theorem attempt_cases {o : Outcome} {effect : Fs β → α × Fs β} {fs' : Fs β} {r : Except Stop α}
    (h : attempt o effect fs = (r, fs')) : (o = .ok ∧ r = .ok (effect fs).1 ∧ fs' = (effect fs).2) ∨
      ∃ e, r = .error e ∧ fs' = fs ∧ (e = .err → o = .fail) := by
  cases o with
  | ok =>
    cases h
    exact .inl ⟨rfl, rfl, rfl⟩
  | fail =>
    cases h
    exact .inr ⟨_, rfl, rfl, fun _ => rfl⟩
  | crash =>
    cases h
    exact .inr ⟨_, rfl, rfl, nofun⟩

end Io

/-! ## The operations -/

section Ops

variable {β : Type}

def Fs.update (fs : Fs β) (id : Nat) (f : Inode β → Inode β) : Fs β :=
  { fs with files := Function.update fs.files id (f (fs.files id)) }

@[simp] theorem Fs.update_entry (fs : Fs β) (id : Nat) (f : Inode β → Inode β) :
    (fs.update id f).entry = fs.entry := rfl

@[simp] theorem Fs.update_self (fs : Fs β) (id : Nat) (f : Inode β → Inode β) :
    (fs.update id f).files id = f (fs.files id) := Function.update_self ..

theorem Fs.update_ne (fs : Fs β) {id j : Nat} (f : Inode β → Inode β) (hne : j ≠ id) :
    (fs.update id f).files j = fs.files j := Function.update_of_ne hne ..

theorem Fs.update_update (fs : Fs β) (id : Nat) (f g : Inode β → Inode β) :
    (fs.update id f).update id g = fs.update id fun i => g (f i) := by
  simp only [Fs.update, Function.update_self, Function.update_idem]

/-- A new empty file, under a name that is not looked at again. -/
def create (o : Outcome) : Io β Nat :=
  Io.attempt o fun fs =>
    (fs.next, { fs with files := Function.update fs.files fs.next ⟨[], []⟩, next := fs.next + 1 })

/-- A write that does not succeed may have written a part. -/
def write (o : Outcome) (written : Nat) (id : Nat) (bytes : List β) : Io β Unit := fun fs =>
  match o with
  | .ok => (.ok (), fs.update id fun i => { i with pending := i.pending ++ bytes })
  | .fail =>
    (.error .err, fs.update id fun i => { i with pending := i.pending ++ bytes.take written })
  | .crash =>
    (.error .crashed, fs.update id fun i => { i with pending := i.pending ++ bytes.take written })

def sync (o : Outcome) (id : Nat) : Io β Unit :=
  Io.attempt o fun fs => ((), fs.update id fun i => ⟨i.content, []⟩)

def rename (o : Outcome) (id : Nat) : Io β Unit :=
  Io.attempt o fun fs => ((), { fs with entry := some id, older := fs.entry :: fs.older })

def syncDir (o : Outcome) : Io β Unit := Io.attempt o fun fs => ((), { fs with older := [] })

/-- A file that is not there cannot be opened. -/
def reopen (o : Outcome) : Io β Nat := fun fs =>
  match fs.entry with
  | none => (.error .err, fs)
  | some id => Io.attempt o (fun fs => (id, fs)) fs

/-- `none` is a file that is not there. -/
def read (o : Outcome) : Io β (Option (List β)) :=
  Io.attempt o fun fs => (fs.entry.map fun id => (fs.files id).content, fs)

/-- The machine goes down: the name stands for one of the files it may stand for, and
every file has lost what was not synced from some point on. -/
def Fs.lose (fs : Fs β) (choice : Nat) (kept : Nat → Nat) : Fs β :=
  { fs with
    files := fun id => ⟨(fs.files id).torn (kept id), []⟩
    entry := ((fs.entry :: fs.older)[choice]?).getD fs.entry
    older := [] }

/-! ## The two changes -/

structure AppendLuck where
  write : Outcome
  written : Nat
  sync : Outcome
deriving DecidableEq, Repr

def append (luck : AppendLuck) (id : Nat) (bytes : List β) : Io β Unit := do
  write luck.write luck.written id bytes
  sync luck.sync id

structure ReplaceLuck where
  create : Outcome
  write : Outcome
  written : Nat
  sync : Outcome
  rename : Outcome
  syncDir : Outcome
  reopen : Outcome
deriving DecidableEq, Repr

/-- A synced copy in a new file. -/
def stage (luck : ReplaceLuck) (bytes : List β) : Io β Nat := do
  let id ← create luck.create
  write luck.write luck.written id bytes
  sync luck.sync id
  pure id

/-- The directory is only synced if the name has one. -/
def syncParent (o : Outcome) (hasDir : Bool) : Io β Unit := if hasDir then syncDir o else pure ()

/-- The copy takes the name. -/
def install (luck : ReplaceLuck) (hasDir : Bool) (id : Nat) : Io β Nat := do
  rename luck.rename id
  syncParent luck.syncDir hasDir
  reopen luck.reopen

/-- A synced copy is renamed over the name; the result is the file to append to. -/
def replace (luck : ReplaceLuck) (hasDir : Bool) (bytes : List β) : Io β Nat := do
  let id ← stage luck bytes
  install luck hasDir id

end Ops

/-! ## Changes that go well -/

section Well

variable {β : Type}

def AppendLuck.good : AppendLuck := ⟨.ok, 0, .ok⟩

def ReplaceLuck.good : ReplaceLuck := ⟨.ok, .ok, 0, .ok, .ok, .ok, .ok⟩

theorem append_good (id : Nat) (bytes : List β) (fs : Fs β) : append .good id bytes fs =
    (.ok (), fs.update id fun i => ⟨i.content ++ bytes, []⟩) := by
  have hwrite : write .ok 0 id bytes fs =
      (.ok (), fs.update id fun i => { i with pending := i.pending ++ bytes }) := rfl
  refine (Io.bind_ok hwrite).trans ?_
  change (Except.ok (), Fs.update _ id fun i => ⟨i.content, []⟩) = _
  rw [Fs.update_update]
  simp only [Inode.content, List.append_assoc]

/-- A synced copy in a new file. -/
def Fs.staged (fs : Fs β) (bytes : List β) : Fs β :=
  { fs with files := Function.update fs.files fs.next ⟨bytes, []⟩, next := fs.next + 1 }

theorem stage_good {luck : ReplaceLuck} (hcreate : luck.create = .ok) (hwrite : luck.write = .ok)
    (hsync : luck.sync = .ok) (bytes : List β) (fs : Fs β) :
    stage luck bytes fs = (.ok fs.next, fs.staged bytes) := by
  cases luck
  cases hcreate
  cases hwrite
  cases hsync
  refine (Io.bind_ok (p := create .ok) (a := fs.next) rfl).trans ?_
  refine (Io.bind_ok (p := write .ok _ fs.next bytes) (a := ()) rfl).trans ?_
  refine (Io.bind_ok (p := sync .ok fs.next) (a := ()) rfl).trans ?_
  change (Except.ok fs.next, (_ : Fs β)) = _
  simp [Fs.update, Fs.staged, Inode.content]

theorem replace_good (bytes : List β) (fs : Fs β) : replace .good true bytes fs =
    (.ok fs.next, { fs.staged bytes with entry := some fs.next, older := [] }) :=
  Io.bind_ok (stage_good rfl rfl rfl bytes fs)

/-- The directory cannot be synced: the copy has the name, and there is an error. -/
theorem replace_syncDir_fail (bytes : List β) (fs : Fs β) :
    replace { ReplaceLuck.good with syncDir := .fail } true bytes fs =
      (.error .err,
        { fs.staged bytes with entry := some fs.next, older := fs.entry :: fs.older }) :=
  Io.bind_ok (stage_good rfl rfl rfl bytes fs)

theorem replace_create_fail (hasDir : Bool) (bytes : List β) (fs : Fs β) :
    replace { ReplaceLuck.good with create := .fail } hasDir bytes fs = (.error .err, fs) := rfl

end Well

/-! ## What is found after a crash -/

section Survives

variable {β : Type} {good : List β → Prop} {fs fs' : Fs β}

/-- The content of an entry with some bytes lost. -/
def Fs.shown (fs : Fs β) (kept : Nat) : Option Nat → List β
  | none => []
  | some id => (fs.files id).torn kept

/-- Whatever a crash leaves under the name is `good`. -/
structure Survives (good : List β → Prop) (fs : Fs β) : Prop where
  shown : ∀ e ∈ fs.entry :: fs.older, ∀ kept, good (fs.shown kept e)
  known : ∀ id, some id ∈ fs.entry :: fs.older → id < fs.next

theorem Survives.mono {good' : List β → Prop} (h : Survives good fs)
    (himp : ∀ b, good b → good' b) : Survives good' fs :=
  ⟨fun e he kept => himp _ (h.shown e he kept), h.known⟩

/-- The content the name shows now. -/
theorem Survives.content (h : Survives good fs) :
    good ((fs.entry.map fun id => (fs.files id).content).getD []) := by
  cases he : fs.entry with
  | none =>
    have hshown := h.shown none (by rw [he]; exact List.mem_cons_self) 0
    exact hshown
  | some id =>
    have hshown := h.shown (some id) (by rw [he]; exact List.mem_cons_self)
      (fs.files id).pending.length
    rw [Fs.shown, Inode.torn_length] at hshown
    exact hshown

theorem Survives.lose (h : Survives good fs) (choice : Nat) (kept : Nat → Nat) :
    Survives good (fs.lose choice kept) := by
  have hentry : (fs.lose choice kept).entry ∈ fs.entry :: fs.older := by
    change ((fs.entry :: fs.older)[choice]?).getD fs.entry ∈ _
    cases hget : (fs.entry :: fs.older)[choice]? with
    | none => exact List.mem_cons_self
    | some e => exact List.mem_of_getElem? hget
  constructor
  · intro e he k
    obtain rfl := List.mem_singleton.mp he
    have hgood : ∀ kept, good (fs.shown kept _) := h.shown _ hentry
    cases hid : (fs.lose choice kept).entry with
    | none =>
      rw [hid] at hgood
      exact hgood 0
    | some id =>
      rw [hid] at hgood
      change good ((⟨(fs.files id).torn (kept id), []⟩ : Inode β).torn k)
      rw [Inode.torn_synced]
      exact hgood (kept id)
  · intro id hid
    exact h.known id (List.mem_singleton.mp hid ▸ hentry)

theorem Survives.syncDir (h : Survives good fs) : Survives good { fs with older := [] } := by
  refine ⟨fun e he kept => ?_, fun id hid => ?_⟩
  · have hgood := h.shown e (List.mem_cons.mpr (.inl (List.mem_singleton.mp he))) kept
    cases e with
    | none | some id => exact hgood
  · exact h.known id (List.mem_cons.mpr (.inl (List.mem_singleton.mp hid)))

variable {id : Nat} {o : Outcome} {bytes : List β} {r : Except Stop Nat} {luck : ReplaceLuck}

/-- A change of a file the name cannot stand for. -/
theorem Survives.update (h : Survives good fs) (f : Inode β → Inode β)
    (hid : some id ∉ fs.entry :: fs.older) : Survives good (fs.update id f) := by
  refine ⟨fun e he kept => ?_, h.known⟩
  have hgood := h.shown e he kept
  cases e with
  | none => exact hgood
  | some j =>
    have hne : j ≠ id := fun hj => hid (hj ▸ he)
    rw [Fs.shown, fs.update_ne f hne]
    exact hgood

/-- A change of the file the name stands for. -/
theorem Survives.update_entry {good' : List β → Prop} (h : Survives good fs)
    (f : Inode β → Inode β) (hentry : fs.entry = some id) (holder : fs.older = [])
    (hf : ∀ kept, good' ((f (fs.files id)).torn kept)) : Survives good' (fs.update id f) := by
  refine ⟨fun e he kept => ?_, h.known⟩
  have he' : e = some id := by
    have hmem : e ∈ fs.entry :: fs.older := he
    rw [hentry, holder] at hmem
    exact List.mem_singleton.mp hmem
  rw [he', Fs.shown, Fs.update_self]
  exact hf kept

theorem write_cases {n : Nat} {r : Except Stop Unit} (h : write o n id bytes fs = (r, fs')) :
    (r = .ok () ∧ fs' = fs.update id fun i => { i with pending := i.pending ++ bytes }) ∨
      ∃ e, r = .error e ∧
        fs' = fs.update id fun i => { i with pending := i.pending ++ bytes.take n } := by
  cases o with
  | ok =>
    cases h
    exact .inl ⟨rfl, rfl⟩
  | fail | crash =>
    cases h
    exact .inr ⟨_, rfl, rfl⟩

theorem create_cases (h : create o fs = (r, fs')) : (r = .ok fs.next ∧ fs' = { fs with
      files := Function.update fs.files fs.next ⟨[], []⟩, next := fs.next + 1 }) ∨
      ∃ e, r = .error e ∧ fs' = fs := by
  rcases Io.attempt_cases h with ⟨-, hr, hfs⟩ | ⟨e, hr, hfs, -⟩
  · exact .inl ⟨hr, hfs⟩
  · exact .inr ⟨e, hr, hfs⟩

theorem sync_cases {r : Except Stop Unit} (h : sync o id fs = (r, fs')) :
    (r = .ok () ∧ fs' = fs.update id fun i => ⟨i.content, []⟩) ∨ ∃ e, r = .error e ∧ fs' = fs := by
  rcases Io.attempt_cases h with ⟨-, hr, hfs⟩ | ⟨e, hr, hfs, -⟩
  · exact .inl ⟨hr, hfs⟩
  · exact .inr ⟨e, hr, hfs⟩

/-- An append leaves a synced file that ends with the bytes, or it does not succeed
and some of them may be there. -/
theorem append_cases {luck : AppendLuck} {r : Except Stop Unit}
    (h : append luck id bytes fs = (r, fs')) :
    (r = .ok () ∧ fs' = fs.update id fun i => ⟨i.content ++ bytes, []⟩) ∨
      ∃ e n, r = .error e ∧
        fs' = fs.update id fun i => { i with pending := i.pending ++ bytes.take n } := by
  rcases Io.bind_cases h with ⟨u, fs₁, hwrite, hsync⟩ | ⟨e, hwrite, rfl⟩
  · rcases write_cases hwrite with ⟨-, rfl⟩ | ⟨e, hr, -⟩
    · rcases sync_cases hsync with ⟨rfl, rfl⟩ | ⟨e, rfl, rfl⟩
      · refine .inl ⟨rfl, ?_⟩
        rw [Fs.update_update]
        simp only [Inode.content, List.append_assoc]
      · exact .inr ⟨e, bytes.length, rfl, by rw [List.take_length]⟩
    · cases hr
  · rcases write_cases hwrite with ⟨hr, -⟩ | ⟨e', hr, hfs⟩
    · cases hr
    · exact .inr ⟨e, luck.written, rfl, hfs⟩

/-- Two file systems that show the same under the name. -/
structure SameEntry (fs fs' : Fs β) : Prop where
  entry : fs'.entry = fs.entry
  older : fs'.older = fs.older
  files : ∀ id, some id ∈ fs.entry :: fs.older → fs'.files id = fs.files id

theorem SameEntry.refl (fs : Fs β) : SameEntry fs fs := ⟨rfl, rfl, fun _ _ => rfl⟩

/-- A copy is being made in a file the name cannot stand for. -/
structure Staged (good : List β → Prop) (fs fs' : Fs β) (id : Nat) : Prop where
  survives : Survives good fs'
  same : SameEntry fs fs'
  known : id < fs'.next
  apart : some id ∉ fs'.entry :: fs'.older

theorem Staged.update (h : Staged good fs fs' id) (f : Inode β → Inode β) :
    Staged good fs (fs'.update id f) id where
  survives := h.survives.update f h.apart
  same := by
    refine ⟨h.same.entry, h.same.older, fun j hj => ?_⟩
    have hne : j ≠ id := by
      rintro rfl
      rw [← h.same.entry, ← h.same.older] at hj
      exact h.apart hj
    rw [Fs.update_ne _ f hne]
    exact h.same.files j hj
  known := h.known
  apart := h.apart

theorem staged_create (hs : Survives good fs) : Staged good fs { fs with
    files := Function.update fs.files fs.next ⟨[], []⟩, next := fs.next + 1 } fs.next := by
  have hne : ∀ id, some id ∈ fs.entry :: fs.older → id ≠ fs.next := fun id hid =>
    Nat.ne_of_lt (hs.known id hid)
  refine ⟨⟨fun e he kept => ?_, fun id hid => Nat.lt_succ_of_lt (hs.known id hid)⟩,
    ⟨rfl, rfl, fun id hid => Function.update_of_ne (hne id hid) ..⟩, Nat.lt_succ_self _,
    fun hid => hne _ hid rfl⟩
  have hgood := hs.shown e he kept
  cases e with
  | none => exact hgood
  | some id =>
    change good (Inode.torn (Function.update fs.files fs.next ⟨[], []⟩ id) kept)
    rw [Function.update_of_ne (hne id he)]
    exact hgood

/-- The copy takes the name. -/
theorem Staged.renamed (h : Staged good fs fs' id) (hfile : fs'.files id = ⟨bytes, []⟩)
    (hbytes : good bytes) :
    Survives good { fs' with entry := some id, older := fs'.entry :: fs'.older } := by
  constructor
  · intro e he kept
    rcases List.mem_cons.mp he with rfl | he
    · change good ((fs'.files id).torn kept)
      rw [hfile, Inode.torn_synced]
      exact hbytes
    · have hgood := h.survives.shown e he kept
      cases e with
      | none | some j => exact hgood
  · intro j hj
    rcases List.mem_cons.mp hj with hj | hj
    · exact Option.some.inj hj ▸ h.known
    · exact h.survives.known j hj

theorem stage_cases (h : stage luck bytes fs = (r, fs')) (hs : Survives good fs) :
    (∃ id, r = .ok id ∧ Staged good fs fs' id ∧ fs'.files id = ⟨bytes, []⟩) ∨
      (∃ e, r = .error e) ∧ Survives good fs' ∧ SameEntry fs fs' := by
  have hcreated := staged_create hs
  rcases Io.bind_cases h with ⟨id, fs₁, hcreate, hrest⟩ | ⟨e, hcreate, rfl⟩
  · rcases create_cases hcreate with ⟨hr, rfl⟩ | ⟨e, hr, -⟩
    · cases hr
      rcases Io.bind_cases hrest with ⟨u, fs₂, hwrite, hrest⟩ | ⟨e, hwrite, rfl⟩
      · rcases write_cases hwrite with ⟨-, rfl⟩ | ⟨e, hr, -⟩
        · rcases Io.bind_cases hrest with ⟨u, fs₃, hsync, hrest⟩ | ⟨e, hsync, rfl⟩
          · rcases sync_cases hsync with ⟨-, rfl⟩ | ⟨e, hr, -⟩
            · cases hrest
              refine .inl ⟨_, rfl, (hcreated.update _).update _, ?_⟩
              simp [Inode.content]
            · cases hr
          · rcases sync_cases hsync with ⟨hr, -⟩ | ⟨-, -, rfl⟩
            · cases hr
            · exact .inr ⟨⟨e, rfl⟩, (hcreated.update _).survives, (hcreated.update _).same⟩
        · cases hr
      · rcases write_cases hwrite with ⟨hr, -⟩ | ⟨-, -, rfl⟩
        · cases hr
        · exact .inr ⟨⟨e, rfl⟩, (hcreated.update _).survives, (hcreated.update _).same⟩
    · cases hr
  · rcases create_cases hcreate with ⟨hr, -⟩ | ⟨-, -, rfl⟩
    · cases hr
    · exact .inr ⟨⟨e, rfl⟩, hs, .refl _⟩

/-- The name stands for one file with the given bytes. -/
structure Installed (bytes : List β) (hasDir : Bool) (fs : Fs β) (id : Nat) : Prop where
  entry : fs.entry = some id
  file : fs.files id = ⟨bytes, []⟩
  only : hasDir = true → fs.older = []

theorem install_cases {hasDir : Bool} (h : install luck hasDir id fs = (r, fs'))
    (hfile : fs.files id = ⟨bytes, []⟩)
    (hs : Survives good { fs with entry := some id, older := fs.entry :: fs.older }) :
    (r = .ok id ∧ Survives good fs' ∧ Installed bytes hasDir fs' id) ∨
      ∃ e, r = .error e ∧ (fs' = fs ∨ Survives good fs' ∧
        (e = .err → luck.syncDir = .fail ∨ luck.reopen = .fail)) := by
  rcases Io.bind_cases h with ⟨u, fs₁, hrename, hrest⟩ | ⟨e, hrename, rfl⟩
  · rcases Io.attempt_cases hrename with ⟨-, -, rfl⟩ | ⟨e, hr, -⟩
    · rcases Io.bind_cases hrest with ⟨u, fs₂, hdir, hopen⟩ | ⟨e, hdir, rfl⟩
      · obtain ⟨hinstalled, hsurvives⟩ : Installed bytes hasDir fs₂ id ∧ Survives good fs₂ := by
          cases hasDir with
          | false =>
            obtain ⟨-, rfl⟩ := Prod.mk.inj hdir
            exact ⟨⟨rfl, hfile, nofun⟩, hs⟩
          | true =>
            change syncDir luck.syncDir _ = _ at hdir
            rcases Io.attempt_cases hdir with ⟨-, -, rfl⟩ | ⟨e, hr, -⟩
            · exact ⟨⟨rfl, hfile, fun _ => rfl⟩, hs.syncDir⟩
            · cases hr
        rw [reopen, hinstalled.entry] at hopen
        rcases Io.attempt_cases hopen with ⟨-, rfl, rfl⟩ | ⟨e, rfl, rfl, hfail⟩
        · exact .inl ⟨rfl, hsurvives, hinstalled⟩
        · exact .inr ⟨e, rfl, .inr ⟨hsurvives, fun he => .inr (hfail he)⟩⟩
      · refine .inr ⟨e, rfl, .inr ?_⟩
        cases hasDir with
        | false => cases hdir
        | true =>
          change syncDir luck.syncDir _ = _ at hdir
          rcases Io.attempt_cases hdir with ⟨-, hr, -⟩ | ⟨e', hr, rfl, hfail⟩
          · cases hr
          · cases hr
            exact ⟨hs, fun he => .inl (hfail he)⟩
    · cases hr
  · rcases Io.attempt_cases hrename with ⟨-, hr, -⟩ | ⟨-, -, rfl, -⟩
    · cases hr
    · exact .inr ⟨e, rfl, .inl rfl⟩

/-- A replacement is all or nothing for what survives. When it succeeds the name stands
for the new file; when it fails before the rename nothing has changed. -/
theorem replace_survives {hasDir : Bool} (h : replace luck hasDir bytes fs = (r, fs'))
    (hs : Survives good fs) (hbytes : good bytes) :
    Survives good fs' ∧ (∀ id, r = .ok id → Installed bytes hasDir fs' id) ∧
      (r = .error .err → luck.syncDir ≠ .fail → luck.reopen ≠ .fail → SameEntry fs fs') := by
  rcases Io.bind_cases h with ⟨id, fs₁, hstage, hinstall⟩ | ⟨e, hstage, rfl⟩
  · rcases stage_cases hstage hs with ⟨id', hr, hstaged, hfile⟩ | ⟨⟨e, hr⟩, -⟩
    · cases hr
      rcases install_cases hinstall hfile (hstaged.renamed hfile hbytes) with
        ⟨rfl, hsurvives, hinstalled⟩ | ⟨e, rfl, rfl | ⟨hsurvives, hfail⟩⟩
      · exact ⟨hsurvives, fun j hj => Except.ok.inj hj ▸ hinstalled, nofun⟩
      · exact ⟨hstaged.survives, nofun, fun _ _ _ => hstaged.same⟩
      · refine ⟨hsurvives, nofun, fun he hdir hopen => ?_⟩
        rcases hfail (Except.error.inj he) with h | h
        · exact absurd h hdir
        · exact absurd h hopen
    · cases hr
  · rcases stage_cases hstage hs with ⟨id', hr, -⟩ | ⟨-, hsurvives, hsame⟩
    · cases hr
    · exact ⟨hsurvives, nofun, fun _ _ _ => hsame⟩

end Survives

end CrashFile
