import LayerSdk.WriterGas

/-!
# One program on two backends

The same calls on a `MemoryStore` and on a `RockStore`. Two stores that differ
at most in the entry RocksDB keeps its hash under, with writers that have the
same pending changes, answer alike and stay so (`Twin.step`), and with them
every run (`backends_agree`).

What has to be left out is a write at the empty key, which RocksDB refuses at
once and the memory store only when it commits, and a read of the hash itself.
-/

namespace LayerSdk

/-! ## A store and its users -/

/-- What is done to a store. A memory store is locked while a reader is open, so
a reader is opened for one call; at most one writer is open. -/
inductive DbCall where
  | openWriter
  | call (c : StorageCall)
  | read (key : Bytes)
  | readRange (start stop : Option Bytes) (order : Order)
  | commit
  | abort
deriving DecidableEq

structure Db where
  store : Persistent
  writer : Option Writer

/-- `MemoryStore::new` and a database that was just created. -/
def Db.fresh (b : Backend) : Db := ⟨⟨b, ∅, List.replicate 32 0⟩, none⟩

/-- A call on a writer that is not open cannot be written in the source; it is
skipped. -/
def Db.step (H : Bytes → Digest) (d : Db) (m : GasMeter) :
    DbCall → Option (Db × GasMeter × GasResult CallAnswer)
  | .openWriter => some ({ d with writer := some (d.writer.getD d.store.writer) }, m, .ok .done)
  | .call c =>
    match d.writer with
    | none => some (d, m, .ok .done)
    | some w => (c.run (dbWriter d.store.backend) w m).map fun x =>
      ({ d with writer := some x.1 }, x.2)
  | .read key => ((StorageCall.get key).run (dbReader d.store.backend) d.store.data m).map
      fun x => (d, x.2)
  | .readRange start stop order =>
    ((StorageCall.range start stop order).run (dbReader d.store.backend) d.store.data m).map
      fun x => (d, x.2)
  | .commit =>
    match d.writer with
    | none => some (d, m, .ok .done)
    | some w => (d.store.commit H w m).map fun x =>
      (⟨x.1, none⟩, x.2.1, x.2.2.map fun _ => .done)
  | .abort => some ({ d with writer := none }, m, .ok .done)

/-- The answers of a run; a panic ends it. -/
def Db.answers (H : Bytes → Digest) : List DbCall → Db → GasMeter →
    List (Option (GasResult CallAnswer))
  | [], _, _ => []
  | c :: cs, d, m =>
    match d.step H m c with
    | none => [none]
    | some (d', m', r) => some r :: answers H cs d' m'

/-- A range without the entries that are not consensus state. -/
def CallAnswer.dropSidecars : CallAnswer → CallAnswer
  | .entries rs => .entries (rs.filter fun r => !isSidecar r.1)
  | a => a

/-- The answers that are compared. -/
def Db.shown (H : Bytes → Digest) (calls : List DbCall) (d : Db) (m : GasMeter) :
    List (Option (GasResult CallAnswer)) :=
  (d.answers H calls m).map (Option.map (Except.map CallAnswer.dropSidecars))

/-- With gas enough, the run on a new memory store answers as on a new RocksDB store. -/
def SameAnswers (H : Bytes → Digest) (calls : List DbCall) : Prop :=
  ∃ bound, ∀ limit, bound ≤ limit →
    (Db.fresh .memory).shown H calls (.new limit) = (Db.fresh .rock).shown H calls (.new limit)

/-- No write at the empty key, and no read of the app hash. -/
def DbCall.Plain : DbCall → Prop
  | .call (.get key) => key ≠ appHashKey
  | .call (.set key _) => key ≠ []
  | .call (.remove key) => key ≠ []
  | .read key => key ≠ appHashKey
  | _ => True

/-- The same entries, but for the app hash. -/
def SameEntries (s t : Store) : Prop := ∀ k, k ≠ appHashKey → s[k]? = t[k]?

/-- A memory store and a RocksDB store in the same state. -/
structure Twin (d e : Db) : Prop where
  memory : d.store.backend = .memory
  rock : e.store.backend = .rock
  entries : SameEntries d.store.data e.store.data
  writers : Option.Rel (fun w w' => KeyedOverlay w.changes ∧
    Paired d.store.data e.store.data w.changes w w') d.writer e.writer

section Twin

variable {H : Bytes → Digest} {d e : Db} {s t : Store} {w w' : Writer} {ov : Overlay}

theorem isSidecar_appHashKey : isSidecar appHashKey = true := by decide

theorem SameEntries.shown (h : SameEntries s t) (start stop : Option Bytes) (order : Order) :
    (CallAnswer.entries (mapRange s start stop order)).dropSidecars =
      (CallAnswer.entries (mapRange t start stop order)).dropSidecars := by
  refine congrArg CallAnswer.entries ?_
  have harranged (u : Store) :
      Arranged order ((mapRange u start stop order).filter fun r => !isSidecar r.1) :=
    (arranged_mapRange u start stop order).filter _
  refine (harranged s).eq_of_mem_iff (harranged t) ?_
  rintro ⟨k, v⟩
  simp only [List.mem_filter, mem_mapRange]
  by_cases hk : k = appHashKey
  · rw [hk, isSidecar_appHashKey]
    simp
  · rw [h k hk]

theorem Paired.sameEntries (h : Paired s t ov w w') (hst : SameEntries s t) :
    SameEntries w.view w'.view := by
  intro k hk
  rw [Writer.getElem?_view, Writer.getElem?_view, h.left, h.right, h.memory, h.rock, hst k hk]

variable {c : StorageCall} {m : GasMeter}

/-- Answers of stores with the same entries. -/
theorem SameEntries.answer (h : SameEntries s t) (hc : ∀ key, c = .get key → key ≠ appHashKey) :
    (c.answer s).dropSidecars = (c.answer t).dropSidecars := by
  cases c with
  | get key => rw [StorageCall.answer, StorageCall.answer, h key (hc key rfl)]
  | range start stop order => exact h.shown start stop order
  | set key value | remove key => rfl

theorem Costs.live {α : Type} {f : GasMeter → GasMeter × GasResult α} {gas : Nat} {a : α}
    (hf : Costs f gas a) (hm : m.used + gas < m.limit) :
    f m = ({ m with used := m.used + gas }, .ok a) := by
  have hlive : ¬ Exhausted m := by
    simp only [Exhausted]
    omega
  exact (hf m hlive).1 hm

/-- A read through a reader. -/
theorem run_reader (b : Backend) (data : Store) (hc : c.write = none) :
    ∃ gas, ∀ m : GasMeter, m.used + gas < m.limit → c.run (dbReader b) data m =
      some (data, { m with used := m.used + gas }, .ok (c.answer data)) := by
  rw [dbReader_eq]
  cases c with
  | get key =>
    have hget := (costs_persistedGet data key).map CallAnswer.value
    exact ⟨_, fun m hm => congrArg (fun x => some (data, x)) (hget.live hm)⟩
  | range start stop order =>
    obtain ⟨it, hit, hrecords, -⟩ := costs_persistedRange b data start stop order
    obtain ⟨g, hg, hrun⟩ := costs_consume (h := reader b) (s := data) hit fun m => rfl
    refine ⟨openCost b start stop + it.cost, fun m hm => ?_⟩
    rw [hrun, hg.live hm, hrecords]
    rfl
  | set key value | remove key => cases hc

/-- With this gas the call is made, and this is its answer. -/
def Db.Performs (H : Bytes → Digest) (c : DbCall) (d : Db) (gas : Nat) (d' : Db)
    (a : CallAnswer) : Prop :=
  ∀ m : GasMeter, m.used + gas < m.limit →
    d.step H m c = some (d', { m with used := m.used + gas }, .ok a)

/-- Both stores make the call, answer alike and are twins again. -/
def Agree (H : Bytes → Digest) (c : DbCall) (d e : Db) : Prop :=
  ∃ gas gas' d' e' a a', d.Performs H c gas d' a ∧ e.Performs H c gas' e' a' ∧
    Twin d' e' ∧ a.dropSidecars = a'.dropSidecars

/-- A step that charges nothing. -/
theorem Db.performs_free {c : DbCall} {d' : Db} {a : CallAnswer}
    (h : ∀ m, ¬ Exhausted m → d.step H m c = some (d', m, .ok a)) : d.Performs H c 0 d' a :=
  fun m hm => h m (Nat.not_le.mpr hm)

theorem Twin.withWriters (h : Twin d e) (hkeyed : KeyedOverlay ov)
    (hpair : Paired d.store.data e.store.data ov w w') :
    Twin { d with writer := some w } { e with writer := some w' } where
  memory := h.memory
  rock := h.rock
  entries := h.entries
  writers := .some (by rw [hpair.left]; exact ⟨hkeyed, hpair⟩)

theorem Twin.noWriters (h : Twin d e) :
    Twin { d with writer := none } { e with writer := none } where
  memory := h.memory
  rock := h.rock
  entries := h.entries
  writers := .none

theorem agree_openWriter (h : Twin d e) : Agree H .openWriter d e := by
  refine ⟨0, 0, _, _, .done, .done, Db.performs_free fun m _ => rfl,
    Db.performs_free fun m _ => rfl, ?_, rfl⟩
  obtain ⟨p, wd⟩ := d
  obtain ⟨q, we⟩ := e
  cases h.writers with
  | none => exact h.withWriters KeyedOverlay.empty ⟨rfl, rfl, rfl, rfl⟩
  | some hw => exact h.withWriters hw.1 hw.2

theorem KeyedOverlay.call (hov : KeyedOverlay ov) (hc : c.Taken .rock) :
    KeyedOverlay (c.changes ov) := by
  rw [StorageCall.changes]
  split
  · exact hov
  · rename_i key dl hwrite
    exact hov.insert (hc rfl key dl hwrite) dl

theorem agree_call (h : Twin d e) (hc : (DbCall.call c).Plain) : Agree H (.call c) d e := by
  have htaken : c.Taken .rock := by
    rintro - key dl hwrite
    cases c with
    | get key | range start stop order => cases hwrite
    | set key value | remove key => exact (Prod.mk.inj (Option.some.inj hwrite)).1 ▸ hc
  have hread : ∀ key, c = .get key → key ≠ appHashKey := by
    rintro key rfl
    exact hc
  obtain ⟨p, wd⟩ := d
  obtain ⟨q, we⟩ := e
  have hp : p.backend = .memory := h.memory
  have hq : q.backend = .rock := h.rock
  cases h.writers with
  | none =>
    exact ⟨0, 0, _, _, .done, .done, Db.performs_free fun m _ => rfl,
      Db.performs_free fun m _ => rfl, h, rfl⟩
  | @some w w' hw =>
    obtain ⟨w₁, hmade, hrun⟩ := run_call (w := w) (taken_memory c)
    obtain ⟨w₁', hmade', hrun'⟩ := run_call (w := w') htaken
    refine ⟨c.gas .memory w, c.gas .rock w', ⟨p, some w₁⟩, ⟨q, some w₁'⟩, _, _,
      fun m hm => ?_, fun m hm => ?_,
      h.withWriters (hw.1.call htaken) (hw.2.step hmade hmade'),
      (hw.2.sameEntries h.entries).answer hread⟩
    · change (c.run (dbWriter p.backend) w m).map _ = _
      rw [hp, (hrun m (by simp only [Exhausted]; omega)).1 hm]
      rfl
    · change (c.run (dbWriter q.backend) w' m).map _ = _
      rw [hq, (hrun' m (by simp only [Exhausted]; omega)).1 hm]
      rfl

theorem agree_read (h : Twin d e) (hc : c.write = none)
    (hkey : ∀ key, c = .get key → key ≠ appHashKey) {call : DbCall}
    (hstep : ∀ (d : Db) m, d.step H m call =
      (c.run (dbReader d.store.backend) d.store.data m).map fun x => (d, x.2)) :
    Agree H call d e := by
  obtain ⟨gas, hrun⟩ := run_reader d.store.backend d.store.data hc
  obtain ⟨gas', hrun'⟩ := run_reader e.store.backend e.store.data hc
  refine ⟨gas, gas', d, e, _, _, fun m hm => ?_, fun m hm => ?_, h, h.entries.answer hkey⟩
  · rw [hstep, hrun m hm]
    rfl
  · rw [hstep, hrun' m hm]
    rfl

theorem agree_commit (h : Twin d e) : Agree H .commit d e := by
  obtain ⟨p, wd⟩ := d
  obtain ⟨q, we⟩ := e
  have hp : p.backend = .memory := h.memory
  have hq : q.backend = .rock := h.rock
  cases h.writers with
  | none =>
    exact ⟨0, 0, _, _, .done, .done, Db.performs_free fun m _ => rfl,
      Db.performs_free fun m _ => rfl, h, rfl⟩
  | @some w w' hw =>
    obtain ⟨f, hops⟩ : ∃ f, w.changes.toList.foldlM FastHasher.apply (.new p.hash) = some f :=
      ⟨_, (foldlM_apply_iff _ _ _).mpr ⟨fun x hx => hw.1.ne_nil_of_mem hx, rfl⟩⟩
    refine ⟨0, 0, ⟨{ p with data := w.view, hash := f.hash H }, none⟩,
      ⟨{ q with data := w'.view.insert appHashKey (w'.hasher.hash H) }, none⟩, .done, .done,
      Db.performs_free fun m hm => ?_, Db.performs_free fun m _ => ?_, ?_, rfl⟩
    · simp only [Db.step, Persistent.commit, hp, memoryCommitOps_live (Nat.not_le.mp hm), hops]
      rfl
    · simp only [Db.step, Persistent.commit, hq]
      rfl
    · refine ⟨hp, hq, fun k hk => ?_, .none⟩
      rw [Std.ExtTreeMap.getElem?_insert, if_neg (by simpa using hk.symm)]
      exact hw.2.sameEntries h.entries k hk

theorem Twin.step (h : Twin d e) {c : DbCall} (hc : c.Plain) : Agree H c d e := by
  cases c with
  | openWriter => exact agree_openWriter h
  | call c => exact agree_call h hc
  | read key =>
    refine agree_read h (c := .get key) rfl ?_ fun _ _ => rfl
    rintro _ ⟨⟩
    exact hc
  | readRange start stop order =>
    exact agree_read h (c := .range start stop order) rfl nofun fun _ _ => rfl
  | commit => exact agree_commit h
  | abort =>
    exact ⟨0, 0, _, _, .done, .done, Db.performs_free fun m _ => rfl,
      Db.performs_free fun m _ => rfl, h.noWriters, rfl⟩

theorem Db.shown_cons {c : DbCall} {calls : List DbCall} {d' : Db} {m' : GasMeter}
    {a : CallAnswer} (h : d.step H m c = some (d', m', .ok a)) :
    d.shown H (c :: calls) m = some (.ok a.dropSidecars) :: d'.shown H calls m' := by
  simp only [shown, answers, h, List.map_cons]
  rfl

theorem Db.shown_none {c : DbCall} {calls : List DbCall} (h : d.step H m c = none) :
    d.shown H (c :: calls) m = [none] := by
  simp only [shown, answers, h, List.map_cons]
  rfl

/-- Twins answer a whole run alike. -/
theorem Twin.shown_eq : ∀ {calls : List DbCall} {d e : Db}, Twin d e → (∀ c ∈ calls, c.Plain) →
    ∃ bound, ∀ m n : GasMeter, m.used + bound < m.limit → n.used + bound < n.limit →
      d.shown H calls m = e.shown H calls n
  | [], _, _, _, _ => ⟨0, fun _ _ _ _ => rfl⟩
  | c :: calls, d, e, h, hcalls => by
    obtain ⟨gas, gas', d', e', a, a', hd, he, htwin, heq⟩ :=
      h.step (H := H) (hcalls c List.mem_cons_self)
    obtain ⟨bound, hrest⟩ := htwin.shown_eq fun c hc => hcalls c (List.mem_cons_of_mem _ hc)
    refine ⟨gas + gas' + bound, fun m n hm hn => ?_⟩
    rw [Db.shown_cons (hd m (by omega)), Db.shown_cons (he n (by omega)), heq,
      hrest ⟨m.limit, m.used + gas⟩ ⟨n.limit, n.used + gas'⟩ (by simp only; omega)
        (by simp only; omega)]

end Twin

theorem twin_fresh : Twin (.fresh .memory) (.fresh .rock) where
  memory := rfl
  rock := rfl
  entries := fun _ _ => rfl
  writers := .none

/-- **The backends hold the same data**: without a write at the empty key and a read
of the app hash, no run tells them apart. -/
theorem backends_agree (H : Bytes → Digest) (calls : List DbCall) (h : ∀ c ∈ calls, c.Plain) :
    SameAnswers H calls := by
  obtain ⟨bound, hsame⟩ := twin_fresh.shown_eq (H := H) h
  refine ⟨bound + 1, fun limit hlimit => hsame _ _ ?_ ?_⟩
  · simp only [GasMeter.new]
    omega
  · simp only [GasMeter.new]
    omega

/-- A writer commits an entry, another drops one, and the store is read both ways. -/
def plainCalls : List DbCall :=
  [.openWriter, .call (.set [1] [2]), .commit, .openWriter, .call (.remove [1]),
    .call (.range (some [2]) (some [1]) .descending), .abort, .read [1],
    .readRange none none .ascending]

theorem backends_agree_sample : SameAnswers sha256 plainCalls :=
  backends_agree sha256 plainCalls (by simp [plainCalls, DbCall.Plain, appHashKey])

theorem Db.step_read {H : Bytes → Digest} {d : Db} {m m' : GasMeter} {key : Bytes}
    {r : GasResult CallAnswer} (h : (StorageCall.get key).run (dbReader d.store.backend)
      d.store.data m = some (d.store.data, m', r)) : d.step H m (.read key) = some (d, m', r) := by
  simp only [step, h]
  rfl

theorem Db.fresh_openWriter (H : Bytes → Digest) (b : Backend) (calls : List DbCall)
    (m : GasMeter) : (Db.fresh b).shown H (.openWriter :: calls) m =
      some (.ok .done) ::
        Db.shown H calls ⟨(Db.fresh b).store, some (Db.fresh b).store.writer⟩ m :=
  Db.shown_cons (a := .done) rfl

/-- RocksDB refuses a write at the empty key when it is made, and shows the hash of
the last commit under `_app_hash`. -/
theorem backends_differ :
    ¬ SameAnswers sha256 [.openWriter, .call (.set [] [7])] ∧
      ¬ SameAnswers sha256 [.openWriter, .commit, .read appHashKey] := by
  constructor
  · rintro ⟨bound, hsame⟩
    have hlive : ¬ Exhausted (.new (bound + 1)) := by simp [Exhausted, GasMeter.new]
    have hpanic : Db.step sha256 ⟨(Db.fresh .rock).store, some (Db.fresh .rock).store.writer⟩
        (.new (bound + 1)) (.call (.set [] [7])) = none := by
      simp only [Db.step]
      exact congrArg (Option.map _) (run_call_panics rfl hlive)
    have hboth := hsame (bound + 1) (Nat.le_succ _)
    rw [Db.fresh_openWriter, Db.fresh_openWriter, Db.shown_none hpanic, Db.shown_cons rfl] at hboth
    cases hboth
  · rintro ⟨bound, hsame⟩
    let w := (Db.fresh .rock).store.writer
    let data := w.view.insert appHashKey (w.hasher.hash sha256)
    obtain ⟨gas, hread⟩ := run_reader .memory ∅ (c := .get appHashKey) rfl
    obtain ⟨gas', hread'⟩ := run_reader .rock data (c := .get appHashKey) rfl
    let m := GasMeter.new (bound + gas + gas' + 1)
    have hcommit : Db.step sha256 ⟨(Db.fresh .memory).store, some (Db.fresh .memory).store.writer⟩
        m .commit = some (⟨(Db.fresh .memory).store, none⟩, m, .ok .done) := rfl
    have hcommit' : Db.step sha256 ⟨(Db.fresh .rock).store, some w⟩ m .commit =
        some (⟨⟨.rock, data, List.replicate 32 0⟩, none⟩, m, .ok .done) := rfl
    have hshown := Db.step_read (H := sha256) (d := ⟨(Db.fresh .memory).store, none⟩)
      (hread m (by simp only [m, GasMeter.new]; omega))
    have hshown' := Db.step_read (H := sha256) (d := ⟨⟨.rock, data, List.replicate 32 0⟩, none⟩)
      (hread' m (by simp only [m, GasMeter.new]; omega))
    have hboth := hsame (bound + gas + gas' + 1) (by omega)
    rw [Db.fresh_openWriter, Db.fresh_openWriter, Db.shown_cons hcommit, Db.shown_cons hcommit',
      Db.shown_cons hshown, Db.shown_cons hshown'] at hboth
    simp [StorageCall.answer, CallAnswer.dropSidecars, data] at hboth

end LayerSdk
