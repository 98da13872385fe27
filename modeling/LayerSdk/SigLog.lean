import LayerSdk.CrashFile
import LayerSdk.FifoMemo
import LayerSdk.HybridCert
import LayerSdk.Snapshot

/-!
# The memo of released signatures

A validator that signs a message twice must send the same bytes, also after a
restart. `SigCache` remembers what was signed, and with a log attached a
signature is released only once its record is synced. The log is rewritten to
what is remembered when it is opened and when it has grown too long.

A run is any sequence of calls of `sign`, process ends, losses of unsynced
data and restarts, with any outcome for every file operation.
-/

namespace LayerSdk

open CrashFile FifoMemo

/-! ## The source's functions -/

def sigCacheCap : Nat := 8192

def maxLoggedMsg : Nat := 4096

def encodeRecord (msg : Bytes) (sig : MayoSig) : Bytes := u32le msg.length ++ msg ++ sig.val

abbrev SigRecord := Bytes × MayoSig

def encodeAll (records : List SigRecord) : Bytes := records.flatMap fun r => encodeRecord r.1 r.2

/-- The records of a file, up to the first that is not whole or too long. -/
def decodeRecords (rest : Bytes) : List SigRecord :=
  let len := fromU32le (rest.take 4)
  if h : 4 ≤ rest.length ∧ len ≤ maxLoggedMsg ∧ 4 + len + mayo2SigBytes ≤ rest.length then
    ((rest.drop 4).take len, ⟨(rest.drop (4 + len)).take mayo2SigBytes, by
      rw [List.length_take, List.length_drop]; omega⟩) ::
        decodeRecords (rest.drop (4 + len + mayo2SigBytes))
  else []
termination_by rest.length
decreasing_by
  rw [List.length_drop]
  omega

abbrev SigMemo := Memo Bytes MayoSig

/-- The handle of the log. -/
structure SigLog where
  file : Nat
  records : Nat
  failed : Bool

structure SigCache where
  memo : SigMemo
  log : SigLog

/-- An entry that is not in the table is a panic. -/
def SigLog.rewrite (luck : ReplaceLuck) (hasDir : Bool) (memo : SigMemo) : Io UInt8 SigLog :=
  match memo.entries with
  | none => fun fs => (.error .crashed, fs)
  | some records => do
    let file ← replace luck hasDir (encodeAll records)
    pure ⟨file, records.length, false⟩

/-- Whether the record is synced; `none` is the end of the process. -/
def SigLog.append (luck : AppendLuck) (log : SigLog) (msg : Bytes) (sig : MayoSig)
    (fs : Fs UInt8) : Option (SigLog × Bool) × Fs UInt8 :=
  if log.failed then (some (log, false), fs)
  else
    match CrashFile.append luck log.file (encodeRecord msg sig) fs with
    | (.ok (), fs) => (some ({ log with records := log.records + 1 }, true), fs)
    | (.error .err, fs) => (some ({ log with failed := true }, false), fs)
    | (.error .crashed, fs) => (none, fs)

structure OpenLuck where
  read : Outcome
  rewrite : ReplaceLuck

structure SignLuck where
  append : AppendLuck
  rewrite : ReplaceLuck

namespace SigCache

variable (cap : Nat) (hasDir : Bool)

def openLog (luck : OpenLuck) : Io UInt8 SigCache := do
  let data ← read luck.read
  let memo := Memo.replay cap (decodeRecords (data.getD []))
  let log ← SigLog.rewrite luck.rewrite hasDir memo
  pure ⟨memo, log⟩

/-- Compaction, when the log has more than twice as many records as are kept. -/
def compact (luck : ReplaceLuck) (cache : SigCache) (fs : Fs UInt8) :
    Option (SigCache × Bool) × Fs UInt8 :=
  if cache.log.records > 2 * cap then
    match SigLog.rewrite luck hasDir cache.memo fs with
    | (.ok log, fs) => (some (⟨cache.memo, log⟩, true), fs)
    | (.error .err, fs) => (some (cache, false), fs)
    | (.error .crashed, fs) => (none, fs)
  else (some (cache, true), fs)

/-- Whether the signature may be released. -/
def insert (luck : SignLuck) (cache : SigCache) (msg : Bytes) (sig : MayoSig) (fs : Fs UInt8) :
    Option (SigCache × Bool) × Fs UInt8 :=
  match cache.log.append luck.append msg sig fs with
  | (none, fs) => (none, fs)
  | (some (log, false), fs) => (some (⟨cache.memo, log⟩, false), fs)
  | (some (log, true), fs) =>
    compact cap hasDir luck.rewrite ⟨cache.memo.remember cap msg sig, log⟩ fs

end SigCache

/-! ## Runs -/

/-- The disk, and the process if there is one. -/
structure Validator where
  fs : Fs UInt8
  cache : Option SigCache

/-- A call of `sign`: whether the memo had nothing for the message, and what was
released. -/
structure SignEvent where
  msg : Bytes
  fresh : Bool
  released : Option MayoSig

inductive VoteAction where
  /-- `made` is what the signer would return, `inner` whether the classical half signs. -/
  | sign (msg : Bytes) (made : Option MayoSig) (luck : SignLuck) (inner : Bool)
  | kill
  /-- The machine goes down. -/
  | lose (choice : Nat) (kept : Nat → Nat)
  | restart (luck : OpenLuck)

section Runs

variable (cap : Nat) (hasDir : Bool)

def signWith (msg : Bytes) (made : Option MayoSig) (luck : SignLuck) (inner : Bool)
    (cache : SigCache) (fs : Fs UInt8) : Validator × SignEvent :=
  match cache.memo.table[msg]? with
  | some sig => (⟨fs, some cache⟩, ⟨msg, false, if inner then some sig else none⟩)
  | none =>
    match made with
    | none => (⟨fs, some cache⟩, ⟨msg, true, none⟩)
    | some sig =>
      match cache.insert cap hasDir luck msg sig fs with
      | (none, fs) => (⟨fs, none⟩, ⟨msg, true, none⟩)
      | (some (cache, ok), fs) =>
        (⟨fs, some cache⟩, ⟨msg, true, if ok && inner then some sig else none⟩)

/-- A validator that cannot open its log does not start. -/
def VoteAction.apply (v : Validator) : VoteAction → Option (Validator × Option SignEvent)
  | .sign msg made luck inner =>
    v.cache.map fun cache =>
      let (v, e) := signWith cap hasDir msg made luck inner cache v.fs
      (v, some e)
  | .kill => some (⟨v.fs, none⟩, none)
  | .lose choice kept => if v.cache.isNone then some (⟨v.fs.lose choice kept, none⟩, none) else none
  | .restart luck =>
    if v.cache.isNone then
      match SigCache.openLog cap hasDir luck v.fs with
      | (.ok cache, fs) => some (⟨fs, some cache⟩, none)
      | (.error _, fs) => some (⟨fs, none⟩, none)
    else none

/-- A run with the calls of `sign` it made, the last one first. -/
inductive VoteRun (allowed : VoteAction → Prop) (v₀ : Validator) : List SignEvent → Validator → Prop
  | start : VoteRun allowed v₀ [] v₀
  | step {log : List SignEvent} {v v' : Validator} {a : VoteAction} {e : Option SignEvent} :
      VoteRun allowed v₀ log v → allowed a → a.apply cap hasDir v = some (v', e) →
      VoteRun allowed v₀ (e.toList ++ log) v'

end Runs

/-- No file, no process. -/
def Validator.initial : Validator := ⟨⟨fun _ => ⟨[], []⟩, 0, none, []⟩, none⟩

/-! ## Records -/

theorem length_encodeRecord (msg : Bytes) (sig : MayoSig) :
    (encodeRecord msg sig).length = 4 + msg.length + mayo2SigBytes := by
  rw [encodeRecord, List.length_append, List.length_append, length_u32le, sig.property]

theorem take_encodeRecord (msg : Bytes) (sig : MayoSig) (rest : Bytes) :
    (encodeRecord msg sig ++ rest).take 4 = u32le msg.length := by
  rw [encodeRecord, List.append_assoc, List.append_assoc]
  exact List.take_left' (length_u32le _)

theorem decodeRecords_encodeRecord {msg : Bytes} (sig : MayoSig) (rest : Bytes)
    (h : msg.length ≤ maxLoggedMsg) :
    decodeRecords (encodeRecord msg sig ++ rest) = (msg, sig) :: decodeRecords rest := by
  have hval : fromU32le ((encodeRecord msg sig ++ rest).take 4) = msg.length := by
    rw [take_encodeRecord, fromU32le_u32le]
    have : maxLoggedMsg < 2 ^ 32 := by decide
    omega
  have hlen : 4 + msg.length + mayo2SigBytes ≤ (encodeRecord msg sig ++ rest).length := by
    rw [List.length_append, length_encodeRecord]
    omega
  have hmsg : ((encodeRecord msg sig ++ rest).drop 4).take msg.length = msg := by
    rw [encodeRecord, List.append_assoc, List.append_assoc, List.drop_left' (length_u32le _),
      List.take_left' rfl]
  have hsig : ((encodeRecord msg sig ++ rest).drop (4 + msg.length)).take mayo2SigBytes =
      sig.val := by
    rw [encodeRecord, List.append_assoc, List.drop_left'
      (by rw [List.length_append, length_u32le]), List.take_left' sig.property]
  have hrest : (encodeRecord msg sig ++ rest).drop (4 + msg.length + mayo2SigBytes) = rest :=
    List.drop_left' (length_encodeRecord msg sig)
  rw [decodeRecords]
  simp only [hval, hmsg, hsig, hrest]
  rw [dif_pos ⟨by omega, h, hlen⟩]

/-- A record that is not whole is not read. -/
theorem decodeRecords_torn {msg : Bytes} {sig : MayoSig} {n : Nat} (h : msg.length ≤ maxLoggedMsg)
    (hn : n < (encodeRecord msg sig).length) :
    decodeRecords ((encodeRecord msg sig).take n) = [] := by
  rw [decodeRecords]
  refine dif_neg fun ⟨hfour, hlen, hwhole⟩ => ?_
  rw [List.length_take, Nat.min_eq_left (Nat.le_of_lt hn)] at hfour hwhole
  have hval : fromU32le (((encodeRecord msg sig).take n).take 4) = msg.length := by
    have hhead := take_encodeRecord msg sig []
    rw [List.append_nil] at hhead
    rw [List.take_take, Nat.min_eq_left hfour, hhead, fromU32le_u32le]
    have : maxLoggedMsg < 2 ^ 32 := by decide
    omega
  rw [hval] at hwhole
  rw [length_encodeRecord] at hn
  omega

theorem decodeRecords_encodeAll : ∀ {records : List SigRecord} (tail : Bytes),
    (∀ r ∈ records, r.1.length ≤ maxLoggedMsg) →
    decodeRecords (encodeAll records ++ tail) = records ++ decodeRecords tail
  | [], tail, _ => rfl
  | r :: rest, tail, h => by
    rw [encodeAll, List.flatMap_cons, List.append_assoc,
      decodeRecords_encodeRecord r.2 _ (h r (List.mem_cons_self)), List.cons_append]
    exact congrArg _ (decodeRecords_encodeAll tail fun r hr => h r (List.mem_cons_of_mem _ hr))

theorem decodeRecords_nil : decodeRecords [] = [] := by
  rw [decodeRecords]
  exact dif_neg fun h => absurd h.1 (by decide)

theorem short_of_mem_decodeRecords {b : Bytes} :
    ∀ r ∈ decodeRecords b, r.1.length ≤ maxLoggedMsg := by
  induction b using decodeRecords.induct with
  | case1 rest len h ih =>
    rw [decodeRecords, dif_pos h]
    refine List.forall_mem_cons.mpr ⟨?_, ih⟩
    exact le_trans (List.length_take_le ..) h.2.1
  | case2 rest len h =>
    rw [decodeRecords, dif_neg h]
    nofun

/-! ## What the file and the memo hold -/

/-- `P` holds of the memo that the bytes are loaded into. -/
def LoadsAs (cap : Nat) (P : SigMemo → Prop) (bytes : Bytes) : Prop :=
  P (Memo.replay cap (decodeRecords bytes))

/-- `P` holds of the memo of the process and of any that a restart can load. -/
structure Everywhere (cap : Nat) (P : SigMemo → Prop) (v : Validator) : Prop where
  disk : Survives (LoadsAs cap P) v.fs
  memory : ∀ cache, v.cache = some cache → P cache.memo

/-- The memo of records that can be read back. -/
def Holds (cap : Nat) (memo : SigMemo) (records : List SigRecord) : Prop :=
  (∀ r ∈ records, r.1.length ≤ maxLoggedMsg) ∧ Memo.replay cap records = memo

/-- A memo that differs at most by one call of `remember`. -/
def Nearby (cap : Nat) (memo memo' : SigMemo) : Prop :=
  memo' = memo ∨ ∃ x sig, x ∉ memo.table ∧ memo' = memo.remember cap x sig

/-- The handle is the file under the name, and unless a write has failed the file holds
what the memo holds. -/
structure Attached (cap : Nat) (fs : Fs UInt8) (cache : SigCache) : Prop where
  entry : fs.entry = some cache.log.file
  older : fs.older = []
  near : Survives (LoadsAs cap (Nearby cap cache.memo)) fs
  records : ∃ records, Holds cap cache.memo records ∧
    (cache.log.failed = false → fs.files cache.log.file = ⟨encodeAll records, []⟩)

section Holds

variable {cap : Nat} {fs fs' : Fs UInt8} {memo : SigMemo} {records : List SigRecord}
  {cache : SigCache} {P P' : SigMemo → Prop} {x : Bytes} {sig : MayoSig}

theorem Holds.wf (h : Holds cap memo records) : memo.Wf cap := h.2 ▸ Memo.wf_replay cap records

theorem Holds.short (h : Holds cap memo records) (hx : x ∈ memo.table) :
    x.length ≤ maxLoggedMsg := by
  rw [← h.2] at hx
  obtain ⟨r, hr, rfl⟩ := List.mem_map.mp (Memo.mem_replay hx)
  exact h.1 r hr

theorem Holds.decode (h : Holds cap memo records) :
    Memo.replay cap (decodeRecords (encodeAll records)) = memo := by
  have hall := decodeRecords_encodeAll [] h.1
  rw [decodeRecords_nil, List.append_nil, List.append_nil] at hall
  rw [hall, h.2]

theorem Holds.loads_iff (h : Holds cap memo records) :
    LoadsAs cap P (encodeAll records) ↔ P memo := by
  rw [LoadsAs, h.decode]

theorem Holds.remember (h : Holds cap memo records) (hx : x.length ≤ maxLoggedMsg) :
    Holds cap (memo.remember cap x sig) (records ++ [(x, sig)]) := by
  refine ⟨fun r hr => ?_, by rw [Memo.replay_append, h.2]⟩
  rcases List.mem_append.mp hr with hr | hr
  · exact h.1 r hr
  · exact List.mem_singleton.mp hr ▸ hx

/-- After part of a record there is the old memo or the new one. -/
theorem Holds.torn (h : Holds cap memo records) (hx : x.length ≤ maxLoggedMsg) (n : Nat) :
    LoadsAs cap (fun m => m = memo ∨ m = memo.remember cap x sig)
      (encodeAll records ++ (encodeRecord x sig).take n) := by
  rw [LoadsAs, decodeRecords_encodeAll _ h.1]
  by_cases hn : n < (encodeRecord x sig).length
  · rw [decodeRecords_torn hx hn, List.append_nil]
    exact .inl h.2
  · have hdecode := decodeRecords_encodeRecord sig [] hx
    rw [List.append_nil, decodeRecords_nil] at hdecode
    rw [List.take_of_length_le (Nat.le_of_not_lt hn), hdecode]
    exact .inr (h.remember hx).2

/-- The entries of a memo hold it. -/
theorem Holds.entries (h : Holds cap memo records) :
    ∃ records', memo.entries = some records' ∧ records'.map Prod.fst = memo.order ∧
      Holds cap memo records' := by
  obtain ⟨records', hentries, hfst, hreplay⟩ := h.wf.replay_entries
  refine ⟨records', hentries, hfst, fun r hr => h.short ?_, hreplay⟩
  rw [← h.wf.mem, ← hfst]
  exact List.mem_map_of_mem hr

theorem holds_decodeRecords {c : Nat} (bytes : Bytes) :
    Holds c (Memo.replay c (decodeRecords bytes)) (decodeRecords bytes) :=
  ⟨short_of_mem_decodeRecords, rfl⟩

theorem Attached.wf (h : Attached cap fs cache) : cache.memo.Wf cap := by
  obtain ⟨records, hholds, -⟩ := h.records
  exact hholds.wf

/-- Where there is only a file with whole records, a restart loads them. -/
theorem exact_of_file {id : Nat} (hentry : fs.entry = some id) (holder : fs.older = [])
    (hfile : fs.files id = ⟨encodeAll records, []⟩) (hholds : Holds cap memo records)
    (hs : Survives (LoadsAs cap P) fs) : Survives (LoadsAs cap (· = memo)) fs := by
  refine ⟨fun e he kept => ?_, hs.known⟩
  rw [hentry, holder] at he
  rw [List.mem_singleton.mp he, Fs.shown, hfile, Inode.torn_synced]
  exact hholds.loads_iff.mpr rfl

theorem attached_of_file {log : SigLog} (hentry : fs.entry = some log.file) (holder : fs.older = [])
    (hfile : fs.files log.file = ⟨encodeAll records, []⟩) (hholds : Holds cap memo records)
    (hs : Survives (LoadsAs cap P) fs) : Attached cap fs ⟨memo, log⟩ :=
  ⟨hentry, holder, (exact_of_file hentry holder hfile hholds hs).mono fun _ => .inl, records,
    hholds, fun _ => hfile⟩

end Holds

/-! ## One call -/

section Calls

variable {cap : Nat} {fs fs' : Fs UInt8} {memo : SigMemo} {records : List SigRecord}
  {cache : SigCache} {P P' : SigMemo → Prop} {x : Bytes} {sig : MayoSig}

theorem rewrite_cases {luck : ReplaceLuck} {r : Except Stop SigLog}
    (h : SigLog.rewrite luck true memo fs = (r, fs')) (hholds : Holds cap memo records)
    (hs : Survives (LoadsAs cap P) fs) (hP : P memo) :
    Survives (LoadsAs cap P) fs' ∧
      (∀ log, r = .ok log → ∃ records, Holds cap memo records ∧ fs'.entry = some log.file ∧
        fs'.older = [] ∧ fs'.files log.file = ⟨encodeAll records, []⟩) ∧
      (r = .error .err → luck.syncDir ≠ .fail → luck.reopen ≠ .fail → SameEntry fs fs') := by
  obtain ⟨records', hentries, -, hholds'⟩ := hholds.entries
  rw [SigLog.rewrite, hentries] at h
  have hbytes : LoadsAs cap P (encodeAll records') := hholds'.loads_iff.mpr hP
  rcases Io.bind_cases h with ⟨file, fs₁, hreplace, hret⟩ | ⟨e, hreplace, rfl⟩
  · obtain ⟨hsurvives, hinstalled, -⟩ := replace_survives hreplace hs hbytes
    cases hret
    have hfile := hinstalled file rfl
    refine ⟨hsurvives, fun log hlog => ?_, nofun⟩
    cases hlog
    exact ⟨records', hholds', hfile.entry, hfile.only rfl, hfile.file⟩
  · obtain ⟨hsurvives, -, hsame⟩ := replace_survives hreplace hs hbytes
    exact ⟨hsurvives, nofun, fun he => hsame (by rw [Except.error.inj he])⟩

theorem openLog_cases {luck : OpenLuck} {r : Except Stop SigCache}
    (h : SigCache.openLog cap true luck fs = (r, fs')) (hs : Survives (LoadsAs cap P) fs) :
    Survives (LoadsAs cap P) fs' ∧ ∀ cache, r = .ok cache →
      Attached cap fs' cache ∧ P cache.memo ∧ Survives (LoadsAs cap (· = cache.memo)) fs' := by
  rcases Io.bind_cases h with ⟨data, fs₁, hread, hrest⟩ | ⟨e, hread, rfl⟩
  · rcases Io.attempt_cases hread with ⟨-, hdata, rfl⟩ | ⟨e, hr, -⟩
    · cases hdata
      have hP := hs.content
      have hholds := holds_decodeRecords (c := cap)
        ((fs₁.entry.map fun id => (fs₁.files id).content).getD [])
      rcases Io.bind_cases hrest with ⟨log, fs₂, hrewrite, hret⟩ | ⟨e, hrewrite, rfl⟩
      · obtain ⟨hsurvives, hok, -⟩ := rewrite_cases hrewrite hholds hs hP
        cases hret
        refine ⟨hsurvives, fun cache hcache => ?_⟩
        cases hcache
        obtain ⟨records, hrecords, hentry, holder, hfile⟩ := hok log rfl
        exact ⟨attached_of_file hentry holder hfile hrecords hsurvives, hP,
          exact_of_file hentry holder hfile hrecords hsurvives⟩
      · exact ⟨(rewrite_cases hrewrite hholds hs hP).1, nofun⟩
    · cases hr
  · rcases Io.attempt_cases hread with ⟨-, hr, -⟩ | ⟨e', hr, rfl, -⟩
    · cases hr
    · exact ⟨hs, nofun⟩

theorem Attached.same (h : Attached cap fs cache) (hsame : SameEntry fs fs')
    (hs : Survives (LoadsAs cap (Nearby cap cache.memo)) fs') : Attached cap fs' cache := by
  obtain ⟨records, hholds, hfile⟩ := h.records
  refine ⟨hsame.entry.trans h.entry, hsame.older.trans h.older, hs, records, hholds, fun hf => ?_⟩
  rw [hsame.files _ (by rw [h.entry]; exact List.mem_cons_self)]
  exact hfile hf

/-- What `compact` does to a log that is up to date. -/
theorem compact_cases {luck : ReplaceLuck} {r : Option (SigCache × Bool)}
    (h : cache.compact cap true luck fs = (r, fs')) (ht : Attached cap fs cache)
    (hexact : Survives (LoadsAs cap (· = cache.memo)) fs) (hdir : luck.syncDir ≠ .fail)
    (hopen : luck.reopen ≠ .fail) :
    Survives (LoadsAs cap (· = cache.memo)) fs' ∧
      ∀ cache' ok, r = some (cache', ok) → Attached cap fs' cache' ∧ cache'.memo = cache.memo := by
  rw [SigCache.compact] at h
  split at h
  · obtain ⟨records, hholds, -⟩ := ht.records
    split at h
    · rename_i log fs₁ hrewrite
      cases h
      obtain ⟨hsurvives, hok, -⟩ := rewrite_cases hrewrite hholds hexact rfl
      refine ⟨hsurvives, fun cache' ok hr => ?_⟩
      cases hr
      obtain ⟨records', hholds', hentry, holder, hfile⟩ := hok log rfl
      exact ⟨attached_of_file hentry holder hfile hholds' hsurvives, rfl⟩
    · rename_i fs₁ hrewrite
      cases h
      obtain ⟨hsurvives, -, hsame⟩ := rewrite_cases hrewrite hholds hexact rfl
      refine ⟨hsurvives, fun cache' ok hr => ?_⟩
      cases hr
      exact ⟨ht.same (hsame rfl hdir hopen) (hsurvives.mono fun _ => .inl), rfl⟩
    · rename_i fs₁ hrewrite
      cases h
      exact ⟨(rewrite_cases hrewrite hholds hexact rfl).1, nofun⟩
  · cases h
    refine ⟨hexact, fun cache' ok hr => ?_⟩
    cases hr
    exact ⟨ht, rfl⟩

/-- What the end of the file may be after a write that did not succeed. -/
def Unsure (cap : Nat) (memo : SigMemo) (x : Bytes) (sig : MayoSig) (m : SigMemo) : Prop :=
  m = memo ∨ m = memo.remember cap x sig

theorem append_attached {luck : AppendLuck} {r : Option (SigLog × Bool)}
    (h : cache.log.append luck x sig fs = (r, fs')) (ht : Attached cap fs cache)
    (hx : x ∉ cache.memo.table) (hshort : x.length ≤ maxLoggedMsg) :
    (r = some (cache.log, false) ∧ fs' = fs) ∨
      (Survives (LoadsAs cap (Unsure cap cache.memo x sig)) fs' ∧
        ∀ log ok, r = some (log, ok) → ok = false ∧ Attached cap fs' ⟨cache.memo, log⟩) ∨
      ∃ log, r = some (log, true) ∧ Attached cap fs' ⟨cache.memo.remember cap x sig, log⟩ ∧
        Survives (LoadsAs cap (· = cache.memo.remember cap x sig)) fs' := by
  rw [SigLog.append] at h
  by_cases hfailed : cache.log.failed = true
  · rw [if_pos hfailed] at h
    cases h
    exact .inl ⟨rfl, rfl⟩
  rw [if_neg hfailed] at h
  obtain ⟨records, hholds, hfile⟩ := ht.records
  have hfile := hfile (Bool.eq_false_iff.mpr hfailed)
  rcases hres : CrashFile.append luck cache.log.file (encodeRecord x sig) fs with ⟨res, fs₁⟩
  rw [hres] at h
  rcases append_cases hres with ⟨rfl, rfl⟩ | ⟨e, n, rfl, rfl⟩
  · cases h
    have hrecords : Holds cap (cache.memo.remember cap x sig) (records ++ [(x, sig)]) :=
      hholds.remember hshort
    have hwritten : (⟨(fs.files cache.log.file).content ++ encodeRecord x sig, []⟩ : Inode UInt8) =
        ⟨encodeAll (records ++ [(x, sig)]), []⟩ := by
      rw [hfile]
      simp [Inode.content, encodeAll]
    have hs : Survives (LoadsAs cap (· = cache.memo.remember cap x sig)) (fs.update cache.log.file
        fun i => ⟨i.content ++ encodeRecord x sig, []⟩) :=
      ht.near.update_entry _ ht.entry ht.older fun kept => by
        rw [hwritten, Inode.torn_synced]
        exact hrecords.loads_iff.mpr rfl
    refine .inr (.inr ⟨_, rfl, attached_of_file ht.entry ht.older ?_ hrecords hs, hs⟩)
    exact (Fs.update_self ..).trans hwritten
  · refine .inr (.inl ?_)
    have hs : Survives (LoadsAs cap (Unsure cap cache.memo x sig)) (fs.update cache.log.file
        fun i => { i with pending := i.pending ++ (encodeRecord x sig).take n }) :=
      ht.near.update_entry _ ht.entry ht.older fun kept => by
        rw [hfile, Inode.torn, List.nil_append, List.take_take]
        exact hholds.torn hshort _
    cases e with
    | err =>
      cases h
      refine ⟨hs, fun log ok hr => ?_⟩
      cases hr
      refine ⟨rfl, ht.entry, ht.older, hs.mono fun b hb => ?_, records, hholds, fun hf => ?_⟩
      · exact Or.imp_right (fun hm => ⟨x, sig, hx, hm⟩) hb
      · cases hf
    | crashed =>
      cases h
      refine ⟨hs, fun log ok hr => ?_⟩
      cases hr

/-- What a call of `sign` does to the memo and the file. -/
inductive Signed (cap : Nat) (fs : Fs UInt8) (cache : SigCache) (x : Bytes) :
    Validator → SignEvent → Prop
  | hit {sig : MayoSig} {released : Option MayoSig} : cache.memo.table[x]? = some sig →
      (∀ s, released = some s → s = sig) →
      Signed cap fs cache x ⟨fs, some cache⟩ ⟨x, false, released⟩
  | refused : x ∉ cache.memo.table → Signed cap fs cache x ⟨fs, some cache⟩ ⟨x, true, none⟩
  | unsure {sig : MayoSig} {v : Validator} : x ∉ cache.memo.table →
      Survives (LoadsAs cap (Unsure cap cache.memo x sig)) v.fs →
      (∀ cache', v.cache = some cache' → Attached cap v.fs cache' ∧ cache'.memo = cache.memo) →
      Signed cap fs cache x v ⟨x, true, none⟩
  | stored {sig : MayoSig} {v : Validator} {released : Option MayoSig} : x ∉ cache.memo.table →
      Survives (LoadsAs cap (· = cache.memo.remember cap x sig)) v.fs →
      (∀ cache', v.cache = some cache' →
        Attached cap v.fs cache' ∧ cache'.memo = cache.memo.remember cap x sig) →
      (∀ s, released = some s → s = sig) → Signed cap fs cache x v ⟨x, true, released⟩

/-- The calls the result is about: short messages, and no compaction that fails after
its rename. -/
def VoteAction.Sound : VoteAction → Prop
  | .sign msg _ luck _ =>
    msg.length ≤ maxLoggedMsg ∧ luck.rewrite.syncDir ≠ .fail ∧ luck.rewrite.reopen ≠ .fail
  | _ => True

theorem eq_of_ite_eq_some {c : Prop} [Decidable c] {s : MayoSig}
    (h : (if c then some sig else none) = some s) : s = sig := by
  split at h
  · exact (Option.some.inj h).symm
  · cases h

theorem signed_of_signWith {made : Option MayoSig} {luck : SignLuck} {inner : Bool} {v : Validator}
    {e : SignEvent} (h : signWith cap true x made luck inner cache fs = (v, e))
    (ha : Attached cap fs cache) (hsound : (VoteAction.sign x made luck inner).Sound) :
    Signed cap fs cache x v e := by
  obtain ⟨hshort, hdir, hopen⟩ := hsound
  rw [signWith.eq_def] at h
  cases hget : cache.memo.table[x]? with
  | some sig =>
    rw [hget] at h
    cases h
    exact .hit hget fun s hs => eq_of_ite_eq_some hs
  | none =>
    rw [hget] at h
    have hx : x ∉ cache.memo.table := OrdMap.not_mem_of_getElem? hget
    cases made with
    | none =>
      cases h
      exact .refused hx
    | some sig =>
      dsimp only at h
      rcases hins : cache.insert cap true luck x sig fs with ⟨r, fs₁⟩
      rw [hins] at h
      rw [SigCache.insert] at hins
      rcases happ : cache.log.append luck.append x sig fs with ⟨r₀, fs₀⟩
      rw [happ] at hins
      rcases append_attached happ ha hx hshort with
        ⟨rfl, rfl⟩ | ⟨hs, hattached⟩ | ⟨log, rfl, hattached, hs⟩
      · cases hins
        cases h
        exact .refused hx
      · match r₀ with
        | none =>
          cases hins
          cases h
          exact .unsure hx hs nofun
        | some (log, ok) =>
          obtain ⟨rfl, hlog⟩ := hattached log ok rfl
          cases hins
          cases h
          refine .unsure hx hs fun cache' hcache => ?_
          cases hcache
          exact ⟨hlog, rfl⟩
      · obtain ⟨hexact, hcompact⟩ := compact_cases hins hattached hs hdir hopen
        match r with
        | none =>
          cases h
          exact .stored hx hexact nofun nofun
        | some (cache', ok) =>
          cases h
          refine .stored hx hexact (fun cache'' hcache => ?_) fun s hs => eq_of_ite_eq_some hs
          cases hcache
          exact hcompact _ ok rfl

end Calls

/-! ## Runs keep what was signed -/

/-- A property of memos, and what it becomes when `x` is signed. -/
structure Carries (cap : Nat) (x : Bytes) (P P' : SigMemo → Prop) : Prop where
  mono : ∀ memo, P memo → P' memo
  remember : ∀ memo sig, memo.Wf cap → x ∉ memo.table → P memo → P' (memo.remember cap x sig)

/-- The messages other than `m` signed since the memo last had nothing for `m`. -/
def signedSince (m : Bytes) : List SignEvent → Finset Bytes
  | [] => ∅
  | e :: log =>
    if e.msg = m then if e.fresh then ∅ else signedSince m log
    else insert e.msg (signedSince m log)

/-- The messages other than that of `e` signed from when its signature was made up to
the end of `mid`. -/
def signedAround (e : SignEvent) (mid earlier : List SignEvent) : Finset Bytes :=
  signedSince e.msg (e :: earlier) ∪ (mid.map (·.msg)).toFinset.erase e.msg

structure VoteInv (cap : Nat) (v : Validator) (log : List SignEvent) : Prop where
  attached : ∀ cache, v.cache = some cache → Attached cap v.fs cache
  behind : ∀ m, Everywhere cap (·.Behind m (signedSince m log)) v
  held : ∀ cache m s, v.cache = some cache → cache.memo.table[m]? = some s →
    (signedSince m log).card < cap → Everywhere cap (·.Has m s (signedSince m log)) v
  /-- A released signature stays. -/
  kept : ∀ mid e earlier s, log = mid ++ e :: earlier → e.released = some s →
    (signedAround e mid earlier).card < cap →
    Everywhere cap (·.Has e.msg s (signedAround e mid earlier)) v
  agree : ∀ later e₂ mid e₁ earlier s₁ s₂, log = later ++ e₂ :: (mid ++ e₁ :: earlier) →
    e₂.msg = e₁.msg → e₁.released = some s₁ → e₂.released = some s₂ →
    (signedAround e₁ mid earlier).card < cap → s₂ = s₁

section Inv

variable {cap : Nat} {fs : Fs UInt8} {cache : SigCache} {v v' : Validator} {x m : Bytes}
  {e : SignEvent} {log : List SignEvent} {P P' : SigMemo → Prop} {s : MayoSig} {D : Finset Bytes}

theorem survives_loads (h : Survives (LoadsAs cap P) fs) (himp : ∀ memo, P memo → P' memo) :
    Survives (LoadsAs cap P') fs :=
  h.mono fun _ => himp _

theorem Everywhere.mono (h : Everywhere cap P v) (himp : ∀ memo, P memo → P' memo) :
    Everywhere cap P' v :=
  ⟨survives_loads h.disk himp, fun cache hcache => himp _ (h.memory cache hcache)⟩

theorem Signed.everywhere (h : Signed cap fs cache x v e) (hwf : cache.memo.Wf cap)
    (hc : Carries cap x P P') (hP : Everywhere cap P ⟨fs, some cache⟩) : Everywhere cap P' v := by
  have hmemo : P cache.memo := hP.memory cache rfl
  cases h with
  | hit hget hrel | refused hx => exact hP.mono hc.mono
  | unsure hx hs hcache =>
    refine ⟨survives_loads hs fun memo hb => ?_, fun cache' h' => ?_⟩
    · rcases hb with rfl | rfl
      · exact hc.mono _ hmemo
      · exact hc.remember _ _ hwf hx hmemo
    · exact (hcache cache' h').2 ▸ hc.mono _ hmemo
  | stored hx hs hcache hrel =>
    refine ⟨survives_loads hs ?_, fun cache' h' => ?_⟩
    · rintro _ rfl
      exact hc.remember _ _ hwf hx hmemo
    · exact (hcache cache' h').2 ▸ hc.remember _ _ hwf hx hmemo

theorem carries_behind (hx : x ≠ m) : Carries cap x (·.Behind m D) (·.Behind m (insert x D)) where
  mono := fun _ h => h.mono (Finset.subset_insert ..)
  remember := fun _ _ hwf _ h => h.remember hwf hx

theorem carries_behind_self : Carries cap m (·.Behind m ∅) (·.Behind m ∅) where
  mono := fun _ => id
  remember := fun _ _ hwf hm _ => hwf.behind_self hm

theorem carries_has (hx : x ≠ m) (hcard : (insert x D).card < cap) :
    Carries cap x (·.Has m s D) (·.Has m s (insert x D)) where
  mono := fun _ h => h.mono (Finset.subset_insert ..)
  remember := fun _ _ hwf _ h => h.remember hwf hx hcard

theorem Attached.behind (h : Attached cap fs cache) (hm : m ∉ cache.memo.table) :
    Everywhere cap (·.Behind m ∅) ⟨fs, some cache⟩ := by
  have hmemo : cache.memo.Behind m ∅ := h.wf.behind_of_notMem hm ∅
  refine ⟨survives_loads h.near fun memo hnear => ?_, fun cache' h' => ?_⟩
  · rcases hnear with rfl | ⟨x, sig, hx, rfl⟩
    · exact hmemo
    · by_cases hxm : x = m
      · exact hxm ▸ h.wf.behind_self hx
      · refine (h.wf.remember x sig).behind_of_notMem (fun hmem => ?_) ∅
        rcases h.wf.mem_remember hmem with hmx | hmem
        · exact hxm hmx.symm
        · exact hm hmem
  · exact Option.some.inj h' ▸ hmemo

theorem Signed.attached (h : Signed cap fs cache x v e) (ha : Attached cap fs cache) :
    ∀ cache', v.cache = some cache' → Attached cap v.fs cache' := by
  intro cache' h'
  cases h with
  | hit hget hrel | refused hx => exact Option.some.inj h' ▸ ha
  | unsure hx hs hcache | stored hx hs hcache hrel => exact (hcache cache' h').1

theorem Signed.msg (h : Signed cap fs cache x v e) : e.msg = x := by
  cases h <;> rfl

/-- A call finds the message in the memo exactly if its event is not fresh. -/
theorem Signed.of_get (h : Signed cap fs cache x v e) (hget : cache.memo.table[x]? = some s) :
    v = ⟨fs, some cache⟩ ∧ e.fresh = false ∧ ∀ s', e.released = some s' → s' = s := by
  have hmem : x ∈ cache.memo.table := OrdMap.mem_of_getElem? hget
  cases h with
  | hit hget' hrel =>
    obtain rfl := Option.some.inj (hget'.symm.trans hget)
    exact ⟨rfl, rfl, hrel⟩
  | refused hx | unsure hx _ _ | stored hx _ _ _ => exact absurd hmem hx

/-- A fresh signature that the memo has afterwards or that is released is the newest
everywhere. -/
theorem Signed.has_self (h : Signed cap fs cache x v e) (hwf : cache.memo.Wf cap)
    (hx : x ∉ cache.memo.table) (hcap : 0 < cap)
    (hs : e.released = some s ∨ ∃ cache', v.cache = some cache' ∧ cache'.memo.table[x]? = some s) :
    Everywhere cap (·.Has x s ∅) v := by
  cases h with
  | hit hget hrel => exact absurd (OrdMap.mem_of_getElem? hget) hx
  | refused _ =>
    rcases hs with hs | ⟨cache', h', hs⟩
    · cases hs
    · cases h'
      rw [Std.ExtTreeMap.getElem?_eq_none hx] at hs
      cases hs
  | unsure _ _ hcache =>
    rcases hs with hs | ⟨cache', h', hs⟩
    · cases hs
    · rw [(hcache cache' h').2, Std.ExtTreeMap.getElem?_eq_none hx] at hs
      cases hs
  | @stored sig v released _ hexact hcache hrel =>
    have hget := hwf.getElem?_remember_self (v := sig) hx hcap
    obtain rfl : s = sig := by
      rcases hs with hs | ⟨cache', h', hs⟩
      · exact hrel s hs
      · rw [(hcache cache' h').2, hget] at hs
        exact (Option.some.inj hs).symm
    have hhas : (cache.memo.remember cap x s).Has x s ∅ := ⟨hget, hwf.behind_self hx⟩
    exact ⟨survives_loads hexact fun _ hm => hm ▸ hhas,
      fun cache' h' => (hcache cache' h').2 ▸ hhas⟩

/-- Another message does not put `m` into the memo. -/
theorem Signed.getElem?_of_ne (h : Signed cap fs cache x v e) (hwf : cache.memo.Wf cap)
    (hxm : m ≠ x) {cache' : SigCache} (h' : v.cache = some cache')
    (hget : cache'.memo.table[m]? = some s) : cache.memo.table[m]? = some s := by
  cases h with
  | hit _ _ | refused _ => exact Option.some.inj h' ▸ hget
  | unsure _ _ hcache => exact (hcache cache' h').2 ▸ hget
  | stored _ _ hcache _ =>
    rw [(hcache cache' h').2] at hget
    exact hwf.getElem?_of_remember hxm hget

theorem signedSince_ne (hx : e.msg ≠ m) :
    signedSince m (e :: log) = insert e.msg (signedSince m log) := by
  rw [signedSince, if_neg hx]

theorem signedSince_hit (hx : e.msg = m) (hf : e.fresh = false) :
    signedSince m (e :: log) = signedSince m log := by
  rw [signedSince, if_pos hx, hf, if_neg Bool.false_ne_true]

theorem signedAround_nil (log : List SignEvent) :
    signedAround e [] log = signedSince e.msg (e :: log) := by
  rw [signedAround]
  simp

theorem signedAround_eq {e' : SignEvent} (mid earlier : List SignEvent) (h : e'.msg = e.msg) :
    signedAround e (e' :: mid) earlier = signedAround e mid earlier := by
  rw [signedAround, signedAround, List.map_cons, List.toFinset_cons, h]
  ext y
  simp only [Finset.mem_union, Finset.mem_erase, Finset.mem_insert]
  tauto

theorem signedAround_ne {e' : SignEvent} (mid earlier : List SignEvent) (h : e'.msg ≠ e.msg) :
    signedAround e (e' :: mid) earlier = insert e'.msg (signedAround e mid earlier) := by
  rw [signedAround, signedAround, List.map_cons, List.toFinset_cons,
    Finset.erase_insert_of_ne h, Finset.union_insert]

theorem VoteInv.behind_sign (h : VoteInv cap ⟨fs, some cache⟩ log)
    (hs : Signed cap fs cache x v e) (m : Bytes) :
    Everywhere cap (·.Behind m (signedSince m (e :: log))) v := by
  have ha := h.attached cache rfl
  obtain rfl := hs.msg
  by_cases hm : e.msg = m
  · subst hm
    cases hget : cache.memo.table[e.msg]? with
    | some s =>
      obtain ⟨rfl, hfresh, -⟩ := hs.of_get hget
      rw [signedSince_hit rfl hfresh]
      exact h.behind e.msg
    | none =>
      have hmem : e.msg ∉ cache.memo.table := OrdMap.not_mem_of_getElem? hget
      refine (hs.everywhere ha.wf carries_behind_self (ha.behind hmem)).mono fun _ hb => ?_
      exact hb.mono (Finset.empty_subset _)
  · rw [signedSince_ne hm]
    exact hs.everywhere ha.wf (carries_behind hm) (h.behind m)

/-- What the memo has after a call is held everywhere. -/
theorem VoteInv.held_sign (h : VoteInv cap ⟨fs, some cache⟩ log) (hs : Signed cap fs cache x v e)
    (hcard : (signedSince m (e :: log)).card < cap)
    (hget : (m = e.msg ∧ e.released = some s) ∨
      ∃ cache', v.cache = some cache' ∧ cache'.memo.table[m]? = some s) :
    Everywhere cap (·.Has m s (signedSince m (e :: log))) v := by
  have ha := h.attached cache rfl
  obtain rfl := hs.msg
  by_cases hm : e.msg = m
  · subst hm
    cases hold : cache.memo.table[e.msg]? with
    | some s₀ =>
      obtain ⟨rfl, hfresh, hrel⟩ := hs.of_get hold
      rw [signedSince_hit rfl hfresh] at hcard ⊢
      obtain rfl : s = s₀ := by
        rcases hget with ⟨-, hr⟩ | ⟨cache', h', hget⟩
        · exact hrel s hr
        · cases h'
          exact Option.some.inj (hget.symm.trans hold)
      exact h.held cache e.msg s rfl hold hcard
    | none =>
      have hmem : e.msg ∉ cache.memo.table := OrdMap.not_mem_of_getElem? hold
      refine (hs.has_self ha.wf hmem (Nat.zero_lt_of_lt hcard) ?_).mono fun _ hh =>
        hh.mono (Finset.empty_subset _)
      exact hget.imp_left And.right
  · rw [signedSince_ne hm] at hcard ⊢
    obtain ⟨cache', h', hget⟩ := hget.resolve_left fun hr => hm hr.1.symm
    have hold := hs.getElem?_of_ne ha.wf (Ne.symm hm) h' hget
    have hlt : (signedSince m log).card < cap :=
      lt_of_le_of_lt (Finset.card_le_card (Finset.subset_insert ..)) hcard
    exact hs.everywhere ha.wf (carries_has hm hcard) (h.held cache m s rfl hold hlt)

theorem card_signedAround_le (e' : SignEvent) (mid earlier : List SignEvent) :
    (signedAround e mid earlier).card ≤ (signedAround e (e' :: mid) earlier).card := by
  by_cases he : e'.msg = e.msg
  · rw [signedAround_eq mid earlier he]
  · rw [signedAround_ne mid earlier he]
    exact Finset.card_le_card (Finset.subset_insert ..)

theorem VoteInv.kept_sign (h : VoteInv cap ⟨fs, some cache⟩ log) (hs : Signed cap fs cache x v e)
    {mid earlier : List SignEvent} {e₁ : SignEvent} (hlog : e :: log = mid ++ e₁ :: earlier)
    (hrel : e₁.released = some s) (hcard : (signedAround e₁ mid earlier).card < cap) :
    Everywhere cap (·.Has e₁.msg s (signedAround e₁ mid earlier)) v := by
  have ha := h.attached cache rfl
  cases mid with
  | nil =>
    obtain ⟨rfl, rfl⟩ := List.cons.inj hlog
    rw [signedAround_nil] at hcard ⊢
    exact h.held_sign hs hcard (.inl ⟨rfl, hrel⟩)
  | cons e' mid =>
    obtain ⟨rfl, htail⟩ := List.cons.inj hlog
    obtain rfl := hs.msg
    have hhas := h.kept mid e₁ earlier s htail hrel
      (lt_of_le_of_lt (card_signedAround_le e mid earlier) hcard)
    by_cases he : e.msg = e₁.msg
    · rw [signedAround_eq mid earlier he]
      rw [(hs.of_get (he ▸ (hhas.memory cache rfl).entry)).1]
      exact hhas
    · rw [signedAround_ne mid earlier he] at hcard ⊢
      exact hs.everywhere ha.wf (carries_has he hcard) hhas

theorem VoteInv.sign (h : VoteInv cap ⟨fs, some cache⟩ log) (hs : Signed cap fs cache x v e) :
    VoteInv cap v (e :: log) where
  attached := hs.attached (h.attached cache rfl)
  behind := h.behind_sign hs
  held := fun cache' _ _ h' hget hcard => h.held_sign hs hcard (.inr ⟨cache', h', hget⟩)
  kept := fun _ _ _ _ => h.kept_sign hs
  agree := by
    intro later e₂ mid e₁ earlier s₁ s₂ hlog hmsg hrel₁ hrel₂ hcard
    cases later with
    | nil =>
      obtain ⟨rfl, htail⟩ := List.cons.inj hlog
      have hhas := (h.kept mid e₁ earlier s₁ htail hrel₁ hcard).memory cache rfl
      rw [← hmsg, hs.msg] at hhas
      exact (hs.of_get hhas.entry).2.2 s₂ hrel₂
    | cons e' later =>
      exact h.agree later e₂ mid e₁ earlier s₁ s₂ (List.cons.inj hlog).2 hmsg hrel₁ hrel₂ hcard

/-- A step that signs nothing: what held everywhere does so after it, and a process that
is running has just loaded its memo. -/
theorem VoteInv.quiet (h : VoteInv cap v log)
    (heverywhere : ∀ P, Everywhere cap P v → Everywhere cap P v')
    (hcache : ∀ cache, v'.cache = some cache → Attached cap v'.fs cache ∧
      Survives (LoadsAs cap (· = cache.memo)) v'.fs) : VoteInv cap v' log where
  attached := fun cache h' => (hcache cache h').1
  behind := fun m => heverywhere _ (h.behind m)
  held := by
    intro cache m s h' hget _
    have hhas : cache.memo.Has m s (signedSince m log) :=
      ⟨hget, (heverywhere _ (h.behind m)).memory cache h'⟩
    refine ⟨survives_loads (hcache cache h').2 fun _ hm => hm ▸ hhas, fun cache₁ h₁ => ?_⟩
    obtain rfl := Option.some.inj (h'.symm.trans h₁)
    exact hhas
  kept := fun mid e earlier s hlog hrel hcard =>
    heverywhere _ (h.kept mid e earlier s hlog hrel hcard)
  agree := h.agree

theorem VoteInv.apply {a : VoteAction} {ev : Option SignEvent} (h : VoteInv cap v log)
    (ha : a.Sound) (hstep : a.apply cap true v = some (v', ev)) :
    VoteInv cap v' (ev.toList ++ log) := by
  cases a with
  | sign msg made luck inner =>
    obtain ⟨fs, cache⟩ := v
    cases cache with
    | none => cases hstep
    | some cache =>
      cases hstep
      exact h.sign (signed_of_signWith rfl (h.attached cache rfl) ha)
  | kill =>
    cases hstep
    exact h.quiet (fun P hP => ⟨hP.disk, nofun⟩) nofun
  | lose choice kept =>
    rw [VoteAction.apply] at hstep
    split at hstep
    · cases hstep
      exact h.quiet (fun P hP => ⟨hP.disk.lose choice kept, nofun⟩) nofun
    · cases hstep
  | restart luck =>
    rw [VoteAction.apply] at hstep
    split at hstep
    · split at hstep
      · rename_i cache fs₁ hopen
        cases hstep
        refine h.quiet (fun P hP => ?_) fun cache' h' => ?_
        · obtain ⟨hdisk, hok⟩ := openLog_cases hopen hP.disk
          exact ⟨hdisk, fun cache' h' => Option.some.inj h' ▸ (hok cache rfl).2.1⟩
        · cases h'
          obtain ⟨hattached, -, hexact⟩ := (openLog_cases hopen (h.behind []).disk).2 cache rfl
          exact ⟨hattached, hexact⟩
      · rename_i e fs₁ hopen
        cases hstep
        exact h.quiet (fun P hP => ⟨(openLog_cases hopen hP.disk).1, nofun⟩) nofun
    · cases hstep

theorem voteInv_initial : VoteInv cap .initial [] where
  attached := nofun
  behind := fun m => by
    refine ⟨⟨fun e he kept => ?_, nofun⟩, nofun⟩
    obtain rfl := List.mem_singleton.mp he
    change (Memo.replay cap (decodeRecords [])).Behind m ∅
    rw [decodeRecords_nil]
    exact (Memo.wf_replay cap []).behind_of_notMem Std.ExtTreeMap.not_mem_empty ∅
  held := nofun
  kept := fun mid _ _ _ hlog => by cases mid <;> cases hlog
  agree := fun later _ _ _ _ _ _ hlog => by cases later <;> cases hlog

theorem VoteRun.inv (h : VoteRun cap true VoteAction.Sound .initial log v) : VoteInv cap v log := by
  induction h with
  | start => exact voteInv_initial
  | step _ ha hstep ih => exact ih.apply ha hstep

end Inv

/-! ## Calls with a given outcome -/

section Stale

variable {cap : Nat} {fs fs' : Fs UInt8} {cache cache' : SigCache} {x : Bytes} {sig : MayoSig}
  {luck : SignLuck} {records : List SigRecord}

def VoteAction.Short : VoteAction → Prop
  | .sign msg _ _ _ => msg.length ≤ maxLoggedMsg
  | _ => True

theorem length_u32le_le (n : Nat) : (u32le n).length ≤ maxLoggedMsg := by
  rw [length_u32le]
  decide

theorem insert_append_good (hluck : luck.append = .good) (hfailed : cache.log.failed = false) :
    cache.insert cap true luck x sig fs =
      SigCache.compact cap true luck.rewrite
        ⟨cache.memo.remember cap x sig, { cache.log with records := cache.log.records + 1 }⟩
        (fs.update cache.log.file fun i => ⟨i.content ++ encodeRecord x sig, []⟩) := by
  have happend : cache.log.append luck.append x sig fs =
      (some ({ cache.log with records := cache.log.records + 1 }, true),
        fs.update cache.log.file fun i => ⟨i.content ++ encodeRecord x sig, []⟩) := by
    rw [SigLog.append, if_neg (Bool.eq_false_iff.mp hfailed), hluck, append_good]
  rw [SigCache.insert, happend]

theorem signWith_fresh {ok : Bool} (hx : x ∉ cache.memo.table)
    (h : cache.insert cap true luck x sig fs = (some (cache', ok), fs')) :
    signWith cap true x (some sig) luck true cache fs =
      (⟨fs', some cache'⟩, ⟨x, true, if ok then some sig else none⟩) := by
  rw [signWith.eq_def, Std.ExtTreeMap.getElem?_eq_none hx]
  dsimp only
  rw [h]
  dsimp only
  rw [Bool.and_true]

theorem openLog_good {bytes : Bytes}
    (hbytes : (fs.entry.map fun id => (fs.files id).content).getD [] = bytes)
    (hentries : (Memo.replay cap (decodeRecords bytes)).entries = some records) :
    SigCache.openLog cap true ⟨.ok, .good⟩ fs =
      (.ok ⟨Memo.replay cap (decodeRecords bytes), ⟨fs.next, records.length, false⟩⟩,
        { fs.staged (encodeAll records) with entry := some fs.next, older := [] }) := by
  subst hbytes
  have hrewrite : SigLog.rewrite .good true (Memo.replay cap
      (decodeRecords ((fs.entry.map fun id => (fs.files id).content).getD []))) fs =
      (.ok ⟨fs.next, records.length, false⟩,
        { fs.staged (encodeAll records) with entry := some fs.next, older := [] }) := by
    rw [SigLog.rewrite, hentries]
    exact Io.bind_ok (replace_good _ _)
  exact (Io.bind_ok (p := read .ok) rfl).trans (Io.bind_ok hrewrite)

theorem exists_openLog (cap : Nat) (fs : Fs UInt8) :
    ∃ cache fs', SigCache.openLog cap true ⟨.ok, .good⟩ fs = (.ok cache, fs') := by
  obtain ⟨records, hentries, -⟩ := (Memo.wf_replay cap
    (decodeRecords ((fs.entry.map fun id => (fs.files id).content).getD []))).replay_entries
  exact ⟨_, _, openLog_good rfl hentries⟩

/-- `n` records have been appended to the log, of messages that are numbers. -/
structure Filled (cap n : Nat) (fs : Fs UInt8) (cache : SigCache) : Prop where
  failed : cache.log.failed = false
  records : cache.log.records = n
  wf : cache.memo.Wf cap
  keys : ∀ k ∈ cache.memo.table, ∃ i < n, k = u32le i
  file : cache.log.file < fs.next

theorem Filled.fresh {n : Nat} (h : Filled cap n fs cache) (hn : n < 2 ^ 32) :
    u32le n ∉ cache.memo.table := fun hmem => by
  obtain ⟨i, hi, heq⟩ := h.keys _ hmem
  have hval := congrArg fromU32le heq
  rw [fromU32le_u32le hn, fromU32le_u32le (by omega)] at hval
  omega

theorem Filled.keys_remember {n : Nat} (h : Filled cap n fs cache) {k : Bytes}
    (hk : k ∈ (cache.memo.remember cap (u32le n) sig).table) : ∃ i < n + 1, k = u32le i := by
  rcases h.wf.mem_remember hk with rfl | hk
  · exact ⟨n, Nat.lt_succ_self n, rfl⟩
  · obtain ⟨i, hi, rfl⟩ := h.keys k hk
    exact ⟨i, Nat.lt_succ_of_lt hi, rfl⟩

variable {allowed : VoteAction → Prop} {v₀ : Validator} {log : List SignEvent}

theorem VoteRun.sign {v : Validator} {made : Option MayoSig} {inner : Bool} {e : SignEvent}
    (h : VoteRun cap true allowed v₀ log ⟨fs, some cache⟩)
    (hallowed : allowed (.sign x made luck inner))
    (hsign : signWith cap true x made luck inner cache fs = (v, e)) :
    VoteRun cap true allowed v₀ (e :: log) v := by
  refine VoteRun.step (e := some e) h hallowed ?_
  change some ((signWith cap true x made luck inner cache fs).1,
    some (signWith cap true x made luck inner cache fs).2) = _
  rw [hsign]

theorem VoteRun.hit (h : VoteRun cap true allowed v₀ log ⟨fs, some cache⟩)
    (hx : cache.memo.table[x]? = some sig)
    (hallowed : allowed (.sign x (some sig) ⟨.good, .good⟩ true)) :
    VoteRun cap true allowed v₀ (⟨x, false, some sig⟩ :: log) ⟨fs, some cache⟩ := by
  have hsign : signWith cap true x (some sig) ⟨.good, .good⟩ true cache fs =
      (⟨fs, some cache⟩, ⟨x, false, some sig⟩) := by
    rw [signWith.eq_def, hx]
    rfl
  exact h.sign hallowed hsign

theorem compact_of_le {luck : ReplaceLuck} (h : cache.log.records ≤ 2 * cap) :
    cache.compact cap true luck fs = (some (cache, true), fs) := by
  rw [SigCache.compact, if_neg (Nat.not_lt.mpr h)]

/-- A call in which nothing fails, before the log is full. -/
theorem VoteRun.store (h : VoteRun cap true allowed v₀ log ⟨fs, some cache⟩) (sig : MayoSig)
    (hfailed : cache.log.failed = false) (hlen : cache.log.records + 1 ≤ 2 * cap)
    (hx : x ∉ cache.memo.table) (hallowed : allowed (.sign x (some sig) ⟨.good, .good⟩ true)) :
    VoteRun cap true allowed v₀ (⟨x, true, some sig⟩ :: log)
      ⟨fs.update cache.log.file fun i => ⟨i.content ++ encodeRecord x sig, []⟩,
        some ⟨cache.memo.remember cap x sig,
          { cache.log with records := cache.log.records + 1 }⟩⟩ := by
  have hins : cache.insert cap true ⟨.good, .good⟩ x sig fs = _ :=
    (insert_append_good rfl hfailed).trans (compact_of_le hlen)
  exact h.sign hallowed (signWith_fresh hx hins)

theorem VoteRun.restart {luck : OpenLuck} (h : VoteRun cap true allowed v₀ log ⟨fs, none⟩)
    (hallowed : allowed (.restart luck))
    (hopen : SigCache.openLog cap true luck fs = (.ok cache, fs')) :
    VoteRun cap true allowed v₀ log ⟨fs', some cache⟩ := by
  refine VoteRun.step (e := none) h hallowed ?_
  simp only [VoteAction.apply, Option.isNone_none, if_true, hopen]

/-- The first start. -/
theorem exists_started (cap : Nat) (hallowed : allowed (.restart ⟨.ok, .good⟩)) : ∃ fs cache,
      VoteRun cap true allowed .initial [] ⟨fs, some cache⟩ ∧ Filled cap 0 fs cache := by
  have hentries : (Memo.replay cap (decodeRecords [])).entries = some [] := by
    rw [decodeRecords_nil]
    rfl
  have hopen : SigCache.openLog cap true ⟨.ok, .good⟩ Validator.initial.fs =
      (.ok ⟨Memo.replay cap (decodeRecords []), _⟩, _) := openLog_good rfl hentries
  refine ⟨_, _, VoteRun.start.restart hallowed hopen, rfl, rfl, Memo.wf_replay ..,
    fun k hk => ?_, Nat.lt_succ_self _⟩
  rw [decodeRecords_nil] at hk
  exact absurd hk Std.ExtTreeMap.not_mem_empty

/-- Calls in which nothing fails fill the log. -/
theorem exists_filled (sig : MayoSig) (hcap : 2 * cap < 2 ^ 32) : ∀ n ≤ 2 * cap,
    ∃ log fs cache, VoteRun cap true VoteAction.Short .initial log ⟨fs, some cache⟩ ∧
      Filled cap n fs cache := by
  intro n
  induction n with
  | zero =>
    intro _
    exact ⟨[], exists_started cap trivial⟩
  | succ n ih =>
    intro hn
    obtain ⟨log, fs, cache, hrun, h⟩ := ih (by omega)
    have hlen : cache.log.records + 1 ≤ 2 * cap := by
      rw [h.records]
      exact hn
    refine ⟨_, _, _, hrun.store sig h.failed hlen (h.fresh (by omega)) (length_u32le_le n),
      h.failed, ?_, h.wf.remember _ _, fun k => h.keys_remember, h.file⟩
    exact congrArg (· + 1) h.records

theorem compact_replace_fail {luck : ReplaceLuck} {fs' : Fs UInt8}
    (hfull : 2 * cap < cache.log.records) (hentries : cache.memo.entries = some records)
    (hfail : replace luck true (encodeAll records) fs = (.error .err, fs')) :
    cache.compact cap true luck fs = (some (cache, false), fs') := by
  have hrewrite : SigLog.rewrite luck true cache.memo fs = (.error .err, fs') := by
    rw [SigLog.rewrite, hentries]
    exact Io.bind_error hfail
  rw [SigCache.compact, if_pos hfull, hrewrite]

/-- The handle is on a file that no longer has the name. -/
structure StaleHandle (cap : Nat) (records : List SigRecord) (fs : Fs UInt8) (cache : SigCache) :
    Prop where
  failed : cache.log.failed = false
  full : 2 * cap < cache.log.records
  holds : Holds cap cache.memo records
  entries : cache.memo.entries = some records
  length : records.length ≤ cap
  missing : [] ∉ cache.memo.table
  entry : ∃ id, fs.entry = some id ∧ id ≠ cache.log.file ∧ fs.files id = ⟨encodeAll records, []⟩

/-- The record after the `2 * cap`-th is compacted, and the directory cannot be synced. -/
theorem exists_staleHandle (sig : MayoSig) (hcap : 2 * cap < 2 ^ 32) :
    ∃ records log fs cache, VoteRun cap true VoteAction.Short .initial log ⟨fs, some cache⟩ ∧
      StaleHandle cap records fs cache := by
  obtain ⟨log, fs, cache, hrun, h⟩ := exists_filled sig hcap (2 * cap) le_rfl
  have hwf := h.wf.remember (u32le (2 * cap)) sig
  obtain ⟨records, hentries, hfst, hreplay⟩ := hwf.replay_entries
  have hshort : ∀ r ∈ records, r.1.length ≤ maxLoggedMsg := fun r hr => by
    have hmem : r.1 ∈ (cache.memo.remember cap (u32le (2 * cap)) sig).table := by
      rw [← hwf.mem, ← hfst]
      exact List.mem_map_of_mem hr
    obtain ⟨i, -, hi⟩ := h.keys_remember hmem
    exact hi ▸ length_u32le_le i
  have hins : cache.insert cap true ⟨.good, { ReplaceLuck.good with syncDir := .fail }⟩
      (u32le (2 * cap)) sig fs = _ :=
    (insert_append_good rfl h.failed).trans
      (compact_replace_fail (by rw [h.records]; exact Nat.lt_succ_self _) hentries
        (replace_syncDir_fail ..))
  refine ⟨records, _, _, _, hrun.sign (length_u32le_le _) (signWith_fresh (h.fresh hcap) hins),
    h.failed, ?_, ⟨hshort, hreplay⟩, hentries, ?_, fun hmem => ?_, fs.next, rfl, h.file.ne', ?_⟩
  · rw [h.records]
    exact Nat.lt_succ_self _
  · rw [← List.length_map Prod.fst, hfst]
    exact hwf.bounded
  · obtain ⟨i, -, hi⟩ := h.keys_remember hmem
    cases hi
  · exact Function.update_self ..

/-- The record of the empty message goes to the wrong file and the next compaction fails
early: the signature is withheld but remembered, and the second call releases it. A
restart does not find it. -/
theorem exists_stale (s₁ s₂ : MayoSig) (hpos : 0 < cap) (hcap : 2 * cap < 2 ^ 32) :
    ∃ earlier v, VoteRun cap true VoteAction.Short .initial
      (⟨[], true, some s₂⟩ :: ⟨[], false, some s₁⟩ :: earlier) v := by
  obtain ⟨records, log, fs, cache, hrun, h⟩ := exists_staleHandle s₁ hcap
  obtain ⟨id, hentry, hid, hfile⟩ := h.entry
  obtain ⟨records', hentries', -⟩ := (h.holds.wf.remember [] s₁).replay_entries
  have hlog : 2 * cap < cache.log.records + 1 := Nat.lt_succ_of_lt h.full
  have hwithheld : cache.insert cap true ⟨.good, { ReplaceLuck.good with create := .fail }⟩ [] s₁
      fs = _ :=
    (insert_append_good rfl h.failed).trans
      (compact_replace_fail hlog hentries' (replace_create_fail ..))
  have hrun₁ := hrun.sign (Nat.zero_le _) (signWith_fresh h.missing hwithheld)
  have hrun₂ := hrun₁.hit (h.holds.wf.getElem?_remember_self h.missing hpos) (Nat.zero_le _)
  have hrun₃ := VoteRun.step (a := .kill) hrun₂ trivial rfl
  -- the file under the name has the records of before
  have hmemo := h.holds.decode
  have hbytes : ((fs.update cache.log.file fun i =>
      ⟨i.content ++ encodeRecord [] s₁, []⟩).entry.map fun id =>
        ((fs.update cache.log.file fun i =>
          ⟨i.content ++ encodeRecord [] s₁, []⟩).files id).content).getD [] =
      encodeAll records := by
    rw [Fs.update_entry, hentry, Option.map_some, Option.getD_some, Fs.update_ne _ _ hid, hfile]
    exact List.append_nil _
  have hrun₄ := hrun₃.restart trivial (openLog_good hbytes (hmemo ▸ h.entries))
  have hlen : records.length + 1 ≤ 2 * cap := by
    have hle := h.length
    omega
  exact ⟨_, _, hrun₄.store s₂ rfl hlen (hmemo ▸ h.missing) (Nat.zero_le _)⟩

/-- A signature made, released, and released again after a restart. -/
theorem exists_again (sig : MayoSig) (hpos : 0 < cap) :
    ∃ v, VoteRun cap true VoteAction.Sound .initial
      [⟨[], false, some sig⟩, ⟨[], true, some sig⟩] v := by
  have hsound : (VoteAction.sign [] (some sig) ⟨.good, .good⟩ true).Sound :=
    ⟨Nat.zero_le _, nofun, nofun⟩
  obtain ⟨fs, cache, hrun, h⟩ : ∃ fs cache,
      VoteRun cap true VoteAction.Sound .initial [] ⟨fs, some cache⟩ ∧ Filled cap 0 fs cache :=
    exists_started cap trivial
  have hmissing : [] ∉ cache.memo.table := fun hmem => by
    obtain ⟨i, hi, -⟩ := h.keys _ hmem
    cases hi
  have hrun₁ := hrun.store sig h.failed (by rw [h.records]; omega) hmissing hsound
  have hkept := hrun₁.inv.kept [] _ [] sig rfl rfl (by simpa [signedAround, signedSince] using hpos)
  have hrun₂ := VoteRun.step (a := .kill) hrun₁ trivial rfl
  obtain ⟨cache', fs', hopen⟩ := exists_openLog cap
    (fs.update cache.log.file fun i => ⟨i.content ++ encodeRecord [] sig, []⟩)
  obtain ⟨-, hok⟩ := openLog_cases hopen hkept.disk
  exact ⟨_, (hrun₂.restart trivial hopen).hit (hok _ rfl).2.1.entry hsound⟩

end Stale

/-! ## The result -/

/-- In a run of calls with short messages in which no compaction fails after its rename,
two signatures released for a message are the same if fewer than `cap` other messages
were signed from when the first of them was made. -/
theorem releasedSignatures_agree {cap : Nat} {later mid earlier : List SignEvent}
    {e₁ e₂ : SignEvent} {s₁ s₂ : MayoSig} {v : Validator}
    (hrun : VoteRun cap true VoteAction.Sound .initial (later ++ e₂ :: (mid ++ e₁ :: earlier)) v)
    (hmsg : e₂.msg = e₁.msg) (h₁ : e₁.released = some s₁) (h₂ : e₂.released = some s₂)
    (hfew : (signedAround e₁ mid earlier).card < cap) : s₂ = s₁ :=
  hrun.inv.agree later e₂ mid e₁ earlier s₁ s₂ rfl hmsg h₁ h₂ hfew

/-- A signature of one byte repeated. -/
def sampleSig (b : UInt8) : MayoSig := ⟨List.replicate mayo2SigBytes b, List.length_replicate ..⟩

theorem releasedSignatures_agree_sample : ∃ v s₂,
    VoteRun sigCacheCap true VoteAction.Sound .initial
      ([] ++ ⟨[], false, some s₂⟩ :: ([] ++ ⟨[], true, some (sampleSig 1)⟩ :: [])) v ∧
    s₂ = sampleSig 1 := by
  have hpos : 0 < sigCacheCap := by decide
  obtain ⟨v, hrun⟩ : ∃ v, VoteRun sigCacheCap true VoteAction.Sound .initial ([] ++
      ⟨[], false, some (sampleSig 1)⟩ :: ([] ++ ⟨[], true, some (sampleSig 1)⟩ :: [])) v :=
    exists_again (sampleSig 1) hpos
  have hfew : (signedAround ⟨[], true, some (sampleSig 1)⟩ [] []).card < sigCacheCap := by
    rw [signedAround_nil]
    exact hpos
  exact ⟨v, _, hrun, releasedSignatures_agree hrun rfl rfl rfl hfew⟩

/-- Two signatures of the empty message, released one after the other. -/
theorem releasedSignatures_change : ∃ earlier v s₁ s₂, s₁ ≠ s₂ ∧
    VoteRun sigCacheCap true VoteAction.Short .initial
      (⟨[], true, some s₂⟩ :: ⟨[], false, some s₁⟩ :: earlier) v := by
  have hpos : 0 < sigCacheCap := by decide
  have hcap : 2 * sigCacheCap < 2 ^ 32 := by decide
  obtain ⟨earlier, v, hrun⟩ := exists_stale (sampleSig 1) (sampleSig 2) hpos hcap
  exact ⟨earlier, v, _, _, fun h => absurd (congrArg (·.val.head?) h) (by decide), hrun⟩

end LayerSdk
