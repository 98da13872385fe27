import LayerSdk.Node
import LayerSdk.GasPrice

/-!
# Results of transactions

A node keeps the result of every transaction twice: in a bounded index in
memory and in records that survive a restart. Both are keyed by the hash of
the transaction, so a payload that has the same bytes again replaces the
result, and pruning a payload removes the result of every transaction in it,
wherever it was executed. Over a run without repetitions a result stays until
its own height is pruned (`results_stable`).
-/

namespace LayerSdk.TxResults

/-! ## The index in memory -/

structure Response where
  height : Nat
  txhash : String
  codespace : String
  code : Nat
  rawLog : String
  gasWanted : Nat
  gasUsed : Nat
  events : List Event
deriving DecidableEq, Repr

def txResponseFromResult {Data : Type} (B : Bech32) (txhash : String) (height : Nat)
    (res : TxResult Data) : Response :=
  match res.result with
  | .ok ok => ⟨height, txhash, "", 0, "", res.gas.gasWanted, res.gas.gasUsed, ok.events.flatten⟩
  | .error e =>
    ⟨height, txhash, "slay3r", 1, e.display B, res.gas.gasWanted, res.gas.gasUsed, []⟩

def stripHex : List Char → List Char
  | '0' :: 'x' :: rest => rest
  | '0' :: 'X' :: rest => rest
  | cs => cs

def normalize (hash : String) : String :=
  String.ofList ((stripHex (trimChars hash.toList)).map Char.toUpper)

abbrev Table := Std.ExtTreeMap String Response

structure TxIndex where
  map : Table
  order : List String
  capacity : Nat

namespace TxIndex

def new (capacity : Nat) : TxIndex := ⟨∅, [], max capacity 1⟩

/-- The oldest entries go. -/
def evict (capacity : Nat) : List String → Table → List String × Table
  | [], map => ([], map)
  | old :: rest, map =>
    if (old :: rest).length > capacity then evict capacity rest (map.erase old)
    else (old :: rest, map)

def insert (i : TxIndex) (resp : Response) : TxIndex :=
  let key := normalize resp.txhash
  let map := i.map.insert key resp
  if i.map.contains key then { i with map }
  else
    let (order, map) := evict i.capacity (i.order ++ [key]) map
    { i with order, map }

def get (i : TxIndex) (hash : String) : Option Response := i.map[normalize hash]?

end TxIndex

/-! ## The node -/

/-- `reads` are results that calls of `get_tx` have read from the records and not yet
put into the index. -/
structure State where
  index : TxIndex
  txres : Table
  payloads : Std.ExtTreeMap Nat (List Bytes)
  height : Nat
  pruneFloor : Nat
  reads : List Response

def State.new (capacity height : Nat) : State := ⟨.new capacity, ∅, ∅, height, 0, []⟩

def getTx (s : State) (hash : String) : Option Response :=
  match s.index.get hash with
  | some r => some r
  | none => s.txres[normalize hash]?

def maxPrunePerBlock : Nat := 2048

inductive Step (Data : Type) where
  /-- A payload is executed. -/
  | execute (txs : List Bytes) (results : List (TxResult Data))
  /-- `prune_sidecars`, with the heights that are kept. -/
  | prune (keep : Nat)
  /-- The two halves of a `get_tx` that misses the index. -/
  | read (hash : String)
  | warm (r : Response)
  | restart

def Step.txs {Data : Type} : Step Data → List Bytes
  | .execute txs _ => txs
  | _ => []

section Node

variable {Data : Type} (H : Bytes → Digest) (B : Bech32) (parses : Bytes → Bool)

/-- Of the transactions that parse, in their order. -/
def responses (height : Nat) (txs : List Bytes) (results : List (TxResult Data)) :
    List Response :=
  (((txs.filter parses).map (txHashHex H)).zip results).map fun x =>
    txResponseFromResult B x.1 height x.2

def executePayload (s : State) (txs : List Bytes) (results : List (TxResult Data)) : State :=
  let height := s.height + 1
  let resps := responses H B parses height txs results
  { s with
    height
    payloads := s.payloads.insert height txs
    txres := resps.foldl (fun t r => t.insert r.txhash r) s.txres
    index := resps.foldl TxIndex.insert s.index }

def pruneSidecars (s : State) (keep : Nat) : State :=
  let targetFloor := s.height - keep
  if targetFloor ≤ s.pruneFloor then s
  else
    let newFloor := min (s.pruneFloor + maxPrunePerBlock) targetFloor
    let heights := List.range' (s.pruneFloor + 1) (newFloor - s.pruneFloor)
    let txhashes := heights.flatMap fun h => ((s.payloads[h]?).getD []).map (txHashHex H)
    { s with
      payloads := heights.foldl (fun t h => t.erase h) s.payloads
      txres := txhashes.foldl (fun t hash => t.erase hash) s.txres
      pruneFloor := newFloor }

def step (s : State) : Step Data → State
  | .execute txs results => executePayload H B parses s txs results
  | .prune keep => pruneSidecars H s keep
  | .read hash =>
    match s.index.get hash with
    | some _ => s
    | none => { s with reads := (s.txres[normalize hash]?).toList ++ s.reads }
  | .warm r => if r ∈ s.reads then { s with index := s.index.insert r } else s
  | .restart => { s with index := .new s.index.capacity, reads := [] }

/-- The results a step produces. -/
def recorded (s : State) : Step Data → List Response
  | .execute txs results => responses H B parses (s.height + 1) txs results
  | _ => []

/-- A run, with all results, in order. -/
def run : List (Step Data) → State → State × List Response
  | [], s => (s, [])
  | e :: rest, s =>
    let (s', log) := run rest (step H B parses s e)
    (s', recorded H B parses s e ++ log)

end Node

/-! ## Hashes in the index -/

theorem upperHexDigit_spec : ∀ n < 16, isWhitespace (upperHexDigit n) = false ∧
    upperHexDigit n ≠ 'x' ∧ upperHexDigit n ≠ 'X' ∧
    (upperHexDigit n).toUpper = upperHexDigit n := by
  decide

/-- A hash the node writes is normal. -/
theorem normalize_txHashHex (H : Bytes → Digest) (raw : Bytes) :
    normalize (txHashHex H raw) = txHashHex H raw := by
  have hdigit : ∀ c ∈ (txHashHex H raw).toList, ∃ n < 16, c = upperHexDigit n := by
    intro c hc
    simp only [txHashHex, String.toList_ofList, List.mem_flatMap, List.mem_cons,
      List.not_mem_nil, or_false] at hc
    obtain ⟨b, -, rfl | rfl⟩ := hc
    · exact ⟨_, Nat.div_lt_of_lt_mul b.toNat_lt, rfl⟩
    · exact ⟨_, Nat.mod_lt _ (by decide), rfl⟩
  have hspec : ∀ c ∈ (txHashHex H raw).toList,
      isWhitespace c = false ∧ c ≠ 'x' ∧ c ≠ 'X' ∧ c.toUpper = c := by
    intro c hc
    obtain ⟨n, hn, rfl⟩ := hdigit c hc
    exact upperHexDigit_spec n hn
  have hdrop (l : List Char) (hl : ∀ c ∈ l, isWhitespace c = false) :
      l.dropWhile isWhitespace = l := by
    cases l with
    | nil => rfl
    | cons c rest => exact List.dropWhile_cons_of_neg (by simp [hl c List.mem_cons_self])
  have htrim : trimChars (txHashHex H raw).toList = (txHashHex H raw).toList := by
    rw [trimChars, hdrop _ fun c hc => (hspec c hc).1,
      hdrop _ fun c hc => (hspec c (List.mem_reverse.1 hc)).1, List.reverse_reverse]
  have hstrip : stripHex (txHashHex H raw).toList = (txHashHex H raw).toList := by
    generalize (txHashHex H raw).toList = cs at hspec
    unfold stripHex
    split
    · exact absurd rfl (hspec 'x' (by simp)).2.1
    · exact absurd rfl (hspec 'X' (by simp)).2.2.1
    · rfl
  rw [normalize, htrim, hstrip, List.map_congr_left fun c hc => (hspec c hc).2.2.2, List.map_id',
    String.ofList_toList]

variable {k : String} {r : Response} {resps : List Response}

theorem mem_evict {capacity : Nat} {order : List String} {map : Table}
    (h : (TxIndex.evict capacity order map).2[k]? = some r) : map[k]? = some r := by
  induction order generalizing map with
  | nil => exact h
  | cons old rest ih =>
    rw [TxIndex.evict] at h
    split at h
    · have hrest := ih h
      rw [Std.ExtTreeMap.getElem?_erase] at hrest
      split at hrest
      · cases hrest
      · exact hrest
    · exact h

/-- An entry is the one inserted, or was there. -/
theorem mem_insert {i : TxIndex} {resp : Response} (h : (i.insert resp).map[k]? = some r) :
    (k = normalize resp.txhash ∧ r = resp) ∨ i.map[k]? = some r := by
  have hmap : (i.map.insert (normalize resp.txhash) resp)[k]? = some r := by
    unfold TxIndex.insert at h
    dsimp only at h
    split at h
    · exact h
    · exact mem_evict h
  rw [Std.ExtTreeMap.getElem?_insert] at hmap
  split at hmap
  · rename_i hkey
    cases hmap
    exact .inl ⟨by simpa using (Eq.symm (by simpa using hkey)), rfl⟩
  · exact .inr hmap

/-! ## Tables -/

theorem mem_foldl_insert {t : Table}
    (h : (resps.foldl (fun t r => t.insert r.txhash r) t)[k]? = some r) :
    (r ∈ resps ∧ k = r.txhash) ∨ t[k]? = some r := by
  induction resps generalizing t with
  | nil => exact .inr h
  | cons resp rest ih =>
    rcases ih h with ⟨hmem, hk⟩ | hold
    · exact .inl ⟨List.mem_cons_of_mem _ hmem, hk⟩
    · rw [Std.ExtTreeMap.getElem?_insert] at hold
      split at hold
      · rename_i hkey
        cases hold
        exact .inl ⟨List.mem_cons_self, by simpa using (Eq.symm (by simpa using hkey))⟩
      · exact .inr hold

theorem foldl_insert_of_not_mem (hk : k ∉ resps.map Response.txhash) (t : Table) :
    (resps.foldl (fun t r => t.insert r.txhash r) t)[k]? = t[k]? := by
  induction resps generalizing t with
  | nil => rfl
  | cons resp rest ih =>
    simp only [List.map_cons, List.mem_cons, not_or] at hk
    rw [List.foldl_cons, ih hk.2, Std.ExtTreeMap.getElem?_insert,
      if_neg (by simpa using Ne.symm hk.1)]

theorem foldl_insert_of_mem (hr : r ∈ resps) (hnodup : (resps.map Response.txhash).Nodup)
    (t : Table) : (resps.foldl (fun t r => t.insert r.txhash r) t)[r.txhash]? = some r := by
  induction resps generalizing t with
  | nil => cases hr
  | cons resp rest ih =>
    obtain ⟨hnew, hrest⟩ := List.nodup_cons.1 hnodup
    rcases List.mem_cons.1 hr with rfl | hr
    · rw [List.foldl_cons, foldl_insert_of_not_mem hnew]
      simp
    · exact ih hr hrest _

theorem mem_foldl_index {i : TxIndex} (h : (resps.foldl TxIndex.insert i).map[k]? = some r) :
    (r ∈ resps ∧ k = normalize r.txhash) ∨ i.map[k]? = some r := by
  induction resps generalizing i with
  | nil => exact .inr h
  | cons resp rest ih =>
    rcases ih h with ⟨hmem, hk⟩ | hold
    · exact .inl ⟨List.mem_cons_of_mem _ hmem, hk⟩
    · rcases mem_insert hold with ⟨hk, rfl⟩ | hold
      · exact .inl ⟨List.mem_cons_self, hk⟩
      · exact .inr hold

/-! ## Runs without repetitions -/

section Runs

variable {Data : Type} {H : Bytes → Digest} {B : Bech32} {parses : Bytes → Bool} {s : State}
  {log : List Response} {hashes : List String}

/-- What holds as long as no transaction is executed twice: every entry is a result of
the log under its own hash, and a stored payload has its results at its height. -/
structure Inv (H : Bytes → Digest) (s : State) (log : List Response) (hashes : List String) :
    Prop where
  named : ∀ r ∈ log, r.txhash ∈ hashes ∧ normalize r.txhash = r.txhash ∧ r.height ≤ s.height
  unique : ∀ r ∈ log, ∀ r' ∈ log, r.txhash = r'.txhash → r = r'
  kept : ∀ r ∈ log, s.pruneFloor < r.height → s.txres[r.txhash]? = some r
  txres : ∀ (k : String) (r : Response), s.txres[k]? = some r → r ∈ log
  hot : ∀ (k : String) (r : Response), s.index.map[k]? = some r → r ∈ log ∧ k = r.txhash
  reads : ∀ r ∈ s.reads, r ∈ log
  payload : ∀ (h : Nat) (txs : List Bytes), s.payloads[h]? = some txs →
    ∀ raw ∈ txs, txHashHex H raw ∈ hashes ∧ ∀ r ∈ log, r.txhash = txHashHex H raw → r.height = h

theorem mem_responses {height : Nat} {txs : List Bytes} {results : List (TxResult Data)}
    {r : Response} (hr : r ∈ responses H B parses height txs results) :
    r.height = height ∧ ∃ raw ∈ txs, r.txhash = txHashHex H raw := by
  obtain ⟨⟨hash, res⟩, hmem, rfl⟩ := List.mem_map.1 hr
  obtain ⟨raw, hraw, rfl⟩ := List.mem_map.1 (List.of_mem_zip hmem).1
  refine ⟨?_, raw, List.mem_of_mem_filter hraw, ?_⟩
  · unfold txResponseFromResult
    split <;> rfl
  · unfold txResponseFromResult
    split <;> rfl

theorem txhash_responses (height : Nat) (txs : List Bytes) (results : List (TxResult Data)) :
    ((responses H B parses height txs results).map Response.txhash).Sublist
      (txs.map (txHashHex H)) := by
  have hname (hash : String) (res : TxResult Data) :
      (txResponseFromResult B hash height res).txhash = hash := by
    unfold txResponseFromResult
    split <;> rfl
  simp only [responses, List.map_map, Function.comp_def, hname]
  have hfst : ∀ (l : List String) (rs : List (TxResult Data)),
      ((l.zip rs).map fun x => x.1).Sublist l := by
    intro l
    induction l with
    | nil => simp
    | cons hash l ih =>
      intro rs
      cases rs with
      | nil => simp
      | cons res rs => exact (ih rs).cons_cons hash
  exact (hfst _ _).trans ((List.filter_sublist (p := parses)).map _)

/-- Step: a payload without a transaction that was executed before. -/
theorem Inv.execute (h : Inv H s log hashes) {txs : List Bytes} (results : List (TxResult Data))
    (hnodup : (txs.map (txHashHex H)).Nodup) (hnew : ∀ raw ∈ txs, txHashHex H raw ∉ hashes) :
    Inv H (executePayload H B parses s txs results)
      (log ++ responses H B parses (s.height + 1) txs results)
      (hashes ++ txs.map (txHashHex H)) := by
  have hresps : ((responses H B parses (s.height + 1) txs results).map Response.txhash).Nodup :=
    (txhash_responses _ _ _).nodup hnodup
  -- an old result and a new one have different hashes
  have hapart : ∀ r ∈ log, ∀ raw ∈ txs, r.txhash ≠ txHashHex H raw := by
    intro r hr raw hraw heq
    exact hnew raw hraw (heq ▸ (h.named r hr).1)
  have hapart' : ∀ r ∈ log, ∀ r' ∈ responses H B parses (s.height + 1) txs results,
      r.txhash ≠ r'.txhash := by
    intro r hr r' hr' heq
    obtain ⟨-, raw, hraw, hname⟩ := mem_responses hr'
    exact hapart r hr raw hraw (heq.trans hname)
  refine ⟨?_, ?_, ?_, ?_, ?_, ?_, ?_⟩
  · intro r hr
    rcases List.mem_append.1 hr with hr | hr
    · obtain ⟨hmem, hnormal, hle⟩ := h.named r hr
      exact ⟨List.mem_append_left _ hmem, hnormal, Nat.le_succ_of_le hle⟩
    · obtain ⟨hheight, raw, hraw, hname⟩ := mem_responses hr
      rw [hname]
      exact ⟨List.mem_append_right _ (List.mem_map_of_mem hraw), normalize_txHashHex H raw,
        hheight.le⟩
  · intro r hr r' hr' heq
    rcases List.mem_append.1 hr with hr | hr <;> rcases List.mem_append.1 hr' with hr' | hr'
    · exact h.unique r hr r' hr' heq
    · exact absurd heq (hapart' r hr r' hr')
    · exact absurd heq.symm (hapart' r' hr' r hr)
    · exact List.inj_on_of_nodup_map hresps hr hr' heq
  · intro r hr hfloor
    rcases List.mem_append.1 hr with hr | hr
    · refine (foldl_insert_of_not_mem ?_ _).trans (h.kept r hr hfloor)
      intro hmem
      obtain ⟨r', hr', heq⟩ := List.mem_map.1 hmem
      exact hapart' r hr r' hr' heq.symm
    · exact foldl_insert_of_mem hr hresps _
  · intro k r hk
    rcases mem_foldl_insert hk with ⟨hr, -⟩ | hk
    · exact List.mem_append_right _ hr
    · exact List.mem_append_left _ (h.txres k r hk)
  · intro k r hk
    rcases mem_foldl_index hk with ⟨hr, hkey⟩ | hk
    · obtain ⟨-, raw, -, hname⟩ := mem_responses hr
      refine ⟨List.mem_append_right _ hr, ?_⟩
      rw [hkey, hname, normalize_txHashHex]
    · exact ⟨List.mem_append_left _ (h.hot k r hk).1, (h.hot k r hk).2⟩
  · intro r hr
    exact List.mem_append_left _ (h.reads r hr)
  · intro height txs' hpayload raw hraw
    rw [executePayload, Std.ExtTreeMap.getElem?_insert] at hpayload
    split at hpayload
    · rename_i hheight
      cases hpayload
      refine ⟨List.mem_append_right _ (List.mem_map_of_mem hraw), fun r hr hname => ?_⟩
      rcases List.mem_append.1 hr with hr | hr
      · exact absurd hname (hapart r hr raw hraw)
      · rw [(mem_responses hr).1]
        simpa using hheight
    · obtain ⟨hmem, hat⟩ := h.payload height txs' hpayload raw hraw
      refine ⟨List.mem_append_left _ hmem, fun r hr hname => ?_⟩
      rcases List.mem_append.1 hr with hr | hr
      · exact hat r hr hname
      · obtain ⟨-, raw', hraw', hname'⟩ := mem_responses hr
        exact absurd (hname.symm.trans hname' ▸ hmem) (hnew raw' hraw')

/-- Step: what is pruned lies at or below the new floor. -/
theorem Inv.prune (h : Inv H s log hashes) (keep : Nat) :
    Inv H (pruneSidecars H s keep) log hashes := by
  unfold pruneSidecars
  dsimp only
  split
  · exact h
  refine ⟨h.named, h.unique, ?_, ?_, h.hot, h.reads, ?_⟩
  · intro r hr hfloor
    refine (OrdMap.getElem?_foldl_erase (fun hash => hash) r.txhash _ _).trans ?_
    rw [List.map_id', if_neg, h.kept r hr (by dsimp only at hfloor; omega)]
    intro hmem
    obtain ⟨height, hheight, hhash⟩ := List.mem_flatMap.1 hmem
    obtain ⟨raw, hraw, hname⟩ := List.mem_map.1 hhash
    cases hpayload : s.payloads[height]? with
    | none => simp [hpayload] at hraw
    | some txs =>
      rw [hpayload] at hraw
      have hat := (h.payload height txs hpayload raw hraw).2 r hr hname.symm
      have hlast := (List.mem_range'_1.1 hheight).2
      dsimp only at hfloor
      omega
  · intro k r hk
    have hk := (OrdMap.getElem?_foldl_erase (fun hash => hash) k _ _).symm.trans hk
    split at hk
    · cases hk
    · exact h.txres k r hk
  · intro height txs hpayload
    have hpayload := (OrdMap.getElem?_foldl_erase (fun x => x) height _ _).symm.trans hpayload
    split at hpayload
    · cases hpayload
    · exact h.payload height txs hpayload

theorem Inv.step (h : Inv H s log hashes) (B : Bech32) (parses : Bytes → Bool) (e : Step Data)
    (hnodup : (e.txs.map (txHashHex H)).Nodup) (hnew : ∀ raw ∈ e.txs, txHashHex H raw ∉ hashes) :
    Inv H (step H B parses s e) (log ++ recorded H B parses s e)
      (hashes ++ e.txs.map (txHashHex H)) := by
  cases e with
  | execute txs results => exact h.execute results hnodup hnew
  | prune keep => simpa [recorded, Step.txs, TxResults.step] using h.prune keep
  | read hash =>
    simp only [recorded, Step.txs, TxResults.step, List.append_nil, List.map_nil]
    split
    · exact h
    · refine { h with reads := fun r hr => ?_ }
      rcases List.mem_append.1 hr with hr | hr
      · exact h.txres _ r (Option.mem_toList.1 hr)
      · exact h.reads r hr
  | warm r =>
    simp only [recorded, Step.txs, TxResults.step, List.append_nil, List.map_nil]
    split
    · rename_i hr
      refine { h with hot := fun k r' hk => ?_ }
      rcases mem_insert hk with ⟨hkey, rfl⟩ | hk
      · have hlog := h.reads r' hr
        exact ⟨hlog, hkey.trans (h.named r' hlog).2.1⟩
      · exact h.hot k r' hk
    · exact h
  | restart =>
    simp only [recorded, Step.txs, TxResults.step, List.append_nil, List.map_nil]
    refine { h with hot := fun k r hk => ?_, reads := fun r hr => ?_ }
    · simp [TxIndex.new] at hk
    · cases hr

/-- Run: by induction on the steps. -/
theorem Inv.run (h : Inv H s log hashes) (B : Bech32) (parses : Bytes → Bool)
    (steps : List (Step Data))
    (hnodup : (hashes ++ (steps.flatMap Step.txs).map (txHashHex H)).Nodup) :
    ∃ hashes', Inv H (run H B parses steps s).1 (log ++ (run H B parses steps s).2) hashes' := by
  induction steps generalizing s log hashes with
  | nil => exact ⟨hashes, by simpa [TxResults.run] using h⟩
  | cons e rest ih =>
    rw [List.flatMap_cons, List.map_append, ← List.append_assoc] at hnodup
    have hfirst := (List.nodup_append.1 hnodup).1
    obtain ⟨-, hthis, hdisjoint⟩ := List.nodup_append.1 hfirst
    have hstep := h.step B parses e hthis fun raw hraw hmem =>
      hdisjoint _ hmem _ (List.mem_map_of_mem hraw) rfl
    obtain ⟨hashes', hrun⟩ := ih hstep hnodup
    refine ⟨hashes', ?_⟩
    rwa [List.append_assoc] at hrun

/-- A successful result above the floor is what `get_tx` answers, and the record has it
too. -/
def Stable (s : State) (log : List Response) : Prop :=
  ∀ r ∈ log, r.code = 0 → s.pruneFloor < r.height →
    getTx s r.txhash = some r ∧ s.txres[r.txhash]? = some r

theorem Inv.stable (h : Inv H s log hashes) : Stable s log := by
  intro r hr _ hfloor
  have hkept := h.kept r hr hfloor
  refine ⟨?_, hkept⟩
  unfold getTx TxIndex.get
  rw [(h.named r hr).2.1]
  cases hhot : s.index.map[r.txhash]? with
  | none => exact hkept
  | some r' =>
    obtain ⟨hr', hkey⟩ := h.hot _ r' hhot
    rw [h.unique r hr r' hr' hkey]

/-- **Results.** As long as no transaction is in the executed payloads twice, every
successful result above the prune floor is served, from memory and from the
records. -/
theorem results_stable (H : Bytes → Digest) (B : Bech32) (parses : Bytes → Bool)
    (capacity height : Nat) (steps : List (Step Data))
    (honce : ((steps.flatMap Step.txs).map (txHashHex H)).Nodup) :
    Stable (run H B parses steps (.new capacity height)).1
      (run H B parses steps (.new capacity height)).2 := by
  have hstart : Inv H (.new capacity height) [] [] := by
    constructor <;> simp [State.new, TxIndex.new]
  obtain ⟨hashes, hrun⟩ := hstart.run B parses steps (by simpa using honce)
  exact hrun.stable

end Runs

/-! ## A repeated transaction -/

section Sample

instance (s : State) (log : List Response) : Decidable (Stable s log) :=
  inferInstanceAs (Decidable (∀ r ∈ log, _))

def success : TxResult Unit := ⟨⟨1, 1⟩, .ok ⟨[], []⟩⟩

def failure : TxResult Unit := ⟨⟨1, 1⟩, .error (.std .invalidUtf8)⟩

def sampleRun (steps : List (Step Unit)) : State × List Response :=
  run sha256 ⟨fun _ => .error "", fun _ => none, fun _ => ""⟩ (fun _ => true) steps
    (.new 100000 0)

theorem results_stable_twoTxs :
    Stable (sampleRun [.execute [[1]] [success], .execute [[2]] [success], .prune 1]).1
      (sampleRun [.execute [[1]] [success], .execute [[2]] [success], .prune 1]).2 := by
  refine results_stable sha256 _ _ 100000 0 _ ?_
  rw [sha256_eq_eval]
  decide +kernel

/-- A replay that fails replaces the success; and pruning the height where the
transaction failed first takes the success above the floor. -/
theorem results_lost :
    (¬ Stable (sampleRun [.execute [[1]] [success], .execute [[1]] [failure]]).1
      (sampleRun [.execute [[1]] [success], .execute [[1]] [failure]]).2) ∧
    ¬ Stable (sampleRun [.execute [[1]] [failure], .execute [[1]] [success], .prune 1,
        .restart]).1
      (sampleRun [.execute [[1]] [failure], .execute [[1]] [success], .prune 1, .restart]).2 := by
  rw [sampleRun, sampleRun, sha256_eq_eval]
  decide +kernel

end Sample

end LayerSdk.TxResults
