import LayerSdk.Membership
import LayerSdk.SnapshotImport

/-!
# The export of a snapshot

`snapshot_export` writes the consensus entries as records, packs them into
chunks and hashes the same entries into a root. The joiner decodes the chunks
and checks the root of what it got.

- `decodeSnapshotChunk_iff`: a chunk is accepted exactly if it is a
  concatenation of whole records.
- `exportLoop_spec`: the loop cuts the entries into groups, one per chunk, and
  a group is too long for a chunk only if it is a single record.
- `snapshot_round_trip_iff`: the joiner gets back the entries exactly if no key
  or value has a length that does not fit the four bytes it is written in.
-/

namespace LayerSdk

open EffectProg Comp FailState

/-! ## The source -/

/-- `SNAPSHOT_FORMAT_V1`. -/
def snapshotFormatV1 : Nat := 1

/-- `SNAPSHOT_CHUNK_TARGET`. -/
def snapshotChunkTarget : Nat := 8 * 1024 * 1024

structure SnapshotChunk where
  data : Bytes
  checksum : Digest

structure SnapshotExport where
  height : Nat
  stateRoot : Digest
  format : Nat
  chunks : List SnapshotChunk

/-- One record on the wire. The lengths are cast to `u32`. -/
def snapshotRecord (r : Record) : Bytes :=
  u32le r.1.length ++ r.1 ++ u32le r.2.length ++ r.2

section Source

variable (H : Bytes → Digest) (c : AppCodecs)

def SnapshotChunk.new (data : Bytes) : SnapshotChunk := ⟨data, H data⟩

/-- The variables of the export loop. -/
structure ExportLoop where
  leaves : List Digest
  chunks : List SnapshotChunk
  cur : Bytes

def ExportLoop.entry (st : ExportLoop) (e : Record) : ExportLoop :=
  if isSidecar e.1 then st
  else
    let leaves := st.leaves ++ [leafHash H e.1 e.2]
    let recLen := 4 + e.1.length + 4 + e.2.length
    if st.cur.length + recLen > snapshotChunkTarget ∧ st.cur ≠ [] then
      ⟨leaves, st.chunks ++ [.new H st.cur], snapshotRecord e⟩
    else ⟨leaves, st.chunks, st.cur ++ snapshotRecord e⟩

def exportLoop (entries : List Record) : ExportLoop :=
  entries.foldl (ExportLoop.entry H) ⟨[], [], []⟩

/-- The chunks, with what is left when the loop ends. -/
def ExportLoop.close (st : ExportLoop) : List SnapshotChunk :=
  if st.cur ≠ [] ∨ st.chunks = [] then st.chunks ++ [.new H st.cur] else st.chunks

def exportSnapshot : StorageM PulsarError SnapshotExport := do
  let block ← c.lastBlock.mayLoad
  let entries ← scan
  let st := exportLoop H entries
  pure ⟨(block.map BlockInfo.height).getD 0, merkleRoot H st.leaves, snapshotFormatV1, st.close H⟩

def snapshotExport : AppM SnapshotExport := withReader (exportSnapshot H c)

end Source

/-- `&rest[..n]` and `&rest[n..]`, which panic beyond the end. -/
def splitAt? (rest : Bytes) (n : Nat) : Option (Bytes × Bytes) :=
  if n ≤ rest.length then some (rest.take n, rest.drop n) else none

/-- One pass of the loop of `decode_snapshot_chunk`, slice by slice. -/
def sliceRecord (rest : Bytes) : Option (Except String (Record × Bytes)) :=
  if rest.length < 4 then some (.error "snapshot record: truncated key length")
  else do
    let (klen, rest) ← splitAt? rest 4
    if rest.length < fromU32le klen then some (.error "snapshot record: truncated key")
    else do
      let (key, rest) ← splitAt? rest (fromU32le klen)
      if rest.length < 4 then some (.error "snapshot record: truncated value length")
      else do
        let (vlen, rest) ← splitAt? rest 4
        if rest.length < fromU32le vlen then some (.error "snapshot record: truncated value")
        else do
          let (value, rest) ← splitAt? rest (fromU32le vlen)
          some (.ok ((key, value), rest))

/-- The loop with its slices; a run that has not come to its end after `n` passes
has no result. -/
def sliceRecords : Nat → Bytes → Option (Except String (List Record))
  | _, [] => some (.ok [])
  | 0, _ :: _ => none
  | n + 1, b :: bs =>
    match sliceRecord (b :: bs) with
    | none => none
    | some (.error e) => some (.error e)
    | some (.ok (r, rest)) => (sliceRecords n rest).map (Except.map (r :: ·))

/-- The records of all chunks, one chunk after the other. -/
def decodeChunks : List SnapshotChunk → Except String (List Record)
  | [] => .ok []
  | chunk :: rest =>
    match decodeSnapshotChunk chunk.data with
    | .error e => .error e
    | .ok records => (decodeChunks rest).map (records ++ ·)

/-! ## Records on the wire -/

/-- Both lengths fit the four bytes they are written in. -/
def ShortRecord (r : Record) : Prop := r.1.length < 2 ^ 32 ∧ r.2.length < 2 ^ 32

theorem length_snapshotRecord (r : Record) :
    (snapshotRecord r).length = 4 + r.1.length + 4 + r.2.length := by
  simp only [snapshotRecord, List.length_append, length_u32le]

theorem snapshotRecord_ne_nil (r : Record) : snapshotRecord r ≠ [] := by
  intro h
  have hlen := length_snapshotRecord r
  rw [h, List.length_nil] at hlen
  omega

theorem fromU32le_lt (bs : Bytes) : fromU32le bs < 2 ^ 32 := by
  unfold fromU32le
  split
  · rename_i a b c d
    have := a.toNat_lt
    have := b.toNat_lt
    have := c.toNat_lt
    have := d.toNat_lt
    omega
  · decide

theorem u32le_fromU32le {bs : Bytes} (h : bs.length = 4) : u32le (fromU32le bs) = bs := by
  obtain ⟨a, b, c, d, rfl⟩ : ∃ a b c d, bs = [a, b, c, d] := by
    match bs, h with
    | [a, b, c, d], _ => exact ⟨a, b, c, d, rfl⟩
  have := a.toNat_lt
  have := b.toNat_lt
  have := c.toNat_lt
  have := d.toNat_lt
  simp only [fromU32le, u32le, List.cons.injEq, and_true, ← UInt8.toNat_inj, UInt8.toNat_ofNat']
  omega

theorem decodeRecord_snapshotRecord {r : Record} (hr : ShortRecord r) (rest : Bytes) :
    decodeRecord (snapshotRecord r ++ rest) = .ok (r, rest) := by
  obtain ⟨key, value⟩ := r
  obtain ⟨hk, hv⟩ := hr
  have hsplit : snapshotRecord (key, value) ++ rest =
      u32le key.length ++ (key ++ (u32le value.length ++ (value ++ rest))) := by
    simp only [snapshotRecord, List.append_assoc]
  rw [hsplit, decodeRecord]
  simp only [List.take_left' (length_u32le _), List.drop_left' (length_u32le _),
    fromU32le_u32le hk, fromU32le_u32le hv, List.take_left, List.drop_left, List.length_append,
    length_u32le]
  rw [if_neg (by omega), if_neg (by omega), if_neg (by omega), if_neg (by omega)]

theorem decodeRecord_ok {data rest : Bytes} {r : Record} (h : decodeRecord data = .ok (r, rest)) :
    data = snapshotRecord r ++ rest ∧ ShortRecord r := by
  simp only [decodeRecord] at h
  split at h
  · cases h
  split at h
  · cases h
  split at h
  · cases h
  split at h
  · cases h
  rename_i hklen hkey hvlen hvalue
  cases h
  set rest₁ := data.drop 4
  set klen := fromU32le (data.take 4)
  set rest₂ := rest₁.drop klen
  set rest₃ := rest₂.drop 4
  set vlen := fromU32le (rest₂.take 4)
  have hlenKey : (rest₁.take klen).length = klen := List.length_take_of_le (Nat.not_lt.mp hkey)
  have hlenValue : (rest₃.take vlen).length = vlen := List.length_take_of_le (Nat.not_lt.mp hvalue)
  have hlen₁ : (data.take 4).length = 4 := List.length_take_of_le (Nat.not_lt.mp hklen)
  have hlen₂ : (rest₂.take 4).length = 4 := List.length_take_of_le (Nat.not_lt.mp hvlen)
  refine ⟨?_, ?_, ?_⟩
  · simp only [snapshotRecord, hlenKey, hlenValue, klen, vlen, u32le_fromU32le hlen₁,
      u32le_fromU32le hlen₂, List.append_assoc]
    rw [List.take_append_drop, List.take_append_drop, List.take_append_drop, List.take_append_drop]
  · rw [hlenKey]
    exact fromU32le_lt _
  · rw [hlenValue]
    exact fromU32le_lt _

theorem decodeLoop_flatMap : ∀ {rs : List Record} {n : Nat}, (∀ r ∈ rs, ShortRecord r) →
    rs.length ≤ n → decodeLoop n (rs.flatMap snapshotRecord) = .ok rs
  | [], 0, _, _ => rfl
  | [], _ + 1, _, _ => rfl
  | r :: rs, n + 1, hrs, hn => by
    have hrest : decodeLoop n (rs.flatMap snapshotRecord) = .ok rs := decodeLoop_flatMap
      (fun x hx => hrs x (List.mem_cons_of_mem _ hx)) (Nat.le_of_succ_le_succ hn)
    have hrecord := decodeRecord_snapshotRecord (hrs r List.mem_cons_self)
      (rs.flatMap snapshotRecord)
    rw [List.flatMap_cons]
    cases hdata : snapshotRecord r ++ rs.flatMap snapshotRecord with
    | nil => exact absurd (List.append_eq_nil_iff.mp hdata).1 (snapshotRecord_ne_nil r)
    | cons b bs =>
      rw [hdata] at hrecord
      simp only [decodeLoop, hrecord, hrest]
      rfl

theorem decodeLoop_ok : ∀ {n : Nat} {data : Bytes} {rs : List Record}, data.length ≤ n →
    decodeLoop n data = .ok rs → data = rs.flatMap snapshotRecord ∧ ∀ r ∈ rs, ShortRecord r
  | 0, [], rs, _, h => by
    cases h
    exact ⟨rfl, nofun⟩
  | n + 1, [], rs, _, h => by
    cases h
    exact ⟨rfl, nofun⟩
  | n + 1, b :: bs, rs, hn, h => by
    rw [decodeLoop] at h
    cases hrecord : decodeRecord (b :: bs) with
    | error e => simp [hrecord] at h
    | ok x =>
      obtain ⟨r, rest⟩ := x
      simp only [hrecord] at h
      cases hrest : decodeLoop n rest with
      | error e => simp [hrest, Except.map] at h
      | ok more =>
        rw [hrest] at h
        cases h
        obtain ⟨hdata, hr⟩ := decodeRecord_ok hrecord
        have hlen : rest.length ≤ n := by
          have := congrArg List.length hdata
          rw [List.length_append, length_snapshotRecord] at this
          omega
        obtain ⟨hmore, hshort⟩ := decodeLoop_ok hlen hrest
        refine ⟨by rw [List.flatMap_cons, ← hmore]; exact hdata, fun x hx => ?_⟩
        rcases List.mem_cons.mp hx with rfl | hx
        · exact hr
        · exact hshort x hx

theorem length_le_flatMap : ∀ rs : List Record, rs.length ≤ (rs.flatMap snapshotRecord).length
  | [] => Nat.le_refl 0
  | r :: rs => by
    rw [List.flatMap_cons, List.length_append, length_snapshotRecord, List.length_cons]
    have := length_le_flatMap rs
    omega

/-- **What a chunk is.** -/
theorem decodeSnapshotChunk_iff {data : Bytes} {rs : List Record} :
    decodeSnapshotChunk data = .ok rs ↔
      data = rs.flatMap snapshotRecord ∧ ∀ r ∈ rs, ShortRecord r := by
  constructor
  · exact decodeLoop_ok (Nat.le_refl _)
  · rintro ⟨rfl, hrs⟩
    exact decodeLoop_flatMap hrs (length_le_flatMap rs)

theorem splitAt?_of_le {rest : Bytes} {n : Nat} (h : ¬ rest.length < n) :
    splitAt? rest n = some (rest.take n, rest.drop n) := if_pos (Nat.not_lt.mp h)

/-- Every slice is in range. -/
theorem sliceRecord_eq (rest : Bytes) : sliceRecord rest = some (decodeRecord rest) := by
  simp only [sliceRecord, decodeRecord]
  split
  · rfl
  rename_i hklen
  simp only [splitAt?_of_le hklen, Option.bind_eq_bind, Option.bind_some]
  split
  · rfl
  rename_i hkey
  simp only [splitAt?_of_le hkey, Option.bind_some]
  split
  · rfl
  rename_i hvlen
  simp only [splitAt?_of_le hvlen, Option.bind_some]
  split
  · rfl
  rename_i hvalue
  simp only [splitAt?_of_le hvalue, Option.bind_some]

/-- The decoder comes to an end without a panic. -/
theorem sliceRecords_eq : ∀ {n : Nat} {data : Bytes}, data.length ≤ n →
    sliceRecords n data = some (decodeLoop n data)
  | 0, [], _ => rfl
  | _ + 1, [], _ => rfl
  | n + 1, b :: bs, hn => by
    simp only [sliceRecords, decodeLoop, sliceRecord_eq]
    cases hrecord : decodeRecord (b :: bs) with
    | error e => rfl
    | ok x =>
      obtain ⟨r, rest⟩ := x
      have hlen : rest.length ≤ n := by
        have := congrArg List.length (decodeRecord_ok hrecord).1
        rw [List.length_append, length_snapshotRecord] at this
        omega
      simp only [sliceRecords_eq hlen, Option.map_some]

/-! ## The export loop -/

section Loop

variable {H : Bytes → Digest}

/-- The bytes of a group of records. -/
abbrev groupBytes (g : List Record) : Bytes := g.flatMap snapshotRecord

/-- A group that one chunk may hold. -/
def Packed (g : List Record) : Prop :=
  (groupBytes g).length ≤ snapshotChunkTarget ∨ ∃ r, g = [r]

/-- The loop has hashed the entries `es`, closed a chunk for each of `groups` and
is filling the next one with `cur`. -/
structure LoopInv (H : Bytes → Digest) (es : List Record) (groups : List (List Record))
    (cur : List Record) (st : ExportLoop) : Prop where
  entries : groups.flatten ++ cur = es
  leaves : st.leaves = es.map fun e => leafHash H e.1 e.2
  chunks : st.chunks = groups.map fun g => .new H (groupBytes g)
  filling : st.cur = groupBytes cur
  packed : ∀ g ∈ groups, Packed g
  packedCur : Packed cur

theorem groupBytes_eq_nil {g : List Record} (h : groupBytes g = []) : g = [] := by
  cases g with
  | nil => rfl
  | cons r g =>
    rw [groupBytes, List.flatMap_cons] at h
    exact absurd (List.append_eq_nil_iff.mp h).1 (snapshotRecord_ne_nil r)

theorem packed_nil : Packed [] := .inl (Nat.zero_le _)

theorem LoopInv.entry {es : List Record} {groups : List (List Record)} {cur : List Record}
    {st : ExportLoop} (h : LoopInv H es groups cur st) {e : Record} (he : isSidecar e.1 = false) :
    ∃ groups' cur', LoopInv H (es ++ [e]) groups' cur' (st.entry H e) := by
  have hlen : (groupBytes (cur ++ [e])).length =
      st.cur.length + (4 + e.1.length + 4 + e.2.length) := by
    rw [h.filling, groupBytes, groupBytes, List.flatMap_append, List.flatMap_singleton,
      List.length_append, length_snapshotRecord]
  simp only [ExportLoop.entry, he, Bool.false_eq_true, if_false]
  split
  · -- the record does not fit: the chunk is closed, the record starts the next one
    refine ⟨groups ++ [cur], [e], ?_, ?_, ?_, ?_, ?_, .inr ⟨e, rfl⟩⟩
    · rw [List.flatten_append, List.flatten_singleton, h.entries]
    · rw [h.leaves, List.map_append]
      rfl
    · rw [h.chunks, h.filling, List.map_append]
      rfl
    · exact (List.flatMap_singleton ..).symm
    · intro g hg
      rcases List.mem_append.mp hg with hg | hg
      · exact h.packed g hg
      · rw [List.mem_singleton.mp hg]
        exact h.packedCur
  · rename_i hfits
    refine ⟨groups, cur ++ [e], ?_, ?_, h.chunks, ?_, h.packed, ?_⟩
    · rw [← List.append_assoc, h.entries]
    · rw [h.leaves, List.map_append]
      rfl
    · rw [h.filling, groupBytes, groupBytes, List.flatMap_append, List.flatMap_singleton]
    · by_cases hcur : st.cur = []
      · rw [h.filling] at hcur
        rw [groupBytes_eq_nil hcur]
        exact .inr ⟨e, rfl⟩
      · refine .inl ?_
        rw [hlen]
        exact Nat.not_lt.mp fun hlt => hfits ⟨hlt, hcur⟩

theorem LoopInv.foldl : ∀ {rest es : List Record} {groups : List (List Record)}
    {cur : List Record} {st : ExportLoop}, LoopInv H es groups cur st →
    (∀ e ∈ rest, isSidecar e.1 = false) →
      ∃ groups' cur', LoopInv H (es ++ rest) groups' cur' (rest.foldl (ExportLoop.entry H) st)
  | [], es, groups, cur, st, h, _ => ⟨groups, cur, by rw [List.append_nil]; exact h⟩
  | e :: rest, es, groups, cur, st, h, hrest => by
    obtain ⟨groups', cur', h'⟩ := h.entry (hrest e List.mem_cons_self)
    have hfold := h'.foldl fun x hx => hrest x (List.mem_cons_of_mem _ hx)
    rwa [List.append_assoc, List.singleton_append] at hfold

/-- **What the loop exports**: the entries in groups, one chunk for each. -/
theorem exportLoop_spec (H : Bytes → Digest) {es : List Record}
    (hes : ∀ e ∈ es, isSidecar e.1 = false) :
    (exportLoop H es).leaves = es.map (fun e => leafHash H e.1 e.2) ∧
      ∃ groups : List (List Record), groups.flatten = es ∧ (∀ g ∈ groups, Packed g) ∧
        (exportLoop H es).close H = groups.map fun g => .new H (groupBytes g) := by
  have hstart : LoopInv H [] [] [] ⟨[], [], []⟩ :=
    ⟨rfl, rfl, rfl, rfl, nofun, packed_nil⟩
  obtain ⟨groups, cur, h⟩ := hstart.foldl hes
  rw [List.nil_append] at h
  refine ⟨h.leaves, ?_⟩
  by_cases hclose : (exportLoop H es).cur ≠ [] ∨ (exportLoop H es).chunks = []
  · refine ⟨groups ++ [cur], ?_, fun g hg => ?_, ?_⟩
    · rw [List.flatten_append, List.flatten_singleton, h.entries]
    · rcases List.mem_append.mp hg with hg | hg
      · exact h.packed g hg
      · rw [List.mem_singleton.mp hg]
        exact h.packedCur
    · rw [ExportLoop.close, if_pos hclose]
      change (es.foldl (ExportLoop.entry H) _).chunks ++ [.new H
        (es.foldl (ExportLoop.entry H) _).cur] = _
      rw [h.chunks, h.filling, List.map_append]
      rfl
  · have hcur : cur = [] := by
      refine groupBytes_eq_nil ?_
      rw [← h.filling]
      exact not_not.mp fun hne => hclose (.inl hne)
    refine ⟨groups, ?_, h.packed, ?_⟩
    · have := h.entries
      rwa [hcur, List.append_nil] at this
    · rw [ExportLoop.close, if_neg hclose]
      exact h.chunks

end Loop

/-! ## Decoding what was exported -/

theorem decodeChunks_cons {chunk : SnapshotChunk} {rest : List SnapshotChunk} {rs : List Record} :
    decodeChunks (chunk :: rest) = .ok rs ↔ ∃ records more,
      decodeSnapshotChunk chunk.data = .ok records ∧ decodeChunks rest = .ok more ∧
        rs = records ++ more := by
  rw [decodeChunks]
  cases decodeSnapshotChunk chunk.data with
  | error e => simp
  | ok records =>
    cases decodeChunks rest with
    | error e => simp [Except.map]
    | ok more => simp [Except.map, eq_comm]

/-- Chunks are decoded to the records of their groups. -/
theorem decodeChunks_iff : ∀ {chunks : List SnapshotChunk} {rs : List Record},
    decodeChunks chunks = .ok rs ↔ (∀ r ∈ rs, ShortRecord r) ∧
      ∃ groups : List (List Record), chunks.map SnapshotChunk.data = groups.map groupBytes ∧
        groups.flatten = rs
  | [], rs => by
    constructor
    · intro h
      cases h
      exact ⟨nofun, [], rfl, rfl⟩
    · rintro ⟨-, groups, hchunks, rfl⟩
      rw [List.map_eq_nil_iff.mp hchunks.symm]
      rfl
  | chunk :: rest, rs => by
    rw [decodeChunks_cons]
    constructor
    · rintro ⟨records, more, hchunk, hrest, rfl⟩
      obtain ⟨hdata, hrecords⟩ := decodeSnapshotChunk_iff.mp hchunk
      obtain ⟨hmore, groups, hgroups, rfl⟩ := decodeChunks_iff.mp hrest
      refine ⟨fun r hr => ?_, records :: groups, ?_, rfl⟩
      · rcases List.mem_append.mp hr with hr | hr
        · exact hrecords r hr
        · exact hmore r hr
      · rw [List.map_cons, List.map_cons, hdata, hgroups]
    · rintro ⟨hshort, groups, hgroups, rfl⟩
      cases groups with
      | nil => cases hgroups
      | cons g groups =>
        obtain ⟨hdata, hrest⟩ := List.cons.inj hgroups
        rw [List.flatten_cons] at hshort
        exact ⟨g, groups.flatten,
          decodeSnapshotChunk_iff.mpr ⟨hdata, fun r hr => hshort r (List.mem_append_left _ hr)⟩,
          decodeChunks_iff.mpr ⟨fun r hr => hshort r (List.mem_append_right _ hr), groups,
            hrest, rfl⟩, rfl⟩

/-! ## Committed states -/

section Committed

variable {H : Bytes → Digest} {c : AppCodecs} {Tx Msg Data Genesis : Type}
  {logic : StateMachine Tx Msg Data Genesis}

/-- The call committed a state: genesis, a block or an import that succeeded. -/
inductive StateCommit (H : Bytes → Digest) (c : AppCodecs)
    (logic : StateMachine Tx Msg Data Genesis) (a a' : App) : Prop where
  | init (request : InitChainRequest) (hash : Bytes)
      (h : FailState.exec (init H c logic request) a = some (.ok hash, a'))
  | block (fullBlock : Block Tx) (payload : Option Bytes) (resp : FinalizeBlockResponse Data)
      (h : FailState.exec (finalizeBlockWithPayload H c logic fullBlock payload) a =
        some (.ok resp, a'))
  | imported (block : BlockInfo) (records : List Record) (expectedRoot : Digest)
      (tipPayload : Bytes)
      (h : FailState.exec (snapshotImport H c block records expectedRoot tipPayload) a =
        some (.ok (), a'))

/-- Calls that may follow and leave a committed state, whatever they return: all
but another genesis or import, which write before they can fail. -/
def AppCall.isQuiet : AppCall Tx → Bool
  | .init _ => false
  | .snapshotImport .. => false
  | _ => true

/-- A state some run of the application has committed, and what calls after it
have made of it. -/
inductive Committed (H : Bytes → Digest) (c : AppCodecs)
    (logic : StateMachine Tx Msg Data Genesis) : App → Prop where
  | start {storage : Persistent} {calls : List (AppCall Tx)} {a a' : App}
      (hrun : runCalls H c logic calls (App.new storage) = some a)
      (hcommit : StateCommit H c logic a a') : Committed H c logic a'
  | after {a a' : App} {call : AppCall Tx} (ha : Committed H c logic a)
      (hquiet : call.isQuiet = true) (h : call.apply H c logic a = some a') : Committed H c logic a'

theorem StateCommit.storedRoot {a a' : App} (hinv : IndexInv H a) (h : StateCommit H c logic a a') :
    IndexInv H a' ∧ StoredRoot H c a' := by
  cases h with
  | init request hash h => exact storedRoot_init request hinv h
  | block fullBlock payload resp h =>
    obtain ⟨hinv', hroot⟩ := triple_finalizeBlockImpl fullBlock payload true hinv h
    exact ⟨hinv', (hroot rfl).2⟩
  | imported block records expectedRoot tipPayload h =>
    obtain ⟨⟨e, he⟩, -⟩ | ⟨a₁, -, hadopt⟩ := exec_snapshotImport h
    · cases he
    obtain ⟨u, a₂, -, hrest⟩ := FailState.exec_bind_ok hadopt
    obtain ⟨v, a₃, hdrop, hstore⟩ := FailState.exec_bind_ok hrest
    cases hdrop
    exact storedRoot_storeStateRoot (IndexInv.of_none rfl) hstore

theorem StoredRoot.congr {a a' : App} (h : StoredRoot H c a)
    (hdata : ∀ k, ¬ IsRecord k → a'.storage.data[k]? = a.storage.data[k]?) :
    StoredRoot H c a' := by
  obtain ⟨bz, hjson, hget⟩ := h
  have hsame : SameConsensus a'.storage.data a.storage.data := fun k hk =>
    hdata k fun hrec => by simp [hk, IsRecord] at hrec
  refine ⟨bz, ?_, ?_⟩
  · rw [hsame.stateRoot_eq]
    exact hjson
  · rw [hdata c.stateRootItem.key fun hrec => hrec.2 rfl]
    exact hget

/-- A quiet call is a block that succeeds, or changes nothing but records. -/
theorem AppCall.quiet_cases {a a' : App} {call : AppCall Tx} (hinv : IndexInv H a)
    (hquiet : call.isQuiet = true) (h : call.apply H c logic a = some a') :
    (∃ fullBlock payload resp, FailState.exec
        (finalizeBlockWithPayload H c logic fullBlock payload) a = some (.ok resp, a')) ∨
      ∀ k, ¬ IsRecord k → a'.storage.data[k]? = a.storage.data[k]? := by
  have hrecord : call.isRecord = true → ∀ k, ¬ IsRecord k →
      a'.storage.data[k]? = a.storage.data[k]? := fun hrec => (call.isRecord_keeps hrec h).2
  cases call with
  | loadFromStorage =>
    obtain ⟨⟨r, a₁⟩, hload, rfl⟩ := Option.map_eq_some_iff.mp h
    exact .inr fun k _ => by rw [(loadFromStorage_index hload).2]
  | init request | snapshotImport block records expectedRoot tipPayload => cases hquiet
  | finalizeBlock fullBlock payload =>
    obtain ⟨⟨r, a₁⟩, hexec, rfl⟩ := Option.map_eq_some_iff.mp h
    have hend := triple_finalizeBlock a.storage fullBlock payload true ⟨hinv, rfl⟩ hexec
    cases r with
    | ok resp => exact .inl ⟨fullBlock, payload, resp, hexec⟩
    | error e => exact .inr fun k _ => by rw [hend.2]
  | simulateFinalizeBlock fullBlock =>
    obtain ⟨⟨r, a₁⟩, hexec, rfl⟩ := Option.map_eq_some_iff.mp h
    have hend := triple_finalizeBlock a.storage fullBlock none false ⟨hinv, rfl⟩ hexec
    cases r with
    | ok resp => exact .inr fun k _ => by rw [hend.2.1 rfl]
    | error e => exact .inr fun k _ => by rw [hend.2]
  | _ => exact .inr (hrecord rfl)

/-- The stored root of a committed state is the root of its entries. -/
theorem Committed.storedRoot {a : App} (h : Committed H c logic a) :
    IndexInv H a ∧ StoredRoot H c a := by
  induction h with
  | start hrun hcommit => exact hcommit.storedRoot (IndexInv.runCalls (IndexInv.of_none rfl) hrun)
  | @after a a' call ha hquiet h ih =>
    refine ⟨ih.1.apply h, ?_⟩
    rcases call.quiet_cases ih.1 hquiet h with ⟨fullBlock, payload, resp, hexec⟩ | hsame
    · exact (StateCommit.storedRoot ih.1 (.block fullBlock payload resp hexec)).2
    · exact ih.2.congr hsame

end Committed

/-! ## The export as a whole -/

section RoundTrip

variable (H : Bytes → Digest) (c : AppCodecs) {Tx Msg Data Genesis : Type}
  (logic : StateMachine Tx Msg Data Genesis)

theorem not_sidecar_scanEntries (data : Store) : ∀ e ∈ scanEntries data, isSidecar e.1 = false :=
  fun e he => ((getElem?_scanEntries data e.1 e.2).mp he).1

/-- What an export that succeeds returns. -/
theorem exec_snapshotExport_ok {a a' : App} {exp : SnapshotExport}
    (h : FailState.exec (snapshotExport H c) a = some (.ok exp, a')) :
    a' = a ∧ exp.stateRoot = stateRoot H a.storage.data ∧
      exp.chunks = (exportLoop H (scanEntries a.storage.data)).close H := by
  obtain ⟨⟨data', res, m'⟩, hrun, heq⟩ := Option.map_eq_some_iff.mp h
  obtain ⟨hres, rfl⟩ := Prod.mk.inj heq
  subst hres
  refine ⟨rfl, ?_⟩
  obtain ⟨data₁, block, m₁, hload, hrest⟩ := exec_bind_ok hrun
  obtain rfl : data₁ = a.storage.data := exec_reader_state hload
  obtain ⟨data₂, entries, m₂, hscan, hdone⟩ := exec_bind_ok hrest
  obtain ⟨-, rfl⟩ := exec_scan_ok hscan
  obtain ⟨-, hexp, -⟩ := exec_pure_cases hdone
  obtain rfl := Except.ok.inj hexp
  refine ⟨?_, rfl⟩
  rw [(exportLoop_spec H (not_sidecar_scanEntries a.storage.data)).1]
  rfl

/-- The export of a store that can be paid for and whose last block can be read. -/
theorem exec_snapshotExport_of_lt {a : App} (hgas : stateProofGas c a.storage.data < u64Max)
    (hparse : ∀ bz, a.storage.data[c.lastBlock.key]? = some bz →
      ∃ block, c.blockInfo.fromJson bz = .ok block) :
    ∃ exp, FailState.exec (snapshotExport H c) a = some (.ok exp, a) := by
  have hinf : GasMeter.infinite = ⟨u64Max, 0⟩ := rfl
  unfold stateProofGas at hgas
  obtain ⟨o, hload⟩ := exec_mayLoad_reader (ε := PulsarError) a.storage.backend a.storage.data
    c.lastBlock .infinite (by rw [hinf]; dsimp only; omega) hparse
  have hscan := exec_scan_of_lt (ε := PulsarError) a.storage.backend a.storage.data
    { GasMeter.infinite with used := GasMeter.infinite.used +
      defaultPersistedPrices.readCost c.lastBlock.key a.storage.data[c.lastBlock.key]? }
    (by rw [hinf]; dsimp only; omega)
  refine ⟨⟨(o.map BlockInfo.height).getD 0,
    merkleRoot H (exportLoop H (scanEntries a.storage.data)).leaves, snapshotFormatV1,
    (exportLoop H (scanEntries a.storage.data)).close H⟩, ?_⟩
  change (Comp.exec _ (exportSnapshot H c) _ _).map _ = _
  rw [exportSnapshot, exec_bind, hload, Option.bind_some, andThen, exec_bind, hscan]
  rfl

/-- What the export `exp` of the state `a` should be worth to a joiner. -/
structure RoundTrip (a : App) (exp : SnapshotExport) : Prop where
  /-- The chunks hold the consensus entries in key order. -/
  decoded : decodeChunks exp.chunks = .ok (scanEntries a.storage.data)
  verified : verifySnapshotRoot H (scanEntries a.storage.data) exp.stateRoot = true
  /-- The exported root is the one stored beside a committed state. -/
  stored : Committed H c logic a →
    ∃ bz, c.digest.toJsonVec exp.stateRoot = .ok bz ∧
      a.storage.data[c.stateRootItem.key]? = some bz
  bounded : ∀ chunk ∈ exp.chunks,
    chunk.data.length ≤ snapshotChunkTarget ∨ ∃ r, chunk.data = snapshotRecord r

theorem roundTrip_iff {a a' : App} {exp : SnapshotExport}
    (h : FailState.exec (snapshotExport H c) a = some (.ok exp, a')) :
    RoundTrip H c logic a exp ↔ ∀ e ∈ scanEntries a.storage.data, ShortRecord e := by
  obtain ⟨-, hroot, hchunks⟩ := exec_snapshotExport_ok H c h
  obtain ⟨-, groups, hflat, hpacked, hclose⟩ :=
    exportLoop_spec H (not_sidecar_scanEntries a.storage.data)
  rw [hclose] at hchunks
  constructor
  · intro hrt
    exact (decodeChunks_iff.mp hrt.decoded).1
  · intro hshort
    refine ⟨?_, ?_, ?_, ?_⟩
    · refine decodeChunks_iff.mpr ⟨hshort, groups, ?_, hflat⟩
      rw [hchunks, List.map_map]
      rfl
    · have hsort := (sortByKey_eq_iff_perm (ascending_scanEntries a.storage.data) _).mpr
        (List.Perm.refl _)
      rw [verifySnapshotRoot, hsort, hroot]
      exact beq_self_eq_true _
    · intro hcommitted
      rw [hroot]
      exact hcommitted.storedRoot.2
    · intro chunk hchunk
      rw [hchunks] at hchunk
      obtain ⟨g, hg, rfl⟩ := List.mem_map.mp hchunk
      rcases hpacked g hg with hlen | ⟨r, rfl⟩
      · exact .inl hlen
      · exact .inr ⟨r, List.flatMap_singleton ..⟩

/-- **The snapshot round trip.** An export changes nothing, it succeeds on every
store that can be scanned, and it is worth the state to a joiner exactly if
every key and every value is short enough for its length field. Decoding runs
to its end on every byte string, with every slice in range, and accepts only
concatenations of whole records. -/
theorem snapshot_round_trip_iff (a : App) :
    (∀ exp a', FailState.exec (snapshotExport H c) a = some (.ok exp, a') → a' = a ∧
      (RoundTrip H c logic a exp ↔ ∀ e ∈ scanEntries a.storage.data, ShortRecord e)) ∧
    (stateProofGas c a.storage.data < u64Max →
      (∀ bz, a.storage.data[c.lastBlock.key]? = some bz →
        ∃ block, c.blockInfo.fromJson bz = .ok block) →
      ∃ exp, FailState.exec (snapshotExport H c) a = some (.ok exp, a)) ∧
    (∀ data, sliceRecords data.length data = some (decodeSnapshotChunk data)) ∧
    ∀ data rs, decodeSnapshotChunk data = .ok rs ↔
      data = rs.flatMap snapshotRecord ∧ ∀ r ∈ rs, ShortRecord r := by
  refine ⟨fun exp a' h => ?_, exec_snapshotExport_of_lt H c, fun data => ?_, fun data rs => ?_⟩
  · exact ⟨(exec_snapshotExport_ok H c h).1, roundTrip_iff H c logic h⟩
  · exact sliceRecords_eq (Nat.le_refl _)
  · exact decodeSnapshotChunk_iff

end RoundTrip

/-! ## Genesis over a store with a long value

The value is never evaluated: genesis reads its length from the price of the
scan only. -/

section LongValue

variable {H : Bytes → Digest} {c : AppCodecs} {Tx Msg Data Genesis : Type}
  {logic : StateMachine Tx Msg Data Genesis}

theorem scanGas_eq (data : Store) :
    scanGas data = 2 * defaultPersistedPrices.rangeFlat +
      ((scanEntries data).map fun r => defaultPersistedPrices.readCost r.1 (some r.2)).sum := by
  rw [scanGas, scanIter, GasIter.cost_chain, ← mapRange_consensus]
  simp only [GasIter.cost, GasIter.ofRecords, List.map_map, List.map_append, List.sum_append,
    Function.comp_def, List.sum_cons, List.sum_nil, Nat.add_zero]

/-- On RocksDB a commit cannot fail. -/
theorem exec_withWriter_rock {α : Type} {p : StorageM PulsarError α} {a : App} {w : Writer} {x : α}
    {m : GasMeter} (hb : a.storage.backend = .rock)
    (hrun : Comp.exec (writerObj .rock) p .infinite a.storage.writer = some (w, .ok x, m)) :
    ∃ a', FailState.exec (withWriter H p) a = some (.ok x, a') ∧ a'.storage.backend = .rock ∧
      ∀ k, k ≠ appHashKey → a'.storage.data[k]? = w.view[k]? := by
  obtain ⟨⟨backend, data, hash⟩, index, inner⟩ := a
  obtain rfl : backend = .rock := hb
  refine ⟨⟨⟨.rock, w.view.insert appHashKey (w.hasher.hash H), hash⟩, index, inner⟩, ?_, rfl, ?_⟩
  · rw [withWriter, FailState.exec_ofFun, hrun]
    rfl
  · intro k hk
    exact (Std.ExtTreeMap.getElem?_insert ..).trans (if_neg (by simpa using hk.symm))

theorem exec_ensureRootIndex_none {a : App} (hindex : a.rootIndex = none)
    (hgas : scanGas a.storage.data < u64Max) :
    FailState.exec (ensureRootIndex H) a =
      some (.ok (), { a with rootIndex := some (buildIndex H (scanEntries a.storage.data)) }) := by
  have hscan := exec_scan_of_lt (ε := PulsarError) a.storage.backend a.storage.data .infinite
    (by simpa [GasMeter.infinite, GasMeter.new] using hgas)
  change FailState.exec (if a.rootIndex.isNone then rebuildRootIndex H else pure ()) a = _
  rw [hindex, Option.isNone_none, if_pos rfl, rebuildRootIndex, exec_bind_eq, withReader,
    FailState.exec_ofFun, hscan]
  rfl

/-- Everything but the two hashes. -/
def SameState (c : AppCodecs) (s t : Store) : Prop :=
  ∀ k, k ≠ appHashKey → k ≠ c.stateRootItem.key → s[k]? = t[k]?

theorem SameState.sameConsensus {s t : Store} (h : SameState c s t) : SameConsensus s t := by
  intro k hk
  have hne : ∀ {key}, isSidecar key = true → k ≠ key := by
    rintro key hkey rfl
    rw [hk] at hkey
    cases hkey
  exact h k (hne sidecar_appHashKey) (hne rfl)

theorem exec_storeStateRoot_rock {a : App} {bz : Bytes} (hb : a.storage.backend = .rock)
    (hindex : a.rootIndex = none) (hgas : scanGas a.storage.data < u64Max)
    (hjson : c.stateRootItem.codec.toJsonVec (stateRoot H a.storage.data) = .ok bz) :
    ∃ a', FailState.exec (storeStateRoot H c) a = some (.ok (), a') ∧
      SameState c a'.storage.data a.storage.data := by
  have hroot := (leafIndex_buildIndex (H := H) a.storage.data).rootWithPending_eq
    (Tracks.empty a.storage.data)
  have hsave : ∃ w m, Comp.exec (writerObj .rock) (c.stateRootItem.save
      (rootWithPending H (buildIndex H (scanEntries a.storage.data)) ∅) :
        StorageM PulsarError Unit) .infinite a.storage.writer = some (w, .ok (), m) := by
    rw [hroot, Item.save, exec_bind, hjson]
    change ∃ w m, Comp.exec (writerObj .rock) (Storage.set c.stateRootItem.key bz :
      StorageM PulsarError Unit) .infinite a.storage.writer = some (w, .ok (), m)
    rw [exec_set]
    simp only [writerObj, rockWriter, PriceList.chargeWrite, PriceList.writeCost_persisted]
    exact ⟨_, _, rfl⟩
  obtain ⟨w, m, hsave⟩ := hsave
  obtain ⟨a', hwriter, -, hview⟩ := exec_withWriter_rock (H := H) (a := { a with
    rootIndex := some (buildIndex H (scanEntries a.storage.data)) }) hb hsave
  refine ⟨a', ?_, fun k hk hroot => ?_⟩
  · rw [storeStateRoot, exec_bind_eq, exec_ensureRootIndex_none hindex hgas]
    exact hwriter
  · rcases exec_save_cases (freeWrites_writerObj .rock) hsave with ⟨e, he, -⟩ | ⟨-, bz, -, hsaved⟩
    · cases he
    rw [hview k hk, hsaved, OrdMap.getElem?_update, if_neg hroot.symm, a.storage.view_writer]

theorem appHash_isSome (a : App) : (a.appHash c).isSome = true := by
  unfold App.appHash
  split
  · rename_i hnone
    rw [exec_mayLoad] at hnone
    cases hnone
  · rfl
  · rfl

/-- Genesis succeeds if its writes do, the scan can be paid for and the root has a
text. -/
theorem exec_init_rock {a : App} {request : InitChainRequest} {w : Writer} {m : GasMeter}
    {bz : Bytes} (hb : a.storage.backend = .rock)
    (hrun : Comp.exec (writerObj .rock) (writeGenesis c logic request
      ⟨request.initialHeight - 1, request.time, request.chainId⟩) .infinite a.storage.writer =
        some (w, .ok (), m))
    (hgas : scanGas w.view < u64Max)
    (hjson : c.stateRootItem.codec.toJsonVec (stateRoot H w.view) = .ok bz) :
    ∃ hash a', FailState.exec (init H c logic request) a = some (.ok hash, a') ∧
      SameState c a'.storage.data w.view := by
  obtain ⟨a₁, hwriter, hb₁, hview⟩ := exec_withWriter_rock (H := H) hb hrun
  have hsame₁ : SameState c a₁.storage.data w.view := fun k hk _ => hview k hk
  obtain ⟨a₂, hstore, hsame₂⟩ := exec_storeStateRoot_rock (H := H) (c := c) (a := { a₁ with
      data := some ⟨⟨request.initialHeight - 1, request.time, request.chainId⟩, request.chainId,
        request.params⟩, rootIndex := none }) hb₁ rfl
    (by rw [scanGas_eq, hsame₁.sameConsensus.scanEntries_eq, ← scanGas_eq]; exact hgas)
    (by rw [hsame₁.sameConsensus.stateRoot_eq]; exact hjson)
  obtain ⟨hash, hhash⟩ := Option.isSome_iff_exists.mp (appHash_isSome (c := c) a₂)
  refine ⟨hash, a₂, ?_, fun k hk hk' => (hsame₂ k hk hk').trans (hsame₁ k hk hk')⟩
  rw [init, exec_bind_eq, hwriter]
  change FailState.exec (storeStateRoot H c >>= fun _ => get >>= fun a =>
    FailState.unwrap (a.appHash c)) _ = _
  rw [exec_bind_eq, hstore]
  change FailState.exec (FailState.unwrap (a₂.appHash c)) a₂ = _
  rw [hhash]
  rfl

end LongValue

theorem length_numberJson_byte : ∀ n < 256, (numberJson n).length ≤ 3 := by decide +kernel

theorem length_commaSeparated_le {n : Nat} : ∀ {items : List Bytes}, (∀ x ∈ items, x.length ≤ n) →
    (commaSeparated items).length ≤ (n + 1) * items.length
  | [], _ => Nat.zero_le _
  | [x], h => by
    have hx := h x List.mem_cons_self
    rw [commaSeparated, List.length_singleton, Nat.mul_one]
    omega
  | x :: y :: rest, h => by
    have hx := h x List.mem_cons_self
    have hrest := length_commaSeparated_le fun z hz => h z (List.mem_cons_of_mem x hz)
    have hcomma : (str ",").length = 1 := by decide
    rw [commaSeparated, List.length_append, List.length_append, hcomma, List.length_cons,
      Nat.mul_succ]
    · omega
    · simp

theorem length_byteArrayJson_le (b : Bytes) : (byteArrayJson b).length ≤ 4 * b.length + 2 := by
  have hbytes : ∀ x ∈ b.map fun x => numberJson x.toNat, x.length ≤ 3 := by
    intro x hx
    obtain ⟨y, -, rfl⟩ := List.mem_map.mp hx
    exact length_numberJson_byte _ y.toNat_lt
  have hitems := length_commaSeparated_le hbytes
  have hopen : (str "[").length = 1 := by decide
  have hclose : (str "]").length = 1 := by decide
  rw [List.length_map] at hitems
  rw [byteArrayJson, arrayJson, List.length_append, List.length_append, hopen, hclose]
  omega

/-- A digest always has a text. -/
theorem toJsonVec_ofValues (blocks : List BlockInfo) (states : List AppState)
    (records : List Bytes) (numbers : List Nat) (d : Digest) :
    (AppCodecs.ofValues blocks states records numbers [d]).stateRootItem.codec.toJsonVec d =
      .ok (byteArrayJson d.bytes) := by
  have hlen := length_byteArrayJson_le d.bytes
  rw [d.length_bytes] at hlen
  change WasmCodec.tableTo [(d, byteArrayJson d.bytes)] d = _
  have hfit : (byteArrayJson d.bytes).length < 1073741824 := by omega
  simpa [WasmCodec.tableTo, WasmCodec.tableFrom] using hfit

def longStore (v : Bytes) : Store := (∅ : Store).insert [1] v

def longEntries (v : Bytes) : List Record :=
  [([0, 3] ++ str "appstate", AppCodecs.appStateJson sampleAppState), ([1], v)]

def longRoot (v : Bytes) : Digest :=
  merkleRoot sha256 ((longEntries v).map fun e => leafHash sha256 e.1 e.2)

def longCodecs (v : Bytes) : AppCodecs :=
  .ofValues [⟨0, 100, "slay"⟩] [sampleAppState] [] [] [longRoot v]

def longRequest : InitChainRequest := ⟨100, "slay", ⟨1000, none⟩, [], 1⟩

def longWriter (v : Bytes) : Option (Writer × Except PulsarError Unit × GasMeter) :=
  Comp.exec (writerObj .rock) (writeGenesis (longCodecs v) sampleLogic longRequest
    ⟨0, 100, "slay"⟩) .infinite (Persistent.writer ⟨.rock, longStore v, []⟩)

def longChanges : List (Bytes × Delta) :=
  [([0, 3] ++ str "appstate", .set (AppCodecs.appStateJson sampleAppState)),
    (str "_last_block", .set (AppCodecs.blockInfoJson ⟨0, 100, "slay"⟩))]

/-- Genesis does not read the value. It stays unevaluated here, and is only known
by its length from here on. -/
theorem longWriter_changes : ∃ v : Bytes, v.length = 2 ^ 32 ∧
    (longWriter v).map (fun x => (x.2.1.isOk, x.1.changes.toList)) = some (true, longChanges) :=
  ⟨List.replicate (2 ^ 32) 0, List.length_replicate, by decide +kernel⟩

theorem longStore_getElem? (v k : Bytes) :
    (longStore v)[k]? = if k = [1] then some v else none := by
  by_cases hk : k = [1]
  · rw [if_pos hk, hk]
    exact Std.ExtTreeMap.getElem?_insert_self
  · rw [if_neg hk, longStore, Std.ExtTreeMap.getElem?_insert, if_neg (by simpa using Ne.symm hk)]
    exact Std.ExtTreeMap.getElem?_empty

/-- What genesis shows over the long value. -/
theorem longWriter_view {v : Bytes} {w : Writer} {m : GasMeter}
    (hrun : longWriter v = some (w, .ok (), m)) (hchanges : w.changes.toList = longChanges)
    (k : Bytes) :
    w.view[k]? = if k = [0, 3] ++ str "appstate" then some (AppCodecs.appStateJson sampleAppState)
      else if k = str "_last_block" then some (AppCodecs.blockInfoJson ⟨0, 100, "slay"⟩)
      else if k = [1] then some v else none := by
  have hcommitted : w.committed = longStore v := exec_writerObj_committed hrun
  rw [Writer.getElem?_view, ← OrdMap.lookup_toList, hchanges, hcommitted, longStore_getElem?,
    longChanges]
  simp only [List.lookup_cons, List.lookup_nil]
  by_cases happ : k = [0, 3] ++ str "appstate"
  · rw [if_pos happ, beq_iff_eq.mpr happ]
    rfl
  by_cases hlast : k = str "_last_block"
  · rw [if_neg happ, if_pos hlast, beq_eq_false_iff_ne.mpr happ, beq_iff_eq.mpr hlast]
    rfl
  · rw [if_neg happ, if_neg hlast, beq_eq_false_iff_ne.mpr happ, beq_eq_false_iff_ne.mpr hlast]

theorem longWriter_entries {v : Bytes} {w : Writer} {m : GasMeter}
    (hrun : longWriter v = some (w, .ok (), m)) (hchanges : w.changes.toList = longChanges) :
    scanEntries w.view = longEntries v := by
  have hasc : OrdMap.Ascending (longEntries v) := List.pairwise_pair.mpr (by dsimp only; decide)
  refine (ascending_scanEntries w.view).eq_of_mem_iff hasc ?_
  rintro ⟨k, value⟩
  rw [getElem?_scanEntries, longWriter_view hrun hchanges, longEntries, List.mem_cons,
    List.mem_singleton, Prod.mk.injEq, Prod.mk.injEq]
  have happ : isSidecar ([0, 3] ++ str "appstate") = false := rfl
  have hlast : isSidecar (str "_last_block") = true := rfl
  have hone : isSidecar [1] = false := rfl
  have hne : ([1] : Bytes) ≠ [0, 3] ++ str "appstate" := by decide
  generalize [0, 3] ++ str "appstate" = app at happ hne ⊢
  generalize str "_last_block" = last at hlast ⊢
  grind

theorem readCost_persisted (key value : Bytes) :
    defaultPersistedPrices.readCost key (some value) = 1000 + (key.length + value.length) := by
  simp [PriceList.readCost, defaultPersistedPrices]

theorem scanGas_long {s : Store} {v : Bytes} (hv : v.length = 2 ^ 32)
    (h : scanEntries s = longEntries v) : scanGas s < 2 ^ 34 := by
  have hstate : ([0, 3] ++ str "appstate" : Bytes).length +
      (AppCodecs.appStateJson sampleAppState).length < 100 := by decide +kernel
  have hflat : defaultPersistedPrices.rangeFlat = 1000 := rfl
  have hbound : ∀ {n m : Nat}, n < 100 → m = 2 ^ 32 →
      2 * 1000 + (1000 + n + (1000 + (1 + m) + 0)) < 2 ^ 34 := by omega
  rw [scanGas_eq, h, longEntries]
  simp only [List.map_cons, List.map_nil, List.sum_cons, List.sum_nil, readCost_persisted, hflat]
  exact hbound hstate hv

/-- Genesis over a store with a value of 2^32 bytes, exported: the length of the
value is written as zero. -/
theorem snapshot_round_trip_fails : ∃ c a exp, Committed sha256 c sampleLogic a ∧
    FailState.exec (snapshotExport sha256 c) a = some (.ok exp, a) ∧
    ¬ RoundTrip sha256 c sampleLogic a exp := by
  obtain ⟨v, hv, hmap⟩ := longWriter_changes
  obtain ⟨⟨w, r, m⟩, hrun, heq⟩ := Option.map_eq_some_iff.mp hmap
  obtain ⟨hok, hchanges⟩ := Prod.mk.inj heq
  cases r with
  | error e => cases hok
  | ok u =>
    have hentries := longWriter_entries hrun hchanges
    have hroot : stateRoot sha256 w.view = longRoot v := by
      rw [stateRoot, hentries, longRoot]
    have hjson : (longCodecs v).stateRootItem.codec.toJsonVec (stateRoot sha256 w.view) =
        .ok (byteArrayJson (longRoot v).bytes) := by
      rw [hroot]
      exact toJsonVec_ofValues ..
    obtain ⟨hash, a, hinit, hsame⟩ : ∃ hash a, FailState.exec
        (init sha256 (longCodecs v) sampleLogic longRequest)
          (App.new ⟨.rock, longStore v, []⟩) = some (.ok hash, a) ∧
        SameState (longCodecs v) a.storage.data w.view :=
      exec_init_rock rfl hrun
        (Nat.lt_of_lt_of_le (scanGas_long hv hentries) (by decide)) hjson
    have hentries' : scanEntries a.storage.data = longEntries v := by
      rw [hsame.sameConsensus.scanEntries_eq, hentries]
    have hlast : a.storage.data[(longCodecs v).lastBlock.key]? =
        some (AppCodecs.blockInfoJson ⟨0, 100, "slay"⟩) := by
      have happ : str "_last_block" ≠ appHashKey := by decide
      have hstate : str "_last_block" ≠ str "_state_root" := by decide
      exact (hsame _ happ hstate).trans (longWriter_view hrun hchanges _)
    have hgas : stateProofGas (longCodecs v) a.storage.data < u64Max := by
      have hblock : (str "_last_block").length +
          (AppCodecs.blockInfoJson ⟨0, 100, "slay"⟩).length < 1000 := by decide +kernel
      have hbound : ∀ {n m : Nat}, n < 1000 → m < 2 ^ 34 → 1000 + n + m < 2 ^ 64 - 1 := by omega
      rw [stateProofGas, hlast, readCost_persisted]
      exact hbound hblock (scanGas_long hv hentries')
    obtain ⟨exp, hexp⟩ := exec_snapshotExport_of_lt sha256 (longCodecs v) hgas (by
      intro bz hbz
      rw [hlast] at hbz
      cases hbz
      exact ⟨⟨0, 100, "slay"⟩, rfl⟩)
    have hstart : runCalls sha256 (longCodecs v) sampleLogic []
        (App.new ⟨.rock, longStore v, []⟩) = some (App.new ⟨.rock, longStore v, []⟩) := rfl
    have hcommitted := Committed.start hstart (.init longRequest hash hinit)
    refine ⟨longCodecs v, a, exp, hcommitted, hexp, fun hrt => ?_⟩
    have hshort := (roundTrip_iff sha256 (longCodecs v) sampleLogic hexp).mp hrt ([1], v)
      (by rw [hentries']; exact List.mem_cons_of_mem _ List.mem_cons_self)
    exact absurd (hv ▸ hshort.2) (Nat.lt_irrefl _)

end LayerSdk
