import LayerSdk.Finalized
import LayerSdk.LcVerify

/-!
# Restarting a node

What a node finds again when it starts, and what it makes of it.

- The consensus anchor. After the journal is wiped every seat needs the same
  parent for view 1, and the coordinator's `restart_anchor` names it.
  `genesis` returns it while the executed tip is below it; at its height the
  local tip is returned whatever its digest is, the difference is only
  logged. `genesis_eq_anchor_iff` says that this is the only way two seats
  end up on different parents.
- The payload files. Their names carry digest and height, so both indexes are
  rebuilt from a directory listing. Which of several payloads of one height
  was executed is in memory only: the listing's last one takes the height
  (`getElem?_openDir_byHeight`), and `canonical_iff_listedLast` says that the
  canonical choice is lost exactly when that is another one.
-/

namespace LayerSdk

open Std EffectProg HashChain

/-! ## The consensus anchor -/

namespace LayerNode

variable (H : Bytes → Digest)

def executedTip (n : LayerNode) : Nat × Digest := (n.currentHeight, n.lastDigest)

/-- The parent of view 1 of a fresh journal. -/
def genesis (restartAnchor : Option (Nat × Digest)) (n : LayerNode) : Digest :=
  let (h, d) := n.executedTip
  match restartAnchor with
  | some (anchorHeight, anchorDigest) =>
    if h < anchorHeight then anchorDigest
    -- another digest at the anchor's height is logged; nothing is refused
    else if h = 0 then genesisParent H
    else d
  | none => if h = 0 then genesisParent H else d

/-- A node somewhere in a run from a start on any application. -/
def Reached {Tx Msg Data Genesis : Type} (c : AppCodecs) (logic : StateMachine Tx Msg Data Genesis)
    (deps : NodeDeps Tx Data) (n : LayerNode) : Prop :=
  ∃ app initialHeight actions s log, runActions H c logic deps actions
    ⟨new H c app initialHeight, .idle⟩ = some (s, log) ∧ s.node = n

section Reached

variable {H} {Tx Msg Data Genesis : Type} {c : AppCodecs}
  {logic : StateMachine Tx Msg Data Genesis} {deps : NodeDeps Tx Data} {n n' : LayerNode}

/-- Heights of executed blocks are positive, so a node at height 0 has its
first digest. -/
theorem Reached.lastDigest_eq (h : Reached H c logic deps n) (hzero : n.currentHeight = 0) :
    n.lastDigest = genesisParent H := by
  obtain ⟨app, initialHeight, actions, s, log, hrun, rfl⟩ := h
  have hinv := NodeInv.of_run hrun
  have htip := hinv.tip
  rcases List.eq_nil_or_concat' (log.map Executed.payload) with hlog | ⟨front, p, hlog⟩
  · rw [hlog, tip_nil, Prod.mk.injEq, hzero] at htip
    obtain ⟨hdigest, hheight⟩ := htip
    exact hdigest.symm.trans (if_pos hheight)
  · rw [hlog, tip_append, Prod.mk.injEq, hzero] at htip
    have hpos := hinv.chain.lt_height p (by rw [hlog]; simp)
    rw [htip.2] at hpos
    exact absurd hpos (Nat.not_lt_zero _)

theorem Reached.genesis_eq_iff (h : Reached H c logic deps n) (anchorHeight : Nat)
    (anchorDigest : Digest) :
    genesis H (some (anchorHeight, anchorDigest)) n = anchorDigest ↔
      n.currentHeight < anchorHeight ∨ n.lastDigest = anchorDigest := by
  rw [genesis, executedTip]
  dsimp only
  by_cases hlt : n.currentHeight < anchorHeight
  · rw [if_pos hlt]
    exact ⟨fun _ => .inl hlt, fun _ => rfl⟩
  · rw [if_neg hlt]
    by_cases hzero : n.currentHeight = 0
    · rw [if_pos hzero, ← h.lastDigest_eq hzero]
      exact ⟨.inr, fun h => h.resolve_left hlt⟩
    · rw [if_neg hzero]
      exact ⟨.inr, fun h => h.resolve_left hlt⟩

/-- **The restart anchor.** Two seats at or below the anchor's height both
start from its digest exactly when neither has executed to that height with
another one. -/
theorem genesis_eq_anchor_iff (h : Reached H c logic deps n) (h' : Reached H c logic deps n')
    (anchorHeight : Nat) (anchorDigest : Digest) (_hle : n.currentHeight ≤ anchorHeight)
    (_hle' : n'.currentHeight ≤ anchorHeight) :
    (genesis H (some (anchorHeight, anchorDigest)) n = anchorDigest ∧
        genesis H (some (anchorHeight, anchorDigest)) n' = anchorDigest) ↔
      (n.currentHeight < anchorHeight ∨ n.lastDigest = anchorDigest) ∧
        (n'.currentHeight < anchorHeight ∨ n'.lastDigest = anchorDigest) :=
  and_congr (h.genesis_eq_iff ..) (h'.genesis_eq_iff ..)

end Reached

/-! ### A seat that executed another block -/

/-- A competitor of the first block. -/
def forkPayload : BlockPayload := { firstPayload with timestampNanos := 201 }

def anchorCodecs : AppCodecs :=
  .ofValues [] [] [firstPayload.toBytes, forkPayload.toBytes] [] []

/-- What is left of an application that executed `p` at height 1. -/
def appWith (p : BlockPayload) : App :=
  App.new ⟨.memory, (∅ : Store).insert (str "_payload/1") (byteArrayJson p.toBytes), []⟩

theorem reached_new (c : AppCodecs) (app : App) (initialHeight : Nat) :
    Reached H c sampleLogic sampleNodeDeps (new H c app initialHeight) :=
  ⟨app, initialHeight, [], ⟨_, .idle⟩, [], rfl, rfl⟩

theorem lastDigest_appWith :
    (new sha256 anchorCodecs (appWith firstPayload) 1).lastDigest = firstPayload.digest sha256 ∧
      (new sha256 anchorCodecs (appWith forkPayload) 1).lastDigest = forkPayload.digest sha256 ∧
      forkPayload.digest sha256 ≠ firstPayload.digest sha256 := by
  simp only [anchorCodecs, appWith, forkPayload, firstPayload, sha256_eq_eval]
  decide +kernel

/-- A seat at genesis and one that executed the anchored block. -/
theorem genesis_eq_anchor_iff_sample :
    genesis sha256 (some (1, firstPayload.digest sha256))
        (new sha256 anchorCodecs (App.new ⟨.memory, ∅, []⟩) 0) = firstPayload.digest sha256 ∧
      genesis sha256 (some (1, firstPayload.digest sha256))
        (new sha256 anchorCodecs (appWith firstPayload) 1) = firstPayload.digest sha256 :=
  (genesis_eq_anchor_iff (reached_new sha256 ..) (reached_new sha256 ..) 1
    (firstPayload.digest sha256) (Nat.zero_le 1) (Nat.le_refl 1)).mpr
      ⟨.inl Nat.zero_lt_one, .inr lastDigest_appWith.1⟩

/-- A seat at genesis and one that executed the competitor: two parents. -/
theorem genesis_of_diverged_seat :
    genesis sha256 (some (1, firstPayload.digest sha256))
        (new sha256 anchorCodecs (App.new ⟨.memory, ∅, []⟩) 0) = firstPayload.digest sha256 ∧
      genesis sha256 (some (1, firstPayload.digest sha256))
        (new sha256 anchorCodecs (appWith forkPayload) 1) = forkPayload.digest sha256 ∧
      forkPayload.digest sha256 ≠ firstPayload.digest sha256 :=
  ⟨rfl, lastDigest_appWith.2.1, lastDigest_appWith.2.2⟩

end LayerNode

/-! ## Payload files

The store of `Node` with its second index, and every way a file operation can
end. -/

namespace PayloadStore

/-- `path.with_extension("tmp")`. -/
def tmpPath (d : Bytes) : Bytes := str (hexEncode d ++ "." ++ "tmp")

/-- `str::split_once`. -/
def splitOnce (sep : UInt8) : Bytes → Option (Bytes × Bytes)
  | [] => none
  | b :: rest =>
    if b = sep then some ([], rest) else (splitOnce sep rest).map fun (x, y) => (b :: x, y)

def decimal : Nat → Bytes → Option Nat
  | n, [] => some n
  | n, b :: rest =>
    if 48 ≤ b.toNat ∧ b.toNat ≤ 57 then decimal (10 * n + (b.toNat - 48)) rest else none

/-- `str::parse::<u64>`. -/
def parseU64 (text : Bytes) : Option Nat :=
  let digits := if text.head? = some 43 then text.tail else text
  if digits = [] then none else (decimal 0 digits).filter (· < 2 ^ 64)

def parseFileName (name : Bytes) : Option (Digest × Nat) := do
  let (hexDigest, height) ← splitOnce 46 name
  let height ← parseU64 height
  let bytes ← hexDecodeBytes hexDigest
  let digest ← Lc.toDigest? bytes
  some (digest, height)

/-! ### File names -/

theorem splitOnce_append {sep : UInt8} {a b : Bytes} (h : sep ∉ a) :
    splitOnce sep (a ++ sep :: b) = some (a, b) := by
  induction a with
  | nil => rw [List.nil_append, splitOnce, if_pos rfl]
  | cons x a ih =>
    rw [List.cons_append, splitOnce, if_neg (Ne.symm (List.ne_of_not_mem_cons h)),
      ih (List.not_mem_of_not_mem_cons h)]
    rfl

theorem toNat_of_isDigit {c : Char} (h : c.isDigit = true) : 48 ≤ c.toNat ∧ c.toNat ≤ 57 := by
  simp only [Char.isDigit, Bool.and_eq_true, decide_eq_true_eq] at h
  exact h

theorem utf8_of_isDigit {c : Char} (h : c.isDigit = true) :
    String.utf8EncodeChar c = [UInt8.ofNat c.toNat] :=
  utf8EncodeChar_of_lt (by have := toNat_of_isDigit h; omega)

theorem toNat_utf8_of_isDigit {c : Char} (h : c.isDigit = true) :
    (UInt8.ofNat c.toNat).toNat = c.toNat := by
  have hle := toNat_of_isDigit h
  rw [UInt8.toNat_ofNat']
  omega

theorem decimal_digits {l : List Char} (h : ∀ c ∈ l, c.isDigit = true) (n : Nat) :
    decimal n (l.flatMap String.utf8EncodeChar) = some (Nat.ofDigitChars 10 l n) := by
  induction l generalizing n with
  | nil => rfl
  | cons c l ih =>
    have hc := h c (List.mem_cons_self)
    rw [List.flatMap_cons, utf8_of_isDigit hc, List.cons_append, List.nil_append, decimal,
      toNat_utf8_of_isDigit hc, if_pos (toNat_of_isDigit hc),
      ih (fun x hx => h x (List.mem_cons_of_mem _ hx)), Nat.ofDigitChars_cons]
    rfl

theorem parseU64_repr {n : Nat} (h : n < 2 ^ 64) : parseU64 (str (Nat.repr n)) = some n := by
  have hdigits : ∀ c ∈ Nat.toDigits 10 n, c.isDigit = true :=
    fun c hc => Nat.isDigit_of_mem_toDigits (by omega) (by omega) hc
  rw [Nat.repr_eq_ofList_toDigits, str_ofList]
  have hdecimal := decimal_digits hdigits 0
  rw [Nat.ofDigitChars_toDigits (by omega) (by omega)] at hdecimal
  -- the text starts with a digit, not with a sign
  cases hl : Nat.toDigits 10 n with
  | nil => exact absurd hl Nat.toDigits_ne_nil
  | cons c l =>
    rw [hl] at hdecimal hdigits
    have hc := hdigits c (List.mem_cons_self)
    have hsign : UInt8.ofNat c.toNat ≠ 43 := by
      intro heq
      have hnat := congrArg UInt8.toNat heq
      rw [toNat_utf8_of_isDigit hc] at hnat
      have := toNat_of_isDigit hc
      change c.toNat = 43 at hnat
      omega
    rw [List.flatMap_cons, utf8_of_isDigit hc] at hdecimal ⊢
    simp only [parseU64, List.cons_append, List.nil_append, List.head?_cons, Option.some.injEq,
      hsign, if_false, reduceCtorEq] at hdecimal ⊢
    rw [hdecimal, Option.filter_some, if_pos (decide_eq_true h)]

theorem dot_notMem_hexPair (b : UInt8) :
    (46 : UInt8) ∉ (hexPair b).flatMap String.utf8EncodeChar := by
  have hdigit : ∀ n < 16, (hexDigit n).toNat < 128 ∧
      UInt8.ofNat (hexDigit n).toNat ≠ 46 := by decide
  obtain ⟨hhi, hhi'⟩ := hdigit (b.toNat / 16) (by have := b.toNat_lt; omega)
  obtain ⟨hlo, hlo'⟩ := hdigit (b.toNat % 16) (by omega)
  simp [hexPair, utf8EncodeChar_of_lt hhi, utf8EncodeChar_of_lt hlo, hhi'.symm, hlo'.symm]

theorem dot_notMem_hexEncode (d : Bytes) : (46 : UInt8) ∉ str (hexEncode d) := by
  rw [hexEncode, str_ofList, List.flatMap_assoc]
  intro hmem
  obtain ⟨b, -, hb⟩ := List.mem_flatMap.mp hmem
  exact dot_notMem_hexPair b hb

theorem path_eq (d : Bytes) (height : Nat) :
    path d height = str (hexEncode d) ++ 46 :: str (Nat.repr height) := by
  rw [path, str_append, str_append, List.append_assoc]
  rfl

theorem parseFileName_path (d : Digest) {height : Nat} (h : height < 2 ^ 64) :
    parseFileName (path d.bytes height) = some (d, height) := by
  have hhex : hexDecodeBytes (str (hexEncode d.bytes)) = some d.bytes := hexDecode_hexEncode d.bytes
  rw [parseFileName, path_eq, splitOnce_append (dot_notMem_hexEncode _)]
  simp only [Option.bind_eq_bind, Option.bind_some, parseU64_repr h, hhex, Lc.toDigest?_bytes]

theorem parseFileName_tmpPath (d : Bytes) : parseFileName (tmpPath d) = none := by
  have htmp : tmpPath d = str (hexEncode d) ++ 46 :: str "tmp" := by
    rw [tmpPath, str_append, str_append, List.append_assoc]
    rfl
  rw [parseFileName, htmp, splitOnce_append (dot_notMem_hexEncode _)]
  rfl

theorem path_inj {d d' : Bytes} {height height' : Nat} (h : path d height = path d' height') :
    d = d' ∧ height = height' := by
  rw [path_eq, path_eq] at h
  obtain ⟨hd, hheight⟩ :=
    append_sep_inj (dot_notMem_hexEncode d) (dot_notMem_hexEncode d') h
  exact ⟨hexEncode_inj (str_inj hd), repr_inj (str_inj hheight)⟩

end PayloadStore

/-- The store with its height index. -/
structure PayloadIndex extends PayloadStore where
  byHeight : ExtTreeMap Nat Digest

/-- How writing one file ends: in place, with the temporary file written or
torn, or written and not renamed. -/
inductive WriteLuck where
  | done
  | noWrite (left : Option Bytes)
  | noRename
deriving DecidableEq

namespace PayloadIndex

open PayloadStore

variable (H : Bytes → Digest)

/-- `open`: index every file of the listing, in its order. -/
def openDir (files : ExtTreeMap Bytes Bytes) (listing : List Bytes) : PayloadIndex :=
  let found := listing.filterMap parseFileName
  { files := some files
    index := found.foldl (fun index e => index.insert e.1.bytes e.2) ∅
    byHeight := found.foldl (fun byHeight e => byHeight.insert e.2 e.1) ∅ }

def getByHeight (s : PayloadIndex) (height : Nat) : Option BlockPayload := do
  let digest ← s.byHeight[height]?
  s.get H digest

/-- Executed payloads take the height, certified ones only if it is free. -/
def claimHeight (s : PayloadIndex) (height : Nat) (digest : Digest) (canonical : Bool) :
    PayloadIndex :=
  if canonical || !s.byHeight.contains height then
    { s with byHeight := s.byHeight.insert height digest }
  else s

/-- `put_with`; the flag says whether it returned `Ok`. -/
def putWith (luck : WriteLuck) (s : PayloadIndex) (p : BlockPayload) (canonical : Bool) :
    Bool × PayloadIndex :=
  let digest := p.digest H
  if s.index.contains digest.bytes then (true, s.claimHeight p.height digest canonical)
  else
    match s.files with
    | none => (true, s)
    | some files =>
      let tmp := tmpPath digest.bytes
      match luck with
      | .noWrite none => (false, s)
      | .noWrite (some torn) => (false, { s with files := some (files.insert tmp torn) })
      | .noRename => (false, { s with files := some (files.insert tmp p.toBytes) })
      | .done =>
        let files := ((files.insert tmp p.toBytes).erase tmp).insert
          (path digest.bytes p.height) p.toBytes
        let s := { s with
          files := some files
          index := s.index.insert digest.bytes p.height }
        (true, s.claimHeight p.height digest canonical)

/-- `prune_below`; `removed` says which files could be deleted. -/
def pruneBelow (removed : Bytes → Bool) (s : PayloadIndex) (height : Nat) : PayloadIndex :=
  let stale := s.index.toList.filter fun e => e.2 < height
  { files := s.files.map fun files =>
      (stale.filter fun e => removed (path e.1 e.2)).foldl
        (fun fs e => fs.erase (path e.1 e.2)) files
    index := stale.foldl (fun index e => index.erase e.1) s.index
    byHeight := stale.foldl (fun byHeight e => byHeight.erase e.2) s.byHeight }

end PayloadIndex

inductive StoreCall where
  | put (payload : BlockPayload) (luck : WriteLuck)
  | putExecuted (payload : BlockPayload) (luck : WriteLuck)
  | pruneBelow (height : Nat) (removed : Bytes → Bool)
  | restart (listing : List Bytes)

def StoreCall.payload? : StoreCall → Option BlockPayload
  | .put p _ | .putExecuted p _ => some p
  | .pruneBelow .. | .restart _ => none

/-- The store, and per height the payload executed last and not pruned. -/
structure Observed where
  store : PayloadIndex
  executed : Nat → Option BlockPayload

namespace Observed

open PayloadStore

variable (H : Bytes → Digest)

/-- An empty directory, opened. -/
def fresh : Observed := ⟨.openDir ∅ [], fun _ => none⟩

/-- One call. A restart lists the directory's names in some order. -/
def step (o : Observed) : StoreCall → Option Observed
  | .put p luck => some ⟨(o.store.putWith H luck p false).2, o.executed⟩
  | .putExecuted p luck =>
    let put := o.store.putWith H luck p true
    some ⟨put.2, if put.1 then Function.update o.executed p.height (some p) else o.executed⟩
  | .pruneBelow height removed =>
    some ⟨o.store.pruneBelow removed height,
      fun h => if h < height then none else o.executed h⟩
  | .restart listing =>
    match o.store.files with
    | none => none
    | some files =>
      if listing.Perm files.keys then some ⟨.openDir files listing, o.executed⟩ else none

/-- The state after calls in order. -/
def run (calls : List StoreCall) : Option Observed := calls.foldlM (step H) fresh

/-- Every executed payload is served at its height. -/
def Canonical (o : Observed) : Prop :=
  ∀ h p, o.executed h = some p → o.store.getByHeight H h = some p

/-- The indexes and the files agree. -/
structure Consistent (o : Observed) : Prop where
  byHeight : ∀ h, ∀ d : Digest, o.store.byHeight[h]? = some d →
    o.store.index[d.bytes]? = some h
  index : ∀ d : Digest, ∀ h, o.store.index[d.bytes]? = some h →
    h ∈ o.store.byHeight ∧ ∃ p, o.store.get H d = some p ∧ p.height = h

/-- The last file of a listing at a height. -/
def lastAt (listing : List Bytes) (h : Nat) : Option Digest :=
  ((listing.filterMap PayloadStore.parseFileName).reverse.find? fun e => decide (e.2 = h)).map
    Prod.fst

/-- Of the files of one height the executed payload's is listed last. -/
def ListedLast (o : Observed) (listing : List Bytes) : Prop :=
  ∀ h p, o.executed h = some p → lastAt listing h = some (p.digest H)

/-! ### The invariant -/

variable {H}

section Inv

variable (H) (known : List BlockPayload)

/-- The payloads of a run: fields as wide as the Rust types, and no two with
one digest. -/
structure Distinct : Prop where
  collisionFree : PairTree.CollisionFree H (known.map BlockPayload.toBytes)
  fits : ∀ p ∈ known, p.Fits

/-- A payload that was put and is in its file. -/
def Stored (files : ExtTreeMap Bytes Bytes) (p : BlockPayload) : Prop :=
  p ∈ known ∧ files[path (p.digest H).bytes p.height]? = some p.toBytes

/-- The files, the digest index and what is expected of them. -/
structure Indexed (files : ExtTreeMap Bytes Bytes) (o : Observed) : Prop where
  disk : o.store.files = some files
  named : ∀ name ∈ files, ∀ d h, parseFileName name = some (d, h) →
    ∃ p, Stored H known files p ∧ p.digest H = d ∧ p.height = h ∧ name = path d.bytes h
  index : ∀ (k : Bytes) (h : Nat), o.store.index[k]? = some h →
    ∃ p, Stored H known files p ∧ (p.digest H).bytes = k ∧ p.height = h
  byHeight : ∀ h, ∀ d : Digest, o.store.byHeight[h]? = some d →
    o.store.index[d.bytes]? = some h
  executed : ∀ h p, o.executed h = some p →
    p ∈ known ∧ p.height = h ∧ o.store.index[(p.digest H).bytes]? = some h

structure Inv (files : ExtTreeMap Bytes Bytes) (o : Observed) : Prop extends
    Indexed H known files o where
  heights : ∀ (k : Bytes) (h : Nat), o.store.index[k]? = some h → h ∈ o.store.byHeight

variable {H} {known} {files : ExtTreeMap Bytes Bytes} {o : Observed} {p q : BlockPayload}

theorem inv_fresh : Inv H known ∅ fresh where
  disk := rfl
  named name hname := by simp at hname
  index k h hk := by simp [fresh, PayloadIndex.openDir] at hk
  byHeight h d hd := by simp [fresh, PayloadIndex.openDir] at hd
  heights k h hk := by simp [fresh, PayloadIndex.openDir] at hk
  executed h p hp := by cases hp

/-- What was put is determined by its digest. -/
theorem Distinct.eq_of_digest (hk : Distinct H known) (hp : p ∈ known) (hq : q ∈ known)
    (h : p.digest H = q.digest H) : p = q := by
  have hbytes : p.toBytes = q.toBytes :=
    hk.collisionFree _ (List.mem_map_of_mem hp) _ (List.mem_map_of_mem hq) h
  have hread := BlockPayload.fromBytes_toBytes (hk.fits p hp)
  rw [hbytes, BlockPayload.fromBytes_toBytes (hk.fits q hq)] at hread
  exact (Option.some.inj hread).symm

theorem Distinct.parse_path (hk : Distinct H known) (hp : p ∈ known) :
    parseFileName (path (p.digest H).bytes p.height) = some (p.digest H, p.height) :=
  parseFileName_path _ (hk.fits p hp).height

variable {d : Digest} {height : Nat} {name : Bytes} {listing : List Bytes} {o' : Observed}

theorem Inv.get (h : Inv H known files o) (hk : Distinct H known)
    (hd : o.store.index[d.bytes]? = some height) :
    ∃ p, Stored H known files p ∧ p.digest H = d ∧ p.height = height ∧
      o.store.get H d = some p := by
  obtain ⟨p, hp, hdigest, hheight⟩ := h.index _ _ hd
  obtain rfl := Digest.ext_bytes hdigest
  refine ⟨p, hp, rfl, hheight, ?_⟩
  obtain ⟨hknown, hfile⟩ := hp
  rw [hheight] at hfile
  simp only [PayloadStore.get, hd, h.disk, hfile, Option.bind_eq_bind, Option.bind_some,
    BlockPayload.fromBytes_toBytes (hk.fits p hknown), if_true]

theorem Inv.get_executed (h : Inv H known files o) (hk : Distinct H known)
    (hp : o.executed height = some p) : o.store.get H (p.digest H) = some p := by
  obtain ⟨hknown, -, hindex⟩ := h.executed height p hp
  obtain ⟨q, hq, hdigest, -, hget⟩ := h.get hk hindex
  rw [hget, hk.eq_of_digest hq.1 hknown hdigest]

theorem Inv.consistent (h : Inv H known files o) (hk : Distinct H known) : o.Consistent H where
  byHeight := h.byHeight
  index d height hd := by
    obtain ⟨p, -, -, hheight, hget⟩ := h.get hk hd
    exact ⟨h.heights _ _ hd, p, hget, hheight⟩

/-! ### Putting -/

theorem getElem?_claimHeight (s : PayloadIndex) (height : Nat) (d : Digest) (canonical : Bool)
    (h : Nat) : (s.claimHeight height d canonical).byHeight[h]? =
      if h = height ∧ (canonical = true ∨ height ∉ s.byHeight) then some d else s.byHeight[h]? := by
  unfold PayloadIndex.claimHeight
  have hcond : (canonical || !s.byHeight.contains height) = true ↔
      canonical = true ∨ height ∉ s.byHeight := by
    rw [Bool.or_eq_true, Bool.not_eq_true', ← Bool.not_eq_true, ExtTreeMap.contains_iff_mem]
  by_cases hc : canonical = true ∨ height ∉ s.byHeight
  · rw [if_pos (hcond.mpr hc)]
    rw [ExtTreeMap.getElem?_insert]
    simp only [Std.LawfulEqOrd.compare_eq_iff_eq, hc, and_true, eq_comm (a := h)]
  · rw [if_neg (mt hcond.mp hc), if_neg fun hand => hc hand.2]

theorem claimHeight_toPayloadStore (s : PayloadIndex) (height : Nat) (d : Digest)
    (canonical : Bool) : (s.claimHeight height d canonical).toPayloadStore = s.toPayloadStore := by
  unfold PayloadIndex.claimHeight
  split <;> rfl

theorem mem_claimHeight {s : PayloadIndex} {canonical : Bool} {h : Nat}
    (hmem : h = height ∨ h ∈ s.byHeight) : h ∈ (s.claimHeight height d canonical).byHeight := by
  rw [ExtTreeMap.mem_iff_isSome_getElem?, getElem?_claimHeight]
  split
  · rfl
  · rename_i hnot
    rw [← ExtTreeMap.mem_iff_isSome_getElem?]
    rcases hmem with rfl | hmem
    · by_contra hfree
      exact hnot ⟨rfl, .inr hfree⟩
    · exact hmem

/-- Giving an indexed digest its height. -/
theorem Indexed.claimHeight (h : Indexed H known files o)
    (hd : o.store.index[d.bytes]? = some height) (canonical : Bool)
    (hheights : ∀ (k : Bytes) (h : Nat), o.store.index[k]? = some h →
      h = height ∨ h ∈ o.store.byHeight) :
    Inv H known files ⟨o.store.claimHeight height d canonical, o.executed⟩ := by
  have hframe := claimHeight_toPayloadStore o.store height d canonical
  have hindex : (o.store.claimHeight height d canonical).index = o.store.index :=
    congrArg PayloadStore.index hframe
  refine ⟨⟨(congrArg PayloadStore.files hframe).trans h.disk, h.named, ?_, ?_, ?_⟩, ?_⟩
  · rw [hindex]
    exact h.index
  · intro height' d' hd'
    rw [getElem?_claimHeight] at hd'
    rw [hindex]
    split at hd'
    · rename_i hand
      cases hd'
      rw [hand.1]
      exact hd
    · exact h.byHeight _ _ hd'
  · rw [hindex]
    exact h.executed
  · intro k height' hk'
    rw [hindex] at hk'
    exact mem_claimHeight (hheights _ _ hk')

/-- Only names that parse matter. -/
theorem Inv.congr_files (h : Inv H known files o) (hk : Distinct H known)
    {files' : ExtTreeMap Bytes Bytes}
    (hsame : ∀ name, (parseFileName name).isSome → files'[name]? = files[name]?) :
    Inv H known files' ⟨{ o.store with files := some files' }, o.executed⟩ := by
  have hstored : ∀ {p}, Stored H known files p → Stored H known files' p := by
    rintro p ⟨hknown, hfile⟩
    refine ⟨hknown, ?_⟩
    rw [hsame _ (by rw [hk.parse_path hknown]; rfl), hfile]
  refine ⟨⟨rfl, fun name hname d' height hparse => ?_, fun k height hindex => ?_, h.byHeight,
    h.executed⟩, h.heights⟩
  · rw [ExtTreeMap.mem_iff_isSome_getElem?, hsame name (by rw [hparse]; rfl),
      ← ExtTreeMap.mem_iff_isSome_getElem?] at hname
    obtain ⟨p, hp, hrest⟩ := h.named name hname d' height hparse
    exact ⟨p, hstored hp, hrest⟩
  · obtain ⟨p, hp, hrest⟩ := h.index k height hindex
    exact ⟨p, hstored hp, hrest⟩

theorem tmpPath_ne (d : Bytes) (hname : (parseFileName name).isSome) : tmpPath d ≠ name := by
  rintro rfl
  rw [parseFileName_tmpPath] at hname
  cases hname

variable (H files p) in
/-- The files with the payload's. -/
abbrev withFile : ExtTreeMap Bytes Bytes :=
  files.insert (path (p.digest H).bytes p.height) p.toBytes

theorem Stored.insert_file (hk : Distinct H known) (hp : p ∈ known)
    (h : Stored H known files q) :
    Stored H known (withFile H files p) q := by
  obtain ⟨hq, hfile⟩ := h
  refine ⟨hq, ?_⟩
  rw [ExtTreeMap.getElem?_insert]
  split
  · rename_i heq
    have hbytes := (path_inj (Std.LawfulEqOrd.eq_of_compare heq)).1
    rw [hk.eq_of_digest hp hq (Digest.ext_bytes hbytes)]
  · exact hfile

theorem stored_insert_file (hp : p ∈ known) :
    Stored H known (withFile H files p) p :=
  ⟨hp, ExtTreeMap.getElem?_insert_self⟩

/-- A payload that was not indexed gets its file, its entry and perhaps its height. -/
theorem Inv.insert_file (h : Inv H known files o) (hk : Distinct H known) (hp : p ∈ known)
    (hnew : (p.digest H).bytes ∉ o.store.index) (canonical : Bool) :
    Inv H known (withFile H files p)
      ⟨PayloadIndex.claimHeight { o.store with
          files := some (withFile H files p)
          index := o.store.index.insert (p.digest H).bytes p.height }
          p.height (p.digest H) canonical,
        o.executed⟩ := by
  have hkeep : ∀ {k : Bytes} {height : Nat}, o.store.index[k]? = some height →
      (o.store.index.insert (p.digest H).bytes p.height)[k]? = some height := by
    intro k height hindex
    rw [OrdMap.getElem?_insert_of_ne, hindex]
    rintro rfl
    exact hnew (OrdMap.mem_of_getElem? hindex)
  have hindexed : Indexed H known (withFile H files p)
      ⟨{ o.store with
          files := some (withFile H files p)
          index := o.store.index.insert (p.digest H).bytes p.height }, o.executed⟩ := by
    refine ⟨rfl, ?_, ?_, fun height d hd => hkeep (h.byHeight height d hd), ?_⟩
    · intro name hname d height hparse
      rcases ExtTreeMap.mem_insert.mp hname with heq | hname
      · obtain rfl := Std.LawfulEqOrd.eq_of_compare heq
        rw [hk.parse_path hp] at hparse
        cases hparse
        exact ⟨p, stored_insert_file hp, rfl, rfl, rfl⟩
      · obtain ⟨q, hq, hrest⟩ := h.named name hname d height hparse
        exact ⟨q, hq.insert_file hk hp, hrest⟩
    · intro k height hindex
      rcases OrdMap.getElem?_insert_cases.mp hindex with ⟨rfl, rfl⟩ | ⟨-, hindex⟩
      · exact ⟨p, stored_insert_file hp, rfl, rfl⟩
      · obtain ⟨q, hq, hrest⟩ := h.index k height hindex
        exact ⟨q, hq.insert_file hk hp, hrest⟩
    · intro height q hq
      obtain ⟨hknown, hheight, hindex⟩ := h.executed height q hq
      exact ⟨hknown, hheight, hkeep hindex⟩
  refine hindexed.claimHeight ExtTreeMap.getElem?_insert_self canonical ?_
  intro k height hindex
  rcases OrdMap.getElem?_insert_cases.mp hindex with ⟨-, rfl⟩ | ⟨-, hindex⟩
  · exact .inl rfl
  · exact .inr (h.heights k height hindex)

/-- What a put does: the invariant stays, success leaves the payload indexed, and
only its own height can change hands. -/
theorem Inv.putWith (h : Inv H known files o) (hk : Distinct H known) (hp : p ∈ known)
    (luck : WriteLuck) (canonical : Bool) :
    (∃ files', Inv H known files' ⟨(o.store.putWith H luck p canonical).2, o.executed⟩) ∧
      ((o.store.putWith H luck p canonical).1 = true →
        (o.store.putWith H luck p canonical).2.index[(p.digest H).bytes]? = some p.height) ∧
      ∀ height, (o.store.putWith H luck p canonical).2.byHeight[height]? =
        if (o.store.putWith H luck p canonical).1 = true ∧ height = p.height ∧
          (canonical = true ∨ p.height ∉ o.store.byHeight) then some (p.digest H)
        else o.store.byHeight[height]? := by
  unfold PayloadIndex.putWith
  by_cases hmem : o.store.index.contains (p.digest H).bytes
  · rw [if_pos hmem]
    rw [ExtTreeMap.contains_iff_mem, ExtTreeMap.mem_iff_isSome_getElem?,
      Option.isSome_iff_exists] at hmem
    obtain ⟨height, hindex⟩ := hmem
    obtain ⟨q, hq, hdigest, hheight⟩ := h.index _ _ hindex
    obtain rfl := hk.eq_of_digest hq.1 hp (Digest.ext_bytes hdigest)
    subst hheight
    refine ⟨⟨files, h.claimHeight hindex canonical fun k height hk' => .inr (h.heights k _ hk')⟩,
      fun _ => ?_, fun height => ?_⟩
    · rw [claimHeight_toPayloadStore]
      exact hindex
    · rw [getElem?_claimHeight]
      simp
  · rw [if_neg hmem, h.disk]
    rw [ExtTreeMap.contains_iff_mem] at hmem
    have htmp : ∀ content, ∃ files', Inv H known files' ⟨{ o.store with
        files := some (files.insert (tmpPath (p.digest H).bytes) content) }, o.executed⟩ :=
      fun content => ⟨_, h.congr_files hk fun name hname =>
        OrdMap.getElem?_insert_of_ne (tmpPath_ne _ hname)⟩
    cases luck with
    | noWrite left =>
      cases left with
      | none => exact ⟨⟨files, h⟩, nofun, fun height => by simp⟩
      | some torn => exact ⟨htmp torn, nofun, fun height => by simp⟩
    | noRename => exact ⟨htmp p.toBytes, nofun, fun height => by simp⟩
    | done =>
      have hsame : ∀ name, (parseFileName name).isSome →
          ((files.insert (tmpPath (p.digest H).bytes) p.toBytes).erase
            (tmpPath (p.digest H).bytes))[name]? = files[name]? := fun name hname => by
        have hne := tmpPath_ne (p.digest H).bytes hname
        rw [OrdMap.getElem?_erase_of_ne hne, OrdMap.getElem?_insert_of_ne hne]
      refine ⟨⟨_, (h.congr_files hk hsame).insert_file hk hp hmem canonical⟩, fun _ => ?_, fun height => ?_⟩
      · rw [claimHeight_toPayloadStore]
        exact ExtTreeMap.getElem?_insert_self
      · rw [getElem?_claimHeight]
        simp

/-! ### Pruning and restarting -/

theorem mem_stale {index : ExtTreeMap Bytes Nat} {e : Bytes × Nat} :
    e ∈ index.toList.filter (fun e => e.2 < height) ↔ index[e.1]? = some e.2 ∧ e.2 < height := by
  rw [List.mem_filter, decide_eq_true_eq, ExtTreeMap.mem_toList_iff_getElem?_eq_some]

theorem getElem?_pruneBelow_index (s : PayloadIndex) (removed : Bytes → Bool) (height : Nat)
    (k : Bytes) :
    (s.pruneBelow removed height).index[k]? = s.index[k]?.filter (fun h => height ≤ h) := by
  unfold PayloadIndex.pruneBelow
  rw [OrdMap.getElem?_foldl_erase]
  have hmem : k ∈ (s.index.toList.filter fun e => e.2 < height).map Prod.fst ↔
      ∃ h, s.index[k]? = some h ∧ h < height := by
    simp only [List.mem_map, mem_stale, Prod.exists, exists_and_right, exists_eq_right]
  by_cases hstale : ∃ h, s.index[k]? = some h ∧ h < height
  · obtain ⟨h, hk, hlt⟩ := hstale
    rw [if_pos (hmem.mpr ⟨h, hk, hlt⟩), hk, Option.filter_some, if_neg (by simpa using hlt)]
  · rw [if_neg (mt hmem.mp hstale)]
    cases hk : s.index[k]? with
    | none => rfl
    | some h =>
      have hle : height ≤ h := Nat.not_lt.mp fun hlt => hstale ⟨h, hk, hlt⟩
      rw [Option.filter_some, if_pos (by simpa using hle)]

theorem Inv.getElem?_pruneBelow_byHeight (h : Inv H known files o) (removed : Bytes → Bool)
    (height height' : Nat) : (o.store.pruneBelow removed height).byHeight[height']? =
      if height' < height then none else o.store.byHeight[height']? := by
  unfold PayloadIndex.pruneBelow
  rw [OrdMap.getElem?_foldl_erase]
  have hmem : height' ∈ (o.store.index.toList.filter fun e => e.2 < height).map Prod.snd ↔
      (∃ k : Bytes, o.store.index[k]? = some height') ∧ height' < height := by
    simp only [List.mem_map, mem_stale, Prod.exists, exists_and_right, exists_eq_right]
  by_cases hlt : height' < height
  · rw [if_pos hlt]
    split
    · rfl
    · rename_i hnone
      cases hd : o.store.byHeight[height']? with
      | none => rfl
      | some d => exact absurd (hmem.mpr ⟨⟨_, h.byHeight _ _ hd⟩, hlt⟩) hnone
  · rw [if_neg hlt, if_neg fun hstale => hlt (hmem.mp hstale).2]

theorem Inv.pruneBelow (h : Inv H known files o) (removed : Bytes → Bool) (height : Nat) :
    ∃ files', Inv H known files' ⟨o.store.pruneBelow removed height,
      fun h => if h < height then none else o.executed h⟩ := by
  have hindex := getElem?_pruneBelow_index o.store removed height
  have hkept : ∀ {k : Bytes} {h' : Nat}, o.store.index[k]? = some h' → height ≤ h' →
      (o.store.pruneBelow removed height).index[k]? = some h' := by
    intro k h' hk hle
    rw [hindex, hk, Option.filter_some, if_pos (by simpa using hle)]
  have hold : ∀ {k : Bytes} {h' : Nat}, (o.store.pruneBelow removed height).index[k]? = some h' →
      o.store.index[k]? = some h' ∧ height ≤ h' := by
    intro k h' hk
    rw [hindex, Option.filter_eq_some_iff, decide_eq_true_eq] at hk
    exact hk
  have hfile := fun name => OrdMap.getElem?_foldl_erase (fun e : Bytes × Nat => path e.1 e.2) name
    ((o.store.index.toList.filter fun e => e.2 < height).filter fun e => removed (path e.1 e.2))
    files
  -- a file that is not below the height, or that could not be removed, is as it was
  have hstored : ∀ {p files'}, Stored H known files p →
      files' = ((o.store.index.toList.filter fun e => e.2 < height).filter
        fun e => removed (path e.1 e.2)).foldl (fun fs e => fs.erase (path e.1 e.2)) files →
      (height ≤ p.height ∨ path (p.digest H).bytes p.height ∈ files') →
      Stored H known files' p := by
    rintro p _ ⟨hknown, hp⟩ rfl hcase
    refine ⟨hknown, ?_⟩
    rw [hfile]
    split
    · rename_i hgone
      rcases hcase with hle | hmem
      · obtain ⟨e, he, hpath⟩ := List.mem_map.mp hgone
        have hlt := (mem_stale.mp (List.mem_filter.mp he).1).2
        rw [(path_inj hpath).2] at hlt
        exact absurd hlt (Nat.not_lt.mpr hle)
      · rw [ExtTreeMap.mem_iff_isSome_getElem?, hfile, if_pos hgone] at hmem
        cases hmem
    · exact hp
  refine ⟨_, ⟨⟨congrArg (Option.map _) h.disk, ?_, ?_, ?_, ?_⟩, ?_⟩⟩
  · intro name hname d h' hparse
    have hname' := hname
    rw [ExtTreeMap.mem_iff_isSome_getElem?, hfile] at hname'
    split at hname'
    · cases hname'
    · obtain ⟨p, hp, rfl, rfl, rfl⟩ := h.named name
        (ExtTreeMap.mem_iff_isSome_getElem?.mpr hname') d h' hparse
      exact ⟨p, hstored hp rfl (.inr hname), rfl, rfl, rfl⟩
  · intro k h' hk
    obtain ⟨hk, hle⟩ := hold hk
    obtain ⟨p, hp, hdigest, rfl⟩ := h.index k h' hk
    exact ⟨p, hstored hp rfl (.inl hle), hdigest, rfl⟩
  · intro h' d hd
    rw [h.getElem?_pruneBelow_byHeight] at hd
    split at hd
    · cases hd
    · rename_i hle
      exact hkept (h.byHeight h' d hd) (Nat.not_lt.mp hle)
  · intro h' p hp
    dsimp only at hp
    split at hp
    · cases hp
    · rename_i hle
      obtain ⟨hknown, hheight, hindex'⟩ := h.executed h' p hp
      exact ⟨hknown, hheight, hkept hindex' (Nat.not_lt.mp hle)⟩
  · intro k h' hk
    obtain ⟨hk, hle⟩ := hold hk
    have hmem := h.heights k h' hk
    rw [ExtTreeMap.mem_iff_isSome_getElem?] at hmem ⊢
    rwa [h.getElem?_pruneBelow_byHeight, if_neg (Nat.not_lt.mpr hle)]

/-- The listing's last file of a height takes it. -/
theorem getElem?_openDir_byHeight (files : ExtTreeMap Bytes Bytes) (listing : List Bytes)
    (height : Nat) : (PayloadIndex.openDir files listing).byHeight[height]? =
      lastAt listing height := by
  unfold PayloadIndex.openDir lastAt
  rw [OrdMap.getElem?_foldl_insert]
  simp

theorem lastAt_eq_some (h : lastAt listing height = some d) :
    ∃ name ∈ listing, parseFileName name = some (d, height) := by
  obtain ⟨e, he, rfl⟩ := Option.map_eq_some_iff.mp h
  have hheight := List.find?_some he
  have hmem := List.mem_reverse.mp (List.mem_of_find?_eq_some he)
  obtain ⟨name, hname, hparse⟩ := List.mem_filterMap.mp hmem
  exact ⟨name, hname, by rw [hparse, ← of_decide_eq_true hheight]⟩

theorem isSome_lastAt (hname : name ∈ listing) (hparse : parseFileName name = some (d, height)) :
    (lastAt listing height).isSome := by
  rw [lastAt, Option.isSome_map, List.find?_isSome]
  exact ⟨(d, height), List.mem_reverse.mpr (List.mem_filterMap.mpr ⟨name, hname, hparse⟩),
    decide_eq_true rfl⟩

variable (h : Inv H known files o) (hk : Distinct H known)
include h hk

/-- The digest index after a start: exactly the payload files of the directory. -/
theorem Inv.getElem?_openDir_index (hperm : listing.Perm files.keys) (k : Bytes) (height : Nat) :
    (PayloadIndex.openDir files listing).index[k]? = some height ↔
      ∃ p, Stored H known files p ∧ (p.digest H).bytes = k ∧ p.height = height := by
  have hfound : ∀ e, e ∈ listing.filterMap parseFileName ↔
      ∃ p, Stored H known files p ∧ p.digest H = e.1 ∧ p.height = e.2 := by
    intro e
    rw [List.mem_filterMap]
    constructor
    · rintro ⟨name, hname, hparse⟩
      obtain ⟨p, hp, hdigest, hheight, -⟩ := h.named name
        (ExtTreeMap.mem_keys.mp (hperm.mem_iff.mp hname)) e.1 e.2 hparse
      exact ⟨p, hp, hdigest, hheight⟩
    · rintro ⟨p, ⟨hknown, hfile⟩, hdigest, hheight⟩
      refine ⟨path (p.digest H).bytes p.height, ?_, ?_⟩
      · rw [hperm.mem_iff, ExtTreeMap.mem_keys]
        exact OrdMap.mem_of_getElem? hfile
      · rw [hk.parse_path hknown, hdigest, hheight]
  have hlast : (PayloadIndex.openDir files listing).index[k]? =
      ((listing.filterMap parseFileName).reverse.find? fun e => decide (e.1.bytes = k)).map
        Prod.snd := by
    unfold PayloadIndex.openDir
    rw [OrdMap.getElem?_foldl_insert]
    simp
  rw [hlast, Option.map_eq_some_iff]
  constructor
  · rintro ⟨e, he, rfl⟩
    obtain ⟨p, hp, hdigest, hheight⟩ :=
      (hfound e).mp (List.mem_reverse.mp (List.mem_of_find?_eq_some he))
    have hkey := List.find?_some he
    rw [decide_eq_true_eq] at hkey
    exact ⟨p, hp, by rw [hdigest, hkey], hheight⟩
  · rintro ⟨p, hp, rfl, rfl⟩
    have hsome : ((listing.filterMap parseFileName).reverse.find?
        fun e => decide (e.1.bytes = (p.digest H).bytes)).isSome := by
      rw [List.find?_isSome]
      exact ⟨(p.digest H, p.height),
        List.mem_reverse.mpr ((hfound _).mpr ⟨p, hp, rfl, rfl⟩), decide_eq_true rfl⟩
    obtain ⟨e, he⟩ := Option.isSome_iff_exists.mp hsome
    refine ⟨e, he, ?_⟩
    obtain ⟨q, hq, hdigest, hheight⟩ :=
      (hfound e).mp (List.mem_reverse.mp (List.mem_of_find?_eq_some he))
    have hbytes := List.find?_some he
    rw [decide_eq_true_eq, ← hdigest] at hbytes
    rw [← hheight, hk.eq_of_digest hq.1 hp.1 (Digest.ext_bytes hbytes)]

theorem Inv.openDir (hperm : listing.Perm files.keys) :
    Inv H known files ⟨.openDir files listing, o.executed⟩ := by
  have hindex := h.getElem?_openDir_index hk hperm
  have hlisted : ∀ {name : Bytes}, name ∈ listing ↔ name ∈ files :=
    fun {name} => hperm.mem_iff.trans ExtTreeMap.mem_keys
  refine ⟨⟨rfl, h.named, fun k height hk' => (hindex k height).mp hk', ?_, ?_⟩, ?_⟩
  · intro height d hd
    rw [getElem?_openDir_byHeight] at hd
    obtain ⟨name, hname, hparse⟩ := lastAt_eq_some hd
    obtain ⟨p, hp, rfl, rfl, -⟩ := h.named name (hlisted.mp hname) d height hparse
    exact (hindex _ _).mpr ⟨p, hp, rfl, rfl⟩
  · intro height p hp
    obtain ⟨hknown, hheight, hindex'⟩ := h.executed height p hp
    exact ⟨hknown, hheight, (hindex _ _).mpr (h.index _ _ hindex')⟩
  · intro k height hk'
    obtain ⟨p, ⟨hknown, hfile⟩, -, rfl⟩ := (hindex k height).mp hk'
    rw [ExtTreeMap.mem_iff_isSome_getElem?, getElem?_openDir_byHeight]
    exact isSome_lastAt (hlisted.mpr (OrdMap.mem_of_getElem? hfile)) (hk.parse_path hknown)

/-! ### Runs -/

/-- Under the invariant, serving an executed payload is a fact about the height index. -/
theorem Inv.canonical_iff : o.Canonical H ↔ ∀ height p, o.executed height = some p →
    o.store.byHeight[height]? = some (p.digest H) := by
  constructor
  · intro hcan height p hp
    obtain ⟨d, hd, hget⟩ := Option.bind_eq_some_iff.mp (hcan height p hp)
    rw [hd, PayloadStore.get_digest hget]
  · intro hby height p hp
    rw [PayloadIndex.getByHeight, hby height p hp]
    exact h.get_executed hk hp

/-- Step: the invariant. -/
theorem Inv.step {call : StoreCall} (hcall : ∀ p, call.payload? = some p → p ∈ known)
    (hstep : o.step H call = some o') :
    ∃ files', Inv H known files' o' := by
  cases call with
  | put p luck =>
    cases hstep
    exact (h.putWith hk (hcall p rfl) luck false).1
  | putExecuted p luck =>
    cases hstep
    obtain ⟨⟨files', hinv⟩, hindex, -⟩ := h.putWith hk (hcall p rfl) luck true
    refine ⟨files', ⟨⟨hinv.disk, hinv.named, hinv.index, hinv.byHeight, ?_⟩, hinv.heights⟩⟩
    intro height q hq
    dsimp only at hq
    split at hq
    · rename_i hok
      by_cases heq : height = p.height
      · rw [heq, Function.update_self] at hq
        cases hq
        exact ⟨hcall p rfl, heq.symm, by rw [heq]; exact hindex hok⟩
      · rw [Function.update_of_ne heq] at hq
        exact hinv.executed height q hq
    · exact hinv.executed height q hq
  | pruneBelow height removed =>
    cases hstep
    exact h.pruneBelow removed height
  | restart listing =>
    unfold Observed.step at hstep
    rw [h.disk] at hstep
    dsimp only at hstep
    split at hstep
    · rename_i hperm
      cases hstep
      exact ⟨files, h.openDir hk hperm⟩
    · cases hstep

/-- Step: calls other than a restart keep serving what was executed. -/
theorem Inv.canonical_step {call : StoreCall} (hcall : ∀ p, call.payload? = some p → p ∈ known)
    (hno : ∀ listing, call ≠ .restart listing)
    (hstep : o.step H call = some o') (hcan : o.Canonical H) : o'.Canonical H := by
  obtain ⟨files', hinv'⟩ := h.step hk hcall hstep
  rw [h.canonical_iff hk] at hcan
  rw [hinv'.canonical_iff hk]
  intro height q hq
  cases call with
  | put p luck =>
    cases hstep
    have hby := hcan height q hq
    rw [(h.putWith hk (hcall p rfl) luck false).2.2, hby]
    split
    · rename_i hand
      rcases hand.2.2 with hfalse | hfree
      · cases hfalse
      · rw [← hand.2.1] at hfree
        exact absurd (OrdMap.mem_of_getElem? hby) hfree
    · rfl
  | putExecuted p luck =>
    cases hstep
    dsimp only at hq
    rw [(h.putWith hk (hcall p rfl) luck true).2.2]
    by_cases hok : (o.store.putWith H luck p true).1 = true
    · rw [if_pos hok] at hq
      by_cases heq : height = p.height
      · rw [heq, Function.update_self] at hq
        rw [if_pos ⟨hok, heq, .inl rfl⟩, Option.some.inj hq]
      · rw [Function.update_of_ne heq] at hq
        rw [if_neg fun hand => heq hand.2.1, hcan height q hq]
    · rw [if_neg hok] at hq
      rw [if_neg fun hand => hok hand.1, hcan height q hq]
  | pruneBelow below removed =>
    cases hstep
    dsimp only at hq
    rw [h.getElem?_pruneBelow_byHeight]
    split at hq
    · cases hq
    · rename_i hle
      rw [if_neg hle, hcan height q hq]
  | restart listing => exact absurd rfl (hno listing)

/-- Step: a restart serves what was executed exactly when the listing favours it. -/
theorem Inv.canonical_restart (hstep : o.step H (.restart listing) = some o') :
    o'.Canonical H ↔ o.ListedLast H listing := by
  unfold Observed.step at hstep
  rw [h.disk] at hstep
  dsimp only at hstep
  split at hstep
  · rename_i hperm
    cases hstep
    rw [(h.openDir hk hperm).canonical_iff hk]
    simp only [getElem?_openDir_byHeight, ListedLast]
  · cases hstep

end Inv

theorem run_append (done : List StoreCall) (call : StoreCall) :
    run H (done ++ [call]) = (run H done).bind fun o => o.step H call := by
  rw [run, run, List.foldlM_append]
  simp

/-- Run: the invariant. -/
theorem inv_run {calls : List StoreCall} (hk : Distinct H (calls.filterMap StoreCall.payload?)) :
    ∀ {done rest : List StoreCall} {o : Observed}, calls = done ++ rest → run H done = some o →
      ∃ files, Inv H (calls.filterMap StoreCall.payload?) files o := by
  intro done
  induction done using List.reverseRecOn with
  | nil =>
    intro rest o _ hrun
    cases hrun
    exact ⟨∅, inv_fresh⟩
  | append_singleton done call ih =>
    intro rest o hcalls hrun
    rw [run_append] at hrun
    obtain ⟨o₁, hrun₁, hstep⟩ := Option.bind_eq_some_iff.mp hrun
    rw [List.append_assoc] at hcalls
    obtain ⟨files, hinv⟩ := ih hcalls hrun₁
    refine hinv.step hk (fun p hp => ?_) hstep
    rw [hcalls]
    exact List.mem_filterMap.mpr ⟨call, by simp, hp⟩

/-- **The height index.** Over every sequence of puts, prunes and restarts the
indexes and the files agree. The payload executed last is served at its height
throughout exactly when at every restart its file is the last one listed for that
height. -/
theorem canonical_iff_listedLast {calls : List StoreCall}
    (hcf : PairTree.CollisionFree H ((calls.filterMap StoreCall.payload?).map BlockPayload.toBytes))
    (hfits : ∀ p ∈ calls.filterMap StoreCall.payload?, p.Fits) :
    (∀ done rest o, calls = done ++ rest → run H done = some o → o.Consistent H) ∧
      ((∀ done rest o, calls = done ++ rest → run H done = some o → o.Canonical H) ↔
        ∀ done listing rest o o', calls = done ++ .restart listing :: rest → run H done = some o →
          o.step H (.restart listing) = some o' → o.ListedLast H listing) := by
  have hk : Distinct H (calls.filterMap StoreCall.payload?) := ⟨hcf, hfits⟩
  have hknown : ∀ {done call rest}, calls = done ++ call :: rest →
      ∀ p, StoreCall.payload? call = some p → p ∈ calls.filterMap StoreCall.payload? := by
    intro done call rest hcalls p hp
    rw [hcalls]
    exact List.mem_filterMap.mpr ⟨call, by simp, hp⟩
  refine ⟨fun done rest o hcalls hrun => ?_, ?_, ?_⟩
  · obtain ⟨files, hinv⟩ := inv_run hk hcalls hrun
    exact hinv.consistent hk
  · intro hcan done listing rest o o' hcalls hrun hstep
    obtain ⟨files, hinv⟩ := inv_run hk hcalls hrun
    refine (hinv.canonical_restart hk hstep).mp ?_
    refine hcan (done ++ [.restart listing]) rest o' (by rw [hcalls, List.append_assoc]; rfl) ?_
    rw [run_append, hrun]
    exact hstep
  · intro hlisted done
    induction done using List.reverseRecOn with
    | nil =>
      intro rest o _ hrun
      cases hrun
      intro height p hp
      cases hp
    | append_singleton done call ih =>
      intro rest o hcalls hrun
      rw [run_append] at hrun
      obtain ⟨o₁, hrun₁, hstep⟩ := Option.bind_eq_some_iff.mp hrun
      rw [List.append_assoc] at hcalls
      obtain ⟨files, hinv⟩ := inv_run hk hcalls hrun₁
      by_cases hrestart : ∃ listing, call = .restart listing
      · obtain ⟨listing, rfl⟩ := hrestart
        exact (hinv.canonical_restart hk hstep).mpr
          (hlisted done listing rest o₁ o hcalls hrun₁ hstep)
      · exact hinv.canonical_step hk (hknown hcalls) (fun listing heq => hrestart ⟨listing, heq⟩)
          hstep (ih _ o₁ hcalls hrun₁)

/-! ### Two payloads of height 1 -/

/-- One payload is executed, a competitor is certified, then the node restarts. -/
def forkCalls (listing : List Bytes) : List StoreCall :=
  [.putExecuted firstPayload .done, .put LayerNode.forkPayload .done, .restart listing]

def fileOf (p : BlockPayload) : Bytes := PayloadStore.path (p.digest sha256).bytes p.height

theorem payloads_forkCalls (listing : List Bytes) :
    (forkCalls listing).filterMap StoreCall.payload? = [firstPayload, LayerNode.forkPayload] := rfl

theorem collisionFree_forkCalls : PairTree.CollisionFree sha256
    ([firstPayload, LayerNode.forkPayload].map BlockPayload.toBytes) := by
  simp only [LayerNode.forkPayload, firstPayload, sha256_eq_eval]
  decide +kernel

theorem fits_forkCalls : ∀ p ∈ [firstPayload, LayerNode.forkPayload], p.Fits := by
  intro p hp
  rcases List.mem_cons.mp hp with rfl | hp
  · exact ⟨by decide, by decide, by decide, by decide, by decide⟩
  · obtain rfl := List.mem_singleton.mp hp
    exact ⟨by decide, by decide, by decide, by decide, by decide⟩

theorem canonical_iff_listedLast_sample :
    (∀ done rest o, forkCalls [fileOf LayerNode.forkPayload, fileOf firstPayload] = done ++ rest →
        run sha256 done = some o → o.Canonical sha256) ↔
      ∀ done listing rest o o', forkCalls [fileOf LayerNode.forkPayload, fileOf firstPayload] =
        done ++ .restart listing :: rest → run sha256 done = some o →
        o.step sha256 (.restart listing) = some o' →
          o.ListedLast sha256 listing :=
  (canonical_iff_listedLast (by rw [payloads_forkCalls]; exact collisionFree_forkCalls)
    (by rw [payloads_forkCalls]; exact fits_forkCalls)).2

/-- The competitor's file is listed last and is served in place of the executed payload. -/
theorem competitor_served_after_restart :
    (run sha256 (forkCalls [fileOf firstPayload, fileOf LayerNode.forkPayload])).map
        (fun o => (o.executed 1, o.store.getByHeight sha256 1)) =
      some (some firstPayload, some LayerNode.forkPayload) ∧
    LayerNode.forkPayload ≠ firstPayload := by
  constructor
  · simp only [forkCalls, fileOf, LayerNode.forkPayload, firstPayload, sha256_eq_eval]
    decide +kernel
  · decide +kernel

end Observed

end LayerSdk
