import LayerSdk.LcBytes
import LayerSdk.LoopRun
import LayerSdk.OrdMap
import LayerSdk.Storage

/-!
# Light client: the host-key store

The contract keeps its two kinds of state under keys the host reads:
`clientState`, and `consensusStates/{revision}-{height}`. Each value is the
contract's JSON wrapped twice by a hand-written protobuf codec.

The codec is modelled byte for byte and, where it reads, at the machine level
of `LcBytes`. `get_len_field` adds a length it has read to its position without
a check; where the sum wraps it panics, or goes back to a byte it has passed.
`getLenField_done_iff` says when that keeps it from returning.

Nothing the contract itself saves is of that kind. What the rest of the
development uses are the four laws at the end: what is saved is loaded back,
and saving one thing leaves every other thing as it was.
-/

namespace LayerSdk.Lc

structure Height where
  revisionNumber : Nat
  revisionHeight : Nat
deriving DecidableEq, Repr

structure ClientState where
  chainId : String
  groupPublicKeyHex : String
  latestHeight : Height
  frozenHeight : Option Height
deriving DecidableEq, Repr

structure ConsensusState where
  payloadDigestHex : String
  timestamp : Nat
  epoch : Nat
  view : Nat
  parent : Nat
deriving DecidableEq, Repr

def clientStateKey : Bytes := str "clientState"

def clientStateTypeUrl : String := "/ibc.lightclients.wasm.v1.ClientState"

def consensusStateTypeUrl : String := "/ibc.lightclients.wasm.v1.ConsensusState"

def consensusStateKey (h : Height) : Bytes :=
  str ("consensusStates/" ++ (Nat.repr h.revisionNumber ++ "-" ++ Nat.repr h.revisionHeight))

/-! ## The proto3 codec -/

def putVarint (v : Nat) : Bytes := Leb128.encode v

def putLen (field : Nat) (data : Bytes) : Bytes :=
  putVarint (field * 8 + 2) ++ putVarint data.length ++ data

def putVarintField (field v : Nat) : Bytes :=
  if v ≠ 0 then putVarint (field * 8) ++ putVarint v else []

/-- The loop of `read_varint`; ten passes use up the word. -/
def readVarintLoop (bz : Bytes) : Nat → Nat → Nat → Nat → Option (Nat × Nat)
  | 0, _, _, _ => none
  | n + 1, v, shift, i =>
    if h : i < bz.length then
      let b := bz[i]
      let v := v ||| ((b.toNat % 128) <<< shift) % 2 ^ 64
      if b.toNat < 128 then some (v, i + 1)
      else if 64 ≤ shift + 7 then none
      else readVarintLoop bz n v (shift + 7) (i + 1)
    else none

def readVarint (bz : Bytes) (i : Nat) : Option (Nat × Nat) := readVarintLoop bz 10 0 0 i

/-- The check at the end of a pass of `get_len_field`. -/
def nextPass (bz : Bytes) (i : Nat) : Ran (Option Bytes) ⊕ Nat :=
  if bz.length < i then .inl (.done none) else .inr i

/-- One pass of the loop of `get_len_field`: the end of the call, or the
position of the next pass. -/
def getLenPass (bz : Bytes) (want i : Nat) : Ran (Option Bytes) ⊕ Nat :=
  if bz.length ≤ i then .inl (.done none)
  else
    match readVarint bz i with
    | none => .inl (.done none)
    | some (tag, i) =>
      let field := tag / 8 % 2 ^ 32
      match tag % 8 with
      | 0 =>
        match readVarint bz i with
        | none => .inl (.done none)
        | some (_, i) => nextPass bz i
      | 1 => nextPass bz (addUsize i 8)
      | 5 => nextPass bz (addUsize i 4)
      | 2 =>
        match readVarint bz i with
        | none => .inl (.done none)
        | some (len, i) =>
          -- `len as usize`, and a sum that may wrap
          let stop := addUsize i (len % 2 ^ 32)
          if bz.length < stop then .inl (.done none)
          else if field = want then
            match getRange bz i stop with
            | some data => .inl (.done (some data))
            | none => .inl .panicked
          else nextPass bz stop
      | _ => .inl (.done none)

/-- `get_len_field`; `none` if it never returns. After as many passes as there
are positions one of them has come again, and then it never does
(`LoopRun.exists_cycle`, `LoopRun.run_eq_none_of_cycle`). -/
def getLenField (bz : Bytes) (want : Nat) : Option (Ran (Option Bytes)) :=
  LoopRun.run (getLenPass bz want) (bz.length + 1) 0

/-! ### Reading over positions -/

theorem readVarintLoop_eq (bz : Bytes) : ∀ (n v shift i : Nat), shift < 64 → 64 ≤ shift + 7 * n →
    readVarintLoop bz n v shift i =
      (Leb128.readLoop v shift (bz.drop i)).map (standAt bz) := by
  intro n
  induction n with
  | zero =>
    intro v shift i hshift hn
    omega
  | succ n ih =>
    intro v shift i hshift hn
    rw [readVarintLoop]
    split
    · rename_i hi
      rw [List.drop_eq_getElem_cons hi, Leb128.readLoop, if_neg (Nat.not_le.mpr hshift)]
      dsimp only
      split
      · have hlen : bz.length - (bz.drop (i + 1)).length = i + 1 := by
          rw [List.length_drop]
          omega
        rw [Option.map_some, standAt, hlen]
      · split
        · -- the shift is checked before the next byte here, and after it there
          rename_i hover
          cases bz.drop (i + 1) with
          | nil => rfl
          | cons b bs =>
            rw [Leb128.readLoop, if_pos hover]
            rfl
        · exact ih _ _ _ (by omega) (by omega)
    · rename_i hi
      rw [List.drop_eq_nil_of_le (Nat.not_lt.mp hi)]
      rfl

theorem readVarint_eq (bz : Bytes) (i : Nat) :
    readVarint bz i = (Leb128.read (bz.drop i)).map (standAt bz) :=
  readVarintLoop_eq bz 10 0 0 i (by omega) (by omega)

theorem readVarint_bounds {bz : Bytes} {i v j : Nat} (h : readVarint bz i = some (v, j)) :
    i < j ∧ j ≤ bz.length := by
  rw [readVarint_eq] at h
  obtain ⟨r, hr, hstand⟩ := Option.map_eq_some_iff.mp h
  obtain ⟨-, hlt, hle⟩ := drop_standAt hr
  rw [hstand] at hlt hle
  exact ⟨hlt, hle⟩

theorem readVarint_putVarint {v : Nat} (hv : v < 2 ^ 64) (pre rest : Bytes) :
    readVarint (pre ++ (putVarint v ++ rest)) pre.length =
      some (v, (pre ++ putVarint v).length) := by
  rw [readVarint_eq, List.drop_left, putVarint, Leb128.read_encode hv, Option.map_some, standAt]
  simp only [List.length_append]
  congr 2
  omega

/-! ### Lengths that wrap -/

/-- At `i` starts a length-delimited field whose length takes the position
after its header beyond the last 32-bit word, to `stop`. -/
def Wraps (bz : Bytes) (i field stop : Nat) : Prop :=
  ∃ tag j len k, i < bz.length ∧ readVarint bz i = some (tag, j) ∧ tag % 8 = 2 ∧
    readVarint bz j = some (len, k) ∧ field = tag / 8 % 2 ^ 32 ∧
    k + len % 2 ^ 32 = 2 ^ 32 + stop

section

variable {bz : Bytes} {want : Nat}

theorem getLenPass_wraps {i field stop : Nat} (hlen : bz.length < maxLen) (want : Nat)
    (h : Wraps bz i field stop) :
    getLenPass bz want i = if field = want then .inl .panicked else .inr stop := by
  obtain ⟨tag, j, len, k, hi, htag, hmod, hread, rfl, hsum⟩ := h
  unfold maxLen at hlen
  have hk := (readVarint_bounds hread).2
  have hstop : addUsize k (len % 2 ^ 32) = stop := by
    rw [addUsize, hsum]
    omega
  have hshort : ¬ bz.length < stop := by omega
  have hrange : ¬ (k ≤ stop ∧ stop ≤ bz.length) := by omega
  simp only [getLenPass, if_neg (Nat.not_le.mpr hi), htag, hmod, hread, hstop, if_neg hshort,
    getRange, if_neg hrange, nextPass]

theorem nextPass_cases {i j : Nat} (hij : i < j) :
    nextPass bz j = .inl (.done none) ∨ ∃ j', nextPass bz j = .inr j' ∧ i < j' ∧ j' ≤ bz.length := by
  unfold nextPass
  split
  · exact .inl rfl
  · exact .inr ⟨j, rfl, hij, by omega⟩

/-- What a pass does: it returns, it moves up, or it meets a length that
wraps. -/
theorem getLenPass_cases (hlen : bz.length < maxLen) (want i : Nat) :
    (∃ r, getLenPass bz want i = .inl (.done r)) ∨
      (∃ j, getLenPass bz want i = .inr j ∧ i < j ∧ j ≤ bz.length) ∨
      ∃ field stop, Wraps bz i field stop := by
  have hnext : ∀ {j}, i < j → (∃ r, nextPass bz j = .inl (.done r)) ∨
      (∃ j', nextPass bz j = .inr j' ∧ i < j' ∧ j' ≤ bz.length) ∨
      ∃ field stop, Wraps bz i field stop :=
    fun hij => (nextPass_cases hij).imp (fun h => ⟨none, h⟩) .inl
  unfold maxLen at hlen
  unfold getLenPass
  split
  · exact .inl ⟨none, rfl⟩
  split
  · exact .inl ⟨none, rfl⟩
  rename_i tag j htag
  have hj := readVarint_bounds htag
  dsimp only
  split
  · split
    · exact .inl ⟨none, rfl⟩
    · rename_i hread
      have hk := readVarint_bounds hread
      exact hnext (by omega)
  · exact hnext (by rw [addUsize_of_lt (by omega)]; omega)
  · exact hnext (by rw [addUsize_of_lt (by omega)]; omega)
  · rename_i hmod
    split
    · exact .inl ⟨none, rfl⟩
    rename_i len k hread
    have hk := readVarint_bounds hread
    by_cases hwrap : 2 ^ 32 ≤ k + len % 2 ^ 32
    · exact .inr (.inr ⟨_, k + len % 2 ^ 32 - 2 ^ 32, tag, j, len, k, by omega, htag, hmod, hread,
        rfl, by omega⟩)
    · rw [addUsize_of_lt (by omega)]
      split
      · exact .inl ⟨none, rfl⟩
      · split
        · rw [getRange, if_pos ⟨by omega, by omega⟩]
          exact .inl ⟨_, rfl⟩
        · exact hnext (by omega)
  · exact .inl ⟨none, rfl⟩

theorem Wraps.stop_le {i field stop : Nat} (h : Wraps bz i field stop) : stop ≤ bz.length := by
  obtain ⟨tag, j, len, k, -, -, -, hread, -, hsum⟩ := h
  have hk := (readVarint_bounds hread).2
  omega

/-- How a pass goes on: past the field it has read, or by a length that
wraps. -/
theorem leads_cases {i j : Nat} (hlen : bz.length < maxLen)
    (h : LoopRun.Leads (getLenPass bz want) i j) :
    j ≤ bz.length ∧ (i < j ∨ ∃ field, field ≠ want ∧ Wraps bz i field j) := by
  unfold LoopRun.Leads at h
  rcases getLenPass_cases hlen want i with ⟨r, hr⟩ | ⟨j', hj', hlt, hle⟩ | ⟨field, stop, hwraps⟩
  · rw [hr] at h
    cases h
  · rw [hj'] at h
    cases h
    exact ⟨hle, .inl hlt⟩
  · rw [getLenPass_wraps hlen want hwraps] at h
    split at h
    · cases h
    · rename_i hne
      cases h
      exact ⟨hwraps.stop_le, .inr ⟨field, hne, hwraps⟩⟩

/-- A pass panics on a wanted field whose length wraps, and nowhere else. -/
theorem panicked_cases {i : Nat} (hlen : bz.length < maxLen)
    (h : getLenPass bz want i = .inl .panicked) : ∃ stop, Wraps bz i want stop := by
  rcases getLenPass_cases hlen want i with ⟨r, hr⟩ | ⟨j, hj, -, -⟩ | ⟨field, stop, hwraps⟩
  · rw [hr] at h
    cases h
  · rw [hj] at h
    cases h
  · rw [getLenPass_wraps hlen want hwraps] at h
    split at h
    · rename_i heq
      exact ⟨stop, heq ▸ hwraps⟩
    · cases h

variable (bz want) in
/-- No length that the reader meets wraps on the wanted field, or takes it back
to where it comes to that length again. -/
def Onward : Prop :=
  ∀ i field stop, LoopRun.Reaches (getLenPass bz want) 0 i → Wraps bz i field stop →
    field ≠ want ∧ ¬ LoopRun.Reaches (getLenPass bz want) stop i

/-- **When the field reader returns.** -/
theorem getLenField_done_iff (hlen : bz.length < maxLen) :
    (∃ r, getLenField bz want = some (.done r)) ↔ Onward bz want := by
  have hbound : ∀ i j, LoopRun.Leads (getLenPass bz want) i j → j ≤ bz.length :=
    fun i j h => (leads_cases hlen h).1
  have hiff := LoopRun.run_isSome_iff hbound (Nat.zero_le bz.length)
  constructor
  · rintro ⟨r, hr⟩ i field stop hreach hwraps
    have hpass := getLenPass_wraps hlen want hwraps
    have hne : field ≠ want := by
      rintro rfl
      rw [if_pos rfl] at hpass
      obtain ⟨m, -, hm⟩ := LoopRun.run_of_reaches hreach hr
      cases m with
      | zero => cases hm
      | succ m =>
        rw [LoopRun.run, hpass] at hm
        cases hm
    rw [if_neg hne] at hpass
    refine ⟨hne, fun hback => ?_⟩
    obtain ⟨m, -, hm⟩ := LoopRun.run_of_reaches hreach hr
    rw [LoopRun.run_eq_none_of_cycle (Relation.TransGen.head' hpass hback)] at hm
    cases hm
  · intro honward
    have hsome := hiff.mpr fun a b ha hab hle => by
      obtain ⟨-, hlt | ⟨field, -, hwraps⟩⟩ := leads_cases hlen hab
      · omega
      · exact (honward a field b ha hwraps).2
    obtain ⟨r, hr⟩ := Option.isSome_iff_exists.mp hsome
    cases r with
    | done r => exact ⟨r, hr⟩
    | panicked =>
      obtain ⟨j, hj, hpanic⟩ := LoopRun.exists_reaches_of_run hr
      obtain ⟨stop, hwraps⟩ := panicked_cases hlen hpanic
      exact absurd rfl (honward j want stop hj hwraps).1

/-! ### Fields the writer wrote -/

/-- A pass over a length-delimited field of the writer's. -/
theorem run_putLen (want n : Nat) {pre data rest : Bytes} {field : Nat} (hfield : field < 2 ^ 29)
    (hbz : bz = pre ++ (putLen field data ++ rest)) (hlen : bz.length < 2 ^ 32) :
    LoopRun.run (getLenPass bz want) (n + 1) pre.length =
      if field = want then some (.done (some data))
      else LoopRun.run (getLenPass bz want) n (pre ++ putLen field data).length := by
  have hsplit : bz = pre ++ (putVarint (field * 8 + 2) ++
      (putVarint data.length ++ (data ++ rest))) := by
    rw [hbz, putLen]
    simp only [List.append_assoc]
  have hall : bz.length = pre.length + (putVarint (field * 8 + 2)).length +
      (putVarint data.length).length + data.length + rest.length := by
    rw [hsplit]
    simp only [List.length_append]
    omega
  have htag : readVarint bz pre.length =
      some (field * 8 + 2, (pre ++ putVarint (field * 8 + 2)).length) := by
    rw [hsplit]
    exact readVarint_putVarint (by omega) _ _
  have hread : readVarint bz (pre ++ putVarint (field * 8 + 2)).length =
      some (data.length,
        (pre ++ putVarint (field * 8 + 2) ++ putVarint data.length).length) := by
    rw [hsplit, ← List.append_assoc]
    exact readVarint_putVarint (by omega) _ _
  have hdata : getRange bz (pre ++ putVarint (field * 8 + 2) ++ putVarint data.length).length
      ((pre ++ putLen field data).length) = some data := by
    have hdrop : bz.drop (pre ++ putVarint (field * 8 + 2) ++ putVarint data.length).length =
        data ++ rest := by
      rw [hsplit, ← List.append_assoc, ← List.append_assoc, List.drop_left]
    rw [getRange, hdrop]
    simp only [putLen, List.length_append] at hall ⊢
    rw [if_pos ⟨by omega, by omega⟩]
    congr 1
    convert List.take_left' rfl using 2
    omega
  have hmod : (field * 8 + 2) % 8 = 2 := by omega
  have hdiv : (field * 8 + 2) / 8 % 2 ^ 32 = field := by omega
  have hlenmod : data.length % 2 ^ 32 = data.length := by omega
  have hstop : addUsize (pre ++ putVarint (field * 8 + 2) ++ putVarint data.length).length
      data.length = (pre ++ putLen field data).length := by
    rw [addUsize_of_lt]
    · simp only [putLen, List.length_append]
      omega
    · simp only [List.length_append]
      omega
  have hend : (pre ++ putLen field data).length ≤ bz.length := by
    rw [hbz]
    simp only [List.length_append]
    omega
  have hpass : getLenPass bz want pre.length =
      if field = want then .inl (.done (some data))
      else .inr (pre ++ putLen field data).length := by
    obtain ⟨hpos, hle⟩ := readVarint_bounds htag
    have hstart : ¬ bz.length ≤ pre.length := by omega
    simp only [getLenPass, if_neg hstart, htag, hmod, hread, hlenmod, hstop,
      if_neg (Nat.not_lt.mpr hend), hdiv, hdata, nextPass]
  rw [LoopRun.run, hpass]
  by_cases heq : field = want
  · rw [if_pos heq, if_pos heq]
  · rw [if_neg heq, if_neg heq]

end

/-! ## Wrappers -/

def encodeHeight (h : Height) : Bytes :=
  putVarintField 1 h.revisionNumber ++ putVarintField 2 h.revisionHeight

def encodeWasmClientState (data checksum : Bytes) (latest : Height) : Bytes :=
  putLen 1 data ++ putLen 2 checksum ++ putLen 3 (encodeHeight latest)

def encodeWasmConsensusState (data : Bytes) : Bytes := putLen 1 data

def encodeAny (typeUrl : String) (value : Bytes) : Bytes :=
  putLen 1 (str typeUrl) ++ putLen 2 value

/-! ## Saving and loading -/

/-- How a load falls short: it returns an error, or the call traps. -/
inductive Unstored where
  | std (e : StdError)
  | aborted
deriving DecidableEq, Repr

def Unstored.toContractError : Unstored → ContractError
  | .std e => .std e
  | .aborted => .aborted

/-- `#[from] StdError`; a trap ends the whole call. -/
def ofStore {α : Type} : Except Unstored α → Except ContractError α
  | .ok a => .ok a
  | .error e => .error e.toContractError

@[simp] theorem ofStore_ok {α : Type} (a : α) : ofStore (.ok a) = .ok a := rfl

theorem ofStore_eq_ok {α : Type} {x : Except Unstored α} {a : α} :
    ofStore x = .ok a ↔ x = .ok a := by
  cases x <;> simp [ofStore]

/-- `get_len_field(..).ok_or_else(..)?`. A panic traps, and so does a loop that
never returns: the host runs it out of gas. -/
def lenField (bz : Bytes) (want : Nat) (missing : String) : Except Unstored Bytes :=
  match getLenField bz want with
  | some (.done (some data)) => .ok data
  | some (.done none) => .error (.std (.genericErr missing))
  | some .panicked => .error .aborted
  | none => .error .aborted

section Api

variable (cj : WasmCodec ClientState) (kj : WasmCodec ConsensusState)

def saveClientState (storage : Store) (cs : ClientState) (checksum : Bytes) :
    Except StdError Store := do
  let data ← cj.toJsonVec cs
  let value := encodeWasmClientState data checksum cs.latestHeight
  .ok (storage.insert clientStateKey (encodeAny clientStateTypeUrl value))

def loadClientState (storage : Store) : Except Unstored (ClientState × Bytes) :=
  match storage[clientStateKey]? with
  | none => .error (.std (.notFound "clientState"))
  | some any => do
    let value ← lenField any 2 "clientState Any: missing value"
    let data ← lenField value 1 "wasm ClientState: missing data"
    let checksum ← lenField value 2 "wasm ClientState: missing checksum"
    let cs ← (cj.fromJson data).mapError .std
    .ok (cs, checksum)

def saveConsensusState (storage : Store) (h : Height) (cs : ConsensusState) :
    Except StdError Store := do
  let data ← kj.toJsonVec cs
  let value := encodeWasmConsensusState data
  .ok (storage.insert (consensusStateKey h) (encodeAny consensusStateTypeUrl value))

def mayLoadConsensusState (storage : Store) (h : Height) :
    Except Unstored (Option ConsensusState) :=
  match storage[consensusStateKey h]? with
  | none => .ok none
  | some any => do
    let value ← lenField any 2 "consensusState Any: missing value"
    let data ← lenField value 1 "wasm ConsensusState: missing data"
    let cs ← (kj.fromJson data).mapError .std
    .ok (some cs)

/-! ## What the wrappers keep -/

theorem length_encodeHeight (h : Height) : (encodeHeight h).length ≤ 40 := by
  have hfield : ∀ f v, (putVarintField f v).length ≤ 20 := by
    intro f v
    unfold putVarintField
    split
    · have h1 := Leb128.length_encode (f * 8)
      have h2 := Leb128.length_encode v
      rw [List.length_append, putVarint, putVarint]
      omega
    · exact Nat.zero_le _
  have h1 := hfield 1 h.revisionNumber
  have h2 := hfield 2 h.revisionHeight
  rw [encodeHeight, List.length_append]
  omega

theorem length_putLen (field : Nat) (data : Bytes) :
    (putLen field data).length ≤ data.length + 20 := by
  have h1 := Leb128.length_encode (field * 8 + 2)
  have h2 := Leb128.length_encode data.length
  rw [putLen, List.length_append, List.length_append, putVarint, putVarint]
  omega

theorem length_encodeWasmClientState (data checksum : Bytes) (latest : Height) :
    (encodeWasmClientState data checksum latest).length ≤ data.length + checksum.length + 100 := by
  have h₁ := length_putLen 1 data
  have h₂ := length_putLen 2 checksum
  have h₃ := length_putLen 3 (encodeHeight latest)
  have h₄ := length_encodeHeight latest
  rw [encodeWasmClientState, List.length_append, List.length_append]
  omega

variable {bz data checksum : Bytes} {s s' : Store} {cs : ClientState} {height : Height}
  {c : ConsensusState}

theorem lenField_of_run {want : Nat} (missing : String)
    (h : LoopRun.run (getLenPass bz want) (bz.length + 1) 0 = some (.done (some data))) :
    lenField bz want missing = .ok data := by
  rw [lenField, getLenField, h]

/-- The first field of a message. -/
theorem lenField_putLen {rest : Bytes} (field : Nat) (missing : String) (hfield : field < 2 ^ 29)
    (hbz : bz = putLen field data ++ rest) (hlen : bz.length < 2 ^ 32) :
    lenField bz field missing = .ok data := by
  have hrun := run_putLen field bz.length hfield ((List.nil_append _).trans hbz.symm).symm hlen
  rw [if_pos rfl] at hrun
  exact lenField_of_run missing hrun

/-- The field behind the first one. -/
theorem lenField_putLen_putLen {skipped rest : Bytes} {field want : Nat} (missing : String)
    (hfield : field < 2 ^ 29) (hwant : want < 2 ^ 29) (hne : field ≠ want)
    (hbz : bz = putLen field skipped ++ (putLen want data ++ rest)) (hlen : bz.length < 2 ^ 32) :
    lenField bz want missing = .ok data := by
  have hskip := run_putLen want bz.length hfield ((List.nil_append _).trans hbz.symm).symm hlen
  have hpos : bz.length ≠ 0 := by
    have := List.length_pos_iff.mpr (Leb128.whole_encode (v := field * 8 + 2) (by omega)).ne_nil
    rw [hbz, putLen, putVarint]
    simp only [List.length_append]
    omega
  obtain ⟨n, hn⟩ := Nat.exists_eq_succ_of_ne_zero hpos
  have hread := run_putLen want n hwant hbz hlen
  rw [if_neg hne, List.nil_append, hn, hread, if_pos rfl, ← hn] at hskip
  exact lenField_of_run missing hskip

theorem consensusStateKey_inj {h h' : Height} (heq : consensusStateKey h = consensusStateKey h') :
    h = h' := by
  obtain ⟨hnum, hheight⟩ := dashed_inj (string_append_cancel (str_inj heq))
  cases h
  cases h'
  simp_all

theorem consensusStateKey_ne_clientStateKey (h : Height) :
    consensusStateKey h ≠ clientStateKey := by
  intro heq
  have hlist := congrArg String.toList (str_inj heq)
  rw [String.toList_append] at hlist
  have hsecond := congrArg (·[1]?) hlist
  simp at hsecond

/-! ## Laws of the store -/

variable {cj kj}

/-- What saving a client state does. -/
theorem saveClientState_ok_iff :
    saveClientState cj s cs checksum = .ok s' ↔ ∃ data, cj.toJsonVec cs = .ok data ∧
      s' = s.insert clientStateKey (encodeAny clientStateTypeUrl
        (encodeWasmClientState data checksum cs.latestHeight)) := by
  simp only [saveClientState, bind_eq_ok, Except.ok.injEq, eq_comm (b := s')]

/-- What saving a consensus state does. -/
theorem saveConsensusState_ok_iff :
    saveConsensusState kj s height c = .ok s' ↔ ∃ data, kj.toJsonVec c = .ok data ∧
      s' = s.insert (consensusStateKey height)
        (encodeAny consensusStateTypeUrl (encodeWasmConsensusState data)) := by
  simp only [saveConsensusState, bind_eq_ok, Except.ok.injEq, eq_comm (b := s')]

theorem lenField_encodeAny (url : String) {value : Bytes} (missing : String)
    (hurl : (str url).length < 100) (hlen : value.length + 200 < 2 ^ 32) :
    lenField (encodeAny url value) 2 missing = .ok value := by
  have hsplit : encodeAny url value = putLen 1 (str url) ++ (putLen 2 value ++ []) := by
    rw [encodeAny, List.append_nil]
  refine lenField_putLen_putLen missing (by omega) (by omega) (by omega) hsplit ?_
  have h₁ := length_putLen 1 (str url)
  have h₂ := length_putLen 2 value
  rw [encodeAny, List.length_append]
  omega

theorem loadClientState_saveClientState (hlen : checksum.length < 2 ^ 31)
    (h : saveClientState cj s cs checksum = .ok s') :
    loadClientState cj s' = .ok (cs, checksum) := by
  obtain ⟨data, hjson, rfl⟩ := saveClientState_ok_iff.mp h
  have hfits := cj.length_toJsonVec hjson
  have hlen' := length_encodeWasmClientState data checksum cs.latestHeight
  have hvalue := lenField_encodeAny clientStateTypeUrl "clientState Any: missing value"
    (by decide +kernel) (show (encodeWasmClientState data checksum cs.latestHeight).length + 200 <
      2 ^ 32 by omega)
  have hdata := lenField_putLen 1 "wasm ClientState: missing data" (by omega)
    (List.append_assoc ..) (show (encodeWasmClientState data checksum cs.latestHeight).length <
      2 ^ 32 by omega)
  have hchecksum := lenField_putLen_putLen "wasm ClientState: missing checksum" (by omega)
    (show 2 < 2 ^ 29 by omega) (show 1 ≠ 2 by omega) (List.append_assoc ..)
    (show (encodeWasmClientState data checksum cs.latestHeight).length < 2 ^ 32 by omega)
  rw [← encodeWasmClientState] at hdata hchecksum
  simp only [loadClientState, Std.ExtTreeMap.getElem?_insert_self, bind, Except.bind, hvalue,
    hdata, hchecksum, cj.fromJson_toJsonVec hjson, Except.mapError]

theorem mayLoadConsensusState_saveClientState (h : saveClientState cj s cs checksum = .ok s')
    (at' : Height) : mayLoadConsensusState kj s' at' = mayLoadConsensusState kj s at' := by
  obtain ⟨data, -, rfl⟩ := saveClientState_ok_iff.mp h
  unfold mayLoadConsensusState
  rw [OrdMap.getElem?_insert_of_ne (consensusStateKey_ne_clientStateKey at').symm]

theorem loadClientState_saveConsensusState (h : saveConsensusState kj s height c = .ok s') :
    loadClientState cj s' = loadClientState cj s := by
  obtain ⟨data, -, rfl⟩ := saveConsensusState_ok_iff.mp h
  unfold loadClientState
  rw [OrdMap.getElem?_insert_of_ne (consensusStateKey_ne_clientStateKey height)]

theorem mayLoadConsensusState_saveConsensusState (h : saveConsensusState kj s height c = .ok s')
    (at' : Height) : mayLoadConsensusState kj s' at' =
      if at' = height then .ok (some c) else mayLoadConsensusState kj s at' := by
  obtain ⟨data, hjson, rfl⟩ := saveConsensusState_ok_iff.mp h
  by_cases heq : at' = height
  · subst heq
    have hfits := kj.length_toJsonVec hjson
    have hlen : (encodeWasmConsensusState data).length ≤ data.length + 20 := length_putLen 1 data
    have hvalue := lenField_encodeAny consensusStateTypeUrl
      "consensusState Any: missing value" (by decide +kernel)
      (show (encodeWasmConsensusState data).length + 200 < 2 ^ 32 by omega)
    have hdata := lenField_putLen 1 "wasm ConsensusState: missing data" (by omega)
      (List.append_nil _).symm (show (encodeWasmConsensusState data).length < 2 ^ 32 by omega)
    rw [← encodeWasmConsensusState] at hdata
    simp only [mayLoadConsensusState, Std.ExtTreeMap.getElem?_insert_self, bind, Except.bind,
      hvalue, hdata, kj.fromJson_toJsonVec hjson, Except.mapError, if_true]
  · rw [if_neg heq]
    unfold mayLoadConsensusState
    rw [OrdMap.getElem?_insert_of_ne fun hk => heq (consensusStateKey_inj hk).symm]

variable (cj kj) in
/-- **The store's codec.** What is saved is loaded back and nothing else
changes; the field reader returns on a byte string exactly if no length in it
wraps the reader's position. -/
theorem store_codec :
    (∀ (s : Store) (cs : ClientState) (checksum data : Bytes), cj.toJsonVec cs = .ok data →
      checksum.length < maxLen →
      ∃ s', saveClientState cj s cs checksum = .ok s' ∧
        loadClientState cj s' = .ok (cs, checksum) ∧
        ∀ h, mayLoadConsensusState kj s' h = mayLoadConsensusState kj s h) ∧
    (∀ (s : Store) (h : Height) (c : ConsensusState) (data : Bytes), kj.toJsonVec c = .ok data →
      ∃ s', saveConsensusState kj s h c = .ok s' ∧
        mayLoadConsensusState kj s' h = .ok (some c) ∧
        loadClientState cj s' = loadClientState cj s ∧
        ∀ h', h' ≠ h → mayLoadConsensusState kj s' h' = mayLoadConsensusState kj s h') ∧
    ∀ (bz : Bytes) (want : Nat), bz.length < maxLen →
      ((∃ r, getLenField bz want = some (.done r)) ↔ Onward bz want) := by
  refine ⟨fun s cs checksum data hjson hlen => ?_, fun s h c data hjson => ?_,
    fun bz want hlen => getLenField_done_iff hlen⟩
  · obtain ⟨s', hsave⟩ : ∃ s', saveClientState cj s cs checksum = .ok s' :=
      ⟨_, saveClientState_ok_iff.mpr ⟨data, hjson, rfl⟩⟩
    exact ⟨s', hsave, loadClientState_saveClientState hlen hsave,
      mayLoadConsensusState_saveClientState hsave⟩
  · obtain ⟨s', hsave⟩ : ∃ s', saveConsensusState kj s h c = .ok s' :=
      ⟨_, saveConsensusState_ok_iff.mpr ⟨data, hjson, rfl⟩⟩
    refine ⟨s', hsave, ?_, loadClientState_saveConsensusState hsave, fun h' hne => ?_⟩
    · rw [mayLoadConsensusState_saveConsensusState hsave, if_pos rfl]
    · rw [mayLoadConsensusState_saveConsensusState hsave, if_neg hne]

end Api

/-- A client of the shape the contract keeps, and its text. -/
def storedClient : ClientState := ⟨"layer", "", ⟨0, 7⟩, none⟩

theorem store_codec_storedClient :
    (∃ s', saveClientState (.table [(storedClient, str "c")]) ∅ storedClient (str "sum") = .ok s' ∧
      loadClientState (.table [(storedClient, str "c")]) s' = .ok (storedClient, str "sum")) ∧
    Onward (encodeAny clientStateTypeUrl (str "v")) 2 := by
  obtain ⟨hclient, -, hreader⟩ := store_codec (.table [(storedClient, str "c")]) (.table [])
  obtain ⟨s', hsave, hload, -⟩ := hclient ∅ storedClient (str "sum") (str "c") (by decide +kernel)
    (by decide +kernel)
  have hlen : (encodeAny clientStateTypeUrl (str "v")).length < maxLen := by decide +kernel
  refine ⟨⟨s', hsave, hload⟩, (hreader _ 2 hlen).mp ⟨some (str "v"), ?_⟩⟩
  decide +kernel

/-- Field 2 with the length `u64::MAX`. -/
def longLength : Bytes := 0x12 :: List.replicate 9 0xff ++ [0x01]

/-- Field 1 with the length `u64::MAX - 10`. -/
def backLength : Bytes := 0x0a :: 0xf5 :: List.replicate 8 0xff ++ [0x01]

/-- The reader panics on the one and never returns on the other. -/
theorem getLenField_wraps :
    getLenField longLength 2 = some .panicked ∧ getLenField backLength 2 = none ∧
      ∀ n, LoopRun.run (getLenPass backLength 2) n 0 = none := by
  refine ⟨by decide +kernel, by decide +kernel, ?_⟩
  have hback : LoopRun.Leads (getLenPass backLength 2) 0 0 := by
    unfold LoopRun.Leads
    decide +kernel
  exact LoopRun.run_eq_none_of_cycle (.single hback)

end LayerSdk.Lc
