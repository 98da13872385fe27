import LayerSdk.Codec

/-!
# Block payloads

What the consensus engine orders: the digest of a payload's bincode bytes.
bincode writes fixed-width little-endian numbers, a length before each
vector, and arrays bare; `fromBytes` reads the fields back in order and, like
the source, ignores what follows the last one.
-/

namespace LayerSdk

structure BlockPayload where
  height : Nat
  timestampNanos : Nat
  proposer : Bytes
  txs : List Bytes
  parentDigest : Digest
  stateRoot : Digest
deriving DecidableEq

def u64le (n : Nat) : Bytes :=
  [0, 8, 16, 24, 32, 40, 48, 56].map fun shift => UInt8.ofNat (n >>> shift)

/-- A byte string in bincode: length, then the bytes. -/
def bincodeBytes (b : Bytes) : Bytes := u64le b.length ++ b

/-- `bincode::serialize`: the fields in order, arrays without a length. -/
def BlockPayload.toBytes (p : BlockPayload) : Bytes :=
  u64le p.height ++ u64le p.timestampNanos ++ bincodeBytes p.proposer
    ++ (u64le p.txs.length ++ p.txs.flatMap bincodeBytes)
    ++ p.parentDigest.bytes ++ p.stateRoot.bytes

def BlockPayload.digest (H : Bytes → Digest) (p : BlockPayload) : Digest := H p.toBytes

/-! ## Reading -/

/-- Split off the first `n` bytes. -/
def takeBytes (n : Nat) (b : Bytes) : Option (Bytes × Bytes) :=
  if b.length < n then none else some (b.take n, b.drop n)

def fromU64le : Bytes → Nat
  | [] => 0
  | x :: rest => x.toNat + 256 * fromU64le rest

def readU64le (b : Bytes) : Option (Nat × Bytes) :=
  (takeBytes 8 b).map fun (front, rest) => (fromU64le front, rest)

def readBincodeBytes (b : Bytes) : Option (Bytes × Bytes) :=
  (readU64le b).bind fun (n, rest) => takeBytes n rest

def readMany : Nat → Bytes → Option (List Bytes × Bytes)
  | 0, b => some ([], b)
  | n + 1, b => do
    let (x, rest) ← readBincodeBytes b
    let (xs, rest) ← readMany n rest
    pure (x :: xs, rest)

def readDigest (b : Bytes) : Option (Digest × Bytes) :=
  if h : 32 ≤ b.length then
    some (⟨b.take 32, by simp [h]⟩, b.drop 32)
  else none

/-- `bincode::deserialize`. -/
def BlockPayload.fromBytes (b : Bytes) : Option BlockPayload := do
  let (height, rest) ← readU64le b
  let (timestampNanos, rest) ← readU64le rest
  let (proposer, rest) ← readBincodeBytes rest
  let (count, rest) ← readU64le rest
  let (txs, rest) ← readMany count rest
  let (parentDigest, rest) ← readDigest rest
  let (stateRoot, _) ← readDigest rest
  pure ⟨height, timestampNanos, proposer, txs, parentDigest, stateRoot⟩

/-! ## What was written reads back -/

/-- The fields are those of the Rust types. -/
structure BlockPayload.Fits (p : BlockPayload) : Prop where
  height : p.height < 2 ^ 64
  timestampNanos : p.timestampNanos < 2 ^ 64
  proposer : p.proposer.length < 2 ^ 64
  count : p.txs.length < 2 ^ 64
  txs : ∀ tx ∈ p.txs, tx.length < 2 ^ 64

theorem length_u64le (n : Nat) : (u64le n).length = 8 := rfl

theorem fromU64le_u64le {n : Nat} (h : n < 2 ^ 64) : fromU64le (u64le n) = n := by
  simp only [u64le, List.map_cons, List.map_nil, fromU64le, UInt8.toNat_ofNat',
    Nat.shiftRight_eq_div_pow]
  omega

theorem takeBytes_append (a b : Bytes) : takeBytes a.length (a ++ b) = some (a, b) := by
  rw [takeBytes, if_neg (by rw [List.length_append]; omega), List.take_left, List.drop_left]

theorem readU64le_u64le {n : Nat} (h : n < 2 ^ 64) (rest : Bytes) :
    readU64le (u64le n ++ rest) = some (n, rest) := by
  have htake := takeBytes_append (u64le n) rest
  rw [length_u64le] at htake
  rw [readU64le, htake, Option.map_some]
  dsimp only
  rw [fromU64le_u64le h]

theorem readBincodeBytes_bincodeBytes {b : Bytes} (h : b.length < 2 ^ 64) (rest : Bytes) :
    readBincodeBytes (bincodeBytes b ++ rest) = some (b, rest) := by
  rw [readBincodeBytes, bincodeBytes, List.append_assoc, readU64le_u64le h, Option.bind_some]
  exact takeBytes_append b rest

theorem readMany_flatMap {l : List Bytes} (h : ∀ b ∈ l, b.length < 2 ^ 64) (rest : Bytes) :
    readMany l.length (l.flatMap bincodeBytes ++ rest) = some (l, rest) := by
  induction l with
  | nil => rfl
  | cons b l ih =>
    rw [List.flatMap_cons, List.append_assoc, List.length_cons, readMany,
      readBincodeBytes_bincodeBytes (h b (List.mem_cons_self))]
    simp only [Option.bind_eq_bind, Option.bind_some,
      ih fun x hx => h x (List.mem_cons_of_mem _ hx), Option.pure_def]

theorem readDigest_bytes (d : Digest) (rest : Bytes) :
    readDigest (d.bytes ++ rest) = some (d, rest) := by
  have hlen := d.length_bytes
  rw [readDigest, dif_pos (by rw [List.length_append]; omega), Option.some.injEq, Prod.mk.injEq]
  refine ⟨Digest.ext_bytes ?_, ?_⟩
  · change List.take 32 (d.bytes ++ rest) = d.bytes
    rw [← hlen]
    exact List.take_left
  · rw [← hlen]
    exact List.drop_left

theorem BlockPayload.fromBytes_toBytes {p : BlockPayload} (h : p.Fits) :
    fromBytes p.toBytes = some p := by
  have hend := readDigest_bytes p.stateRoot []
  rw [List.append_nil] at hend
  simp only [fromBytes, toBytes, List.append_assoc, readU64le_u64le h.height,
    readU64le_u64le h.timestampNanos, readBincodeBytes_bincodeBytes h.proposer,
    readU64le_u64le h.count, readMany_flatMap h.txs, readDigest_bytes, hend, Option.bind_eq_bind,
    Option.bind_some, Option.pure_def]

/-- `max_by_key`: the last of the highest. -/
def maxByKey {α : Type} (key : α → Nat) : List α → Option α
  | [] => none
  | x :: rest =>
    match maxByKey key rest with
    | none => some x
    | some best => if key x > key best then some x else some best

end LayerSdk
