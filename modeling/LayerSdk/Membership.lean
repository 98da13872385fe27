import LayerSdk.AppTypes
import LayerSdk.LcContract
import LayerSdk.Payload
import LayerSdk.StateRoot

/-!
# Membership proofs, from the node to the contract

The node builds a proof from a scan of its committed state
(`stateProof`), a relayer adds the payload of the next block, and the
contract checks the payload against a stored digest and the path against the
last 32 bytes of the payload.

- `stateProof_verifies`: what the node builds, the contract accepts, for
  every number of leaves.
- `verifyMembership_sound_iff`: what the contract accepts is a committed
  *string* `key ++ value`. That it is a committed entry fails exactly when
  some other entry has the same string.
-/

namespace LayerSdk

open EffectProg Comp PairTree

/-! ## The block payload -/

/-- The byte-offset shortcut of the contract finds the state root. -/
theorem trailingRoot_toBytes (p : BlockPayload) :
    Lc.trailingRoot p.toBytes = some p.stateRoot := by
  unfold Lc.trailingRoot BlockPayload.toBytes
  generalize u64le p.height ++ _ ++ _ ++ _ ++ _ = front
  have hlen := p.stateRoot.length_bytes
  rw [List.length_append, hlen, if_neg (by omega), Nat.add_sub_cancel, List.drop_left,
    Lc.toDigest?_bytes]

/-! ## The node's side -/

section Node

variable (H : Bytes → Digest) (c : AppCodecs) {ε : Type} [FromGas ε] [FromStd ε]

/-- The loop over the entries: leaves so far, and where the key was found. -/
def proofLoop (key : Bytes) : List Digest × Option (Nat × Bytes) → List Record →
    List Digest × Option (Nat × Bytes)
  | acc, [] => acc
  | (leaves, found), (k, v) :: rest =>
    if isSidecar k then proofLoop key (leaves, found) rest
    else
      proofLoop key (leaves ++ [leafHash H k v],
        if k = key then some (leaves.length, v) else found) rest

def stateProof (key : Bytes) : StorageM ε (Option StateProof) := do
  let block ← c.lastBlock.mayLoad
  let stateHeight := (block.map BlockInfo.height).getD 0
  let entries ← scan
  let (leaves, found) := proofLoop H key ([], none) entries
  match found with
  | none => pure none
  | some (leafIndex, value) =>
    pure (some ⟨stateHeight, key, value, leafIndex, merklePath H leaves leafIndex⟩)

theorem proofLoop_append (key : Bytes) : ∀ (a b : List Record)
    (acc : List Digest × Option (Nat × Bytes)),
    proofLoop H key acc (a ++ b) = proofLoop H key (proofLoop H key acc a) b
  | [], _, _ => rfl
  | (k, v) :: rest, b, (leaves, found) => by
    simp only [List.cons_append, proofLoop]
    split <;> exact proofLoop_append key rest b _

theorem proofLoop_absent (key : Bytes) : ∀ (es : List Record) (leaves : List Digest)
    (found : Option (Nat × Bytes)), (∀ e ∈ es, isSidecar e.1 = false ∧ e.1 ≠ key) →
    proofLoop H key (leaves, found) es =
      (leaves ++ es.map fun e => leafHash H e.1 e.2, found)
  | [], leaves, found, _ => by simp [proofLoop]
  | (k, v) :: rest, leaves, found, h => by
    obtain ⟨hside, hne⟩ := h _ (List.mem_cons_self)
    have ih := proofLoop_absent key rest (leaves ++ [leafHash H k v]) found
      fun e he => h e (List.mem_cons_of_mem _ he)
    simp only [proofLoop, hside, Bool.false_eq_true, if_false, if_neg hne, ih]
    simp

/-- The loop ends with all leaves and the position of the key among them. -/
theorem proofLoop_scanEntries {data : Store} {key value : Bytes} (hside : isSidecar key = false)
    (hvalue : data[key]? = some value) :
    ∃ i, proofLoop H key ([], none) (scanEntries data) =
        ((scanEntries data).map (fun e => leafHash H e.1 e.2), some (i, value)) ∧
      ((scanEntries data).map fun e => leafHash H e.1 e.2)[i]? = some (leafHash H key value) := by
  have hmem := (getElem?_scanEntries data key value).mpr ⟨hside, hvalue⟩
  have hclean : ∀ e ∈ scanEntries data, isSidecar e.1 = false := fun e he =>
    ((getElem?_scanEntries data e.1 e.2).mp he).1
  have hasc := ascending_scanEntries data
  obtain ⟨pre, post, hsplit⟩ := List.append_of_mem hmem
  rw [hsplit] at hclean hasc ⊢
  obtain ⟨-, hpost, hpre⟩ := List.pairwise_append.mp hasc
  have hpre' : ∀ e ∈ pre, isSidecar e.1 = false ∧ e.1 ≠ key := fun e he =>
    ⟨hclean e (List.mem_append.mpr (.inl he)),
      OrdMap.ne_of_lt (hpre e he _ (List.mem_cons_self))⟩
  have hpost' : ∀ e ∈ post, isSidecar e.1 = false ∧ e.1 ≠ key := fun e he =>
    ⟨hclean e (List.mem_append.mpr (.inr (List.mem_cons_of_mem _ he))),
      (OrdMap.ne_of_lt ((List.pairwise_cons.mp hpost).1 e he)).symm⟩
  refine ⟨pre.length, ?_, by simp⟩
  rw [proofLoop_append, proofLoop_absent H key pre [] none hpre']
  simp only [proofLoop, hside, Bool.false_eq_true, if_false, if_true]
  rw [proofLoop_absent H key post _ _ hpost']
  simp

/-- Reading the last block and scanning. -/
def stateProofGas (data : Store) : Nat :=
  defaultPersistedPrices.readCost c.lastBlock.key data[c.lastBlock.key]? + scanGas data

theorem exec_mayLoad_reader {α : Type} (b : Backend) (data : Store) (i : Item α) (m : GasMeter)
    (hgas : m.used + defaultPersistedPrices.readCost i.key data[i.key]? < m.limit)
    (hparse : ∀ bz, data[i.key]? = some bz → ∃ x, i.codec.fromJson bz = .ok x) :
    ∃ o, exec (reader b) (i.mayLoad : StorageM ε (Option α)) m data =
      some (data, .ok o, { m with
        used := m.used + defaultPersistedPrices.readCost i.key data[i.key]? }) := by
  rw [exec_mayLoad, PriceList.chargeRead, GasMeter.charge_of_lt hgas]
  cases hv : data[i.key]? with
  | none => exact ⟨none, rfl⟩
  | some bz =>
    obtain ⟨x, hx⟩ := hparse bz hv
    refine ⟨some x, ?_⟩
    rw [Option.mapM_some, hx]
    rfl

/-- A proof that is built is one of the asked key, and its path ends at the
root. -/
theorem exec_stateProof_ok {b : Backend} {data data' : Store} {m m' : GasMeter}
    {key value : Bytes} (hside : isSidecar key = false) (hvalue : data[key]? = some value)
    {o : Option StateProof}
    (h : exec (reader b) (stateProof H c key : StorageM ε (Option StateProof)) m data =
      some (data', .ok o, m')) :
    ∃ proof, o = some proof ∧ proof.key = key ∧ proof.value = value ∧
      computeRoot H (leafHash H key value) proof.leafIndex proof.siblings = stateRoot H data := by
  obtain ⟨s₁, block, m₁, hload, hrest⟩ := exec_bind_ok h
  obtain rfl := exec_reader_state hload
  obtain ⟨s₂, es, m₂, hscan, hdone⟩ := exec_bind_ok hrest
  obtain ⟨-, rfl⟩ := exec_scan_ok hscan
  obtain ⟨i, hloop, hleaf⟩ := proofLoop_scanEntries H hside hvalue
  rw [hloop] at hdone
  obtain ⟨-, ho, -⟩ := exec_pure_cases hdone
  exact ⟨_, Except.ok.inj ho, rfl, rfl, computeRoot_merklePath H hleaf⟩

/-- The meter of `stateProof` only runs out on a state that costs `u64::MAX`. -/
theorem exec_stateProof_of_lt (b : Backend) (data : Store) (key : Bytes)
    (hlast : ∀ bz, data[c.lastBlock.key]? = some bz → ∃ x, c.blockInfo.fromJson bz = .ok x)
    (hgas : stateProofGas c data < u64Max) :
    ∃ o m', exec (reader b) (stateProof H c key : StorageM ε (Option StateProof))
        .infinite data = some (data, .ok o, m') := by
  unfold stateProofGas at hgas
  obtain ⟨o, hload⟩ := exec_mayLoad_reader (ε := ε) b data c.lastBlock .infinite
    (by simp only [GasMeter.infinite, GasMeter.new]; omega) hlast
  rw [stateProof, exec_bind, hload, Option.bind_some, andThen, exec_bind,
    exec_scan_of_lt b data _ (by simp only [GasMeter.infinite, GasMeter.new]; omega),
    Option.bind_some, andThen]
  generalize proofLoop H key ([], none) (scanEntries data) = x
  obtain ⟨leaves, _ | ⟨i, value⟩⟩ := x <;> exact ⟨_, _, rfl⟩

end Node

/-! ## The contract's side -/

section Contract

open Lc

variable (d : Deps)

theorem parseSiblings_bytes : ∀ siblings : List (Option Digest),
    parseSiblings (siblings.map (Option.map Digest.bytes)) = some siblings
  | [] => rfl
  | none :: rest => by
    rw [List.map_cons, Option.map_none, parseSiblings, parseSiblings_bytes rest]
    rfl
  | some sib :: rest => by
    rw [List.map_cons, Option.map_some, parseSiblings, toDigest?_bytes, parseSiblings_bytes rest]
    rfl

variable {d}

variable {s : Store} {height : Height} {proofBytes value : Bytes}

/-- What the contract checks, in one statement. -/
theorem verifyMembership_ok_iff {s' : Store} {keyPath : List Bytes} {r : Response} :
    verifyMembership d s height proofBytes keyPath value = .ok (s', r) ↔
      (s' = s ∧ r = .empty) ∧ ∃ consensus proof root siblings,
        mayLoadConsensusState d.consensusState s height = .ok (some consensus) ∧
        d.membershipProof.fromJson proofBytes = .ok proof ∧
        hexEncode (d.sha256 proof.payloadBytes).bytes = consensus.payloadDigestHex ∧
        trailingRoot proof.payloadBytes = some root ∧
        parseSiblings proof.siblings = some siblings ∧
        computeRoot d.sha256 (leafHash d.sha256 keyPath.flatten value) proof.leafIndex siblings =
          root := by
  unfold verifyMembership
  constructor
  · intro h
    obtain ⟨_ | consensus, hload, h⟩ := bind_eq_ok.mp h
    · cases h
    obtain ⟨proof, hproof, h⟩ := bind_eq_ok.mp h
    obtain ⟨hdigest, h⟩ := guard_eq_ok.mp h
    split at h
    · cases h
    rename_i root hroot
    split at h
    · cases h
    rename_i siblings hsiblings
    obtain ⟨hwalk, h⟩ := guard_eq_ok.mp h
    cases h
    exact ⟨⟨rfl, rfl⟩, consensus, proof, root, siblings, ofStore_eq_ok.mp hload,
      ofStd_eq_ok.mp hproof, not_not.mp hdigest, hroot, hsiblings, not_not.mp hwalk⟩
  · rintro ⟨⟨rfl, rfl⟩, consensus, proof, root, siblings, hload, hproof, hdigest, hroot, hsiblings,
      hwalk⟩
    rw [hload, hproof]
    simp only [bind, Except.bind, ofStd_ok, ofStore_ok, hdigest, hroot, hsiblings, hwalk, ne_eq,
      not_true_eq_false, if_false]

/-- The contract-side proof a relayer assembles from the node's proof and the
payload of the next block. -/
def relayedProof (p : BlockPayload) (proof : StateProof) : MembershipProof :=
  ⟨p.toBytes, proof.leafIndex, proof.siblings.map (Option.map Digest.bytes)⟩

/-- **Completeness.** For every consensus key the node builds a proof, and with
the bytes of a payload that carries the state's root the contract accepts it
at every height whose consensus state has the payload's digest. The second
part says when the node's own scan gets through. -/
theorem stateProof_verifies (c : AppCodecs) (b : Backend) (data : Store) {key value : Bytes}
    (hside : isSidecar key = false) (hvalue : data[key]? = some value)
    (p : BlockPayload) (hroot : p.stateRoot = stateRoot d.sha256 data)
    {s : Store} {height : Height} {consensus : ConsensusState}
    (hload : mayLoadConsensusState d.consensusState s height = .ok (some consensus))
    (hdigest : consensus.payloadDigestHex = hexEncode (p.digest d.sha256).bytes) :
    (∀ data' o m', exec (reader b)
        (stateProof d.sha256 c key : StorageM PulsarError (Option StateProof)) .infinite data =
          some (data', .ok o, m') →
      ∃ proof, o = some proof ∧ proof.key = key ∧ proof.value = value ∧
        ∀ proofBytes keyPath delayTime delayBlock,
          d.membershipProof.fromJson proofBytes = .ok (relayedProof p proof) →
          keyPath.flatten = key →
            sudoEntry d s (.verifyMembership height delayTime delayBlock proofBytes keyPath
              proof.value) = .ok (s, .empty)) ∧
    ((∀ bz, data[c.lastBlock.key]? = some bz → ∃ x, c.blockInfo.fromJson bz = .ok x) →
      stateProofGas c data < u64Max →
      ∃ o m', exec (reader b)
        (stateProof d.sha256 c key : StorageM PulsarError (Option StateProof)) .infinite data =
          some (data, .ok o, m')) := by
  refine ⟨?_, exec_stateProof_of_lt d.sha256 c b data key⟩
  intro data' o m' hexec
  obtain ⟨proof, rfl, hkey, hval, hwalk⟩ := exec_stateProof_ok d.sha256 c hside hvalue hexec
  refine ⟨proof, rfl, hkey, hval, ?_⟩
  intro proofBytes keyPath delayTime delayBlock hjson hpath
  refine verifyMembership_ok_iff.mpr ⟨⟨rfl, rfl⟩, consensus, relayedProof p proof, p.stateRoot,
    proof.siblings, hload, hjson, hdigest.symm, trailingRoot_toBytes p,
    parseSiblings_bytes proof.siblings, ?_⟩
  rw [hpath, hval, hroot]
  exact hwalk

/-- The state `"ab" ↦ "c"`, `"b" ↦ "d"` after block 4, and the payload of block 5. -/
def sampleLastBlock : BlockInfo := ⟨4, 1000, "slay"⟩

def sampleState : Store :=
  (abState.insert [0x62] [0x64]).insert (str "_last_block")
    (AppCodecs.blockInfoJson sampleLastBlock)

def payloadOver (S : Store) : BlockPayload :=
  ⟨5, 2000, [1], [], ⟨List.replicate 32 0, rfl⟩, stateRoot sha256 S⟩

def consensusOver (S : Store) : ConsensusState :=
  ⟨hexEncode ((payloadOver S).digest sha256).bytes, 2, 0, 5, 4⟩

def siblingsOver (S : Store) (i : Nat) : List (Option Digest) :=
  merklePath sha256 ((scanEntries S).map fun e => leafHash sha256 e.1 e.2) i

/-- A contract that has seen block 5, and the honest proofs. -/
def membershipDeps (S : Store) : Deps :=
  .ofValues sha256 [] [] [consensusOver S] [] []
    ((List.range (scanEntries S).length).map fun i =>
      ⟨(payloadOver S).toBytes, i, (siblingsOver S i).map (Option.map Digest.bytes)⟩)

def membershipStore (S : Store) : Store :=
  match saveConsensusState (membershipDeps S).consensusState ∅ ⟨0, 5⟩ (consensusOver S) with
  | .ok s => s
  | .error _ => ∅

theorem mayLoad_membershipStore (S : Store)
    (hok : (saveConsensusState (membershipDeps S).consensusState ∅ ⟨0, 5⟩
      (consensusOver S)).isOk = true) :
    mayLoadConsensusState (membershipDeps S).consensusState (membershipStore S) ⟨0, 5⟩ =
      .ok (some (consensusOver S)) := by
  unfold membershipStore
  cases h : saveConsensusState (membershipDeps S).consensusState ∅ ⟨0, 5⟩ (consensusOver S) with
  | error e => rw [h] at hok; cases hok
  | ok s => rw [mayLoadConsensusState_saveConsensusState h, if_pos rfl]

theorem stateProof_verifies_sample : ∃ proof m', exec (reader .rock)
      (stateProof sha256 (.ofValues [sampleLastBlock] [] [] [] []) [0x62] :
        StorageM PulsarError (Option StateProof)) .infinite sampleState =
        some (sampleState, .ok (some proof), m') ∧
    ∀ proofBytes keyPath delayTime delayBlock,
      (membershipDeps sampleState).membershipProof.fromJson proofBytes =
        .ok (relayedProof (payloadOver sampleState) proof) →
      keyPath.flatten = [0x62] →
        sudoEntry (membershipDeps sampleState) (membershipStore sampleState)
          (.verifyMembership ⟨0, 5⟩ delayTime delayBlock proofBytes keyPath proof.value) =
            .ok (membershipStore sampleState, .empty) := by
  obtain ⟨hsound, hbuilt⟩ := stateProof_verifies (d := membershipDeps sampleState)
    (.ofValues [sampleLastBlock] [] [] [] []) .rock sampleState
    (by decide : isSidecar [0x62] = false) (by decide +kernel : sampleState[([0x62] : Bytes)]? = some [0x64])
    (payloadOver sampleState) rfl (mayLoad_membershipStore sampleState (by decide +kernel)) rfl
  obtain ⟨o, m', hexec⟩ := hbuilt
    (fun bz hbz => by
      have hval : sampleState[str "_last_block"]? =
          some (AppCodecs.blockInfoJson sampleLastBlock) := by decide +kernel
      obtain rfl := Option.some.inj (hval.symm.trans hbz)
      exact ⟨sampleLastBlock, by decide +kernel⟩)
    (by decide +kernel)
  obtain ⟨proof, rfl, -, -, haccepted⟩ := hsound _ _ _ hexec
  exact ⟨proof, m', hexec, haccepted⟩

/-- Every string hashed when a path is walked and when the root over `S` is
computed. -/
def membershipInputs (H : Bytes → Digest) (S : Store) (key value : Bytes) (leafIndex : Nat)
    (siblings : List (Option Digest)) : List Bytes :=
  (0x00 :: (key ++ value)) ::
    ((stateScheme H).walkInputs (leafHash H key value) leafIndex siblings
      ++ rootInputs H ((scanEntries S).map entryBytes))

/-- No accepted proof against a payload that ends with the root of `S` claims
`key ↦ value` wrongly. The prover is free in everything the message holds. -/
def MembershipSound (d : Deps) (S s : Store) (height : Height) (key value : Bytes) : Prop :=
  ∀ proofBytes proof siblings keyPath delayTime delayBlock s' r,
    d.membershipProof.fromJson proofBytes = .ok proof →
    trailingRoot proof.payloadBytes = some (stateRoot d.sha256 S) →
    parseSiblings proof.siblings = some siblings →
    CollisionFree d.sha256 (membershipInputs d.sha256 S key value proof.leafIndex siblings) →
    keyPath.flatten = key →
    sudoEntry d s (.verifyMembership height delayTime delayBlock proofBytes keyPath value) =
      .ok (s', r) →
    S[key]? = some value

/-- An accepted proof shows a committed string. -/
theorem mem_entryBytes_of_accepted {S s' : Store} {key : Bytes} {proof : MembershipProof}
    {siblings : List (Option Digest)} {keyPath : List Bytes} {r : Response}
    (hjson : d.membershipProof.fromJson proofBytes = .ok proof)
    (hroot : trailingRoot proof.payloadBytes = some (stateRoot d.sha256 S))
    (hsib : parseSiblings proof.siblings = some siblings)
    (hcf : CollisionFree d.sha256 (membershipInputs d.sha256 S key value proof.leafIndex siblings))
    (hpath : keyPath.flatten = key)
    (hok : verifyMembership d s height proofBytes keyPath value = .ok (s', r)) :
    ∃ e ∈ scanEntries S, entryBytes e = key ++ value := by
  obtain ⟨-, consensus, proof', root, siblings', -, hjson', -, hroot', hsib', hwalk⟩ :=
    verifyMembership_ok_iff.mp hok
  obtain rfl : proof = proof' := Except.ok.inj (hjson.symm.trans hjson')
  obtain rfl : siblings = siblings' := Option.some.inj (hsib.symm.trans hsib')
  obtain rfl : stateRoot d.sha256 S = root := Option.some.inj (hroot.symm.trans hroot')
  rw [hpath, stateRoot, map_leafHash] at hwalk
  exact List.mem_map.mp (computeRoot_sound d.sha256 hcf hwalk)

/-- For a committed string, at every split, the node's own path is accepted. -/
theorem accepted_of_mem_entryBytes {S : Store} {key payload : Bytes} {consensus : ConsensusState}
    (hload : mayLoadConsensusState d.consensusState s height = .ok (some consensus))
    (hdigest : consensus.payloadDigestHex = hexEncode (d.sha256 payload).bytes)
    (hroot : trailingRoot payload = some (stateRoot d.sha256 S)) {i : Nat}
    (hi : ((scanEntries S).map entryBytes)[i]? = some (key ++ value))
    (hjson : d.membershipProof.fromJson proofBytes = .ok ⟨payload, i,
      (merklePath d.sha256 ((scanEntries S).map fun e => leafHash d.sha256 e.1 e.2) i).map
        (Option.map Digest.bytes)⟩) :
    verifyMembership d s height proofBytes [key] value = .ok (s, .empty) := by
  refine verifyMembership_ok_iff.mpr ⟨⟨rfl, rfl⟩, consensus, _, stateRoot d.sha256 S, _, hload,
    hjson, hdigest.symm, hroot, parseSiblings_bytes _, ?_⟩
  have hkey : [key].flatten = key := by simp
  rw [hkey, stateRoot]
  refine computeRoot_merklePath d.sha256 ?_
  rw [map_leafHash, List.getElem?_map, hi]
  rfl

/-- **Soundness, exactly.** The contract is sound for `key ↦ value` unless some
committed entry with another boundary has the string `key ++ value`: then the
node's own path for that entry is a proof of `key ↦ value`. -/
theorem verifyMembership_sound_iff (d : Deps) (S s : Store) {height : Height} {payload : Bytes}
    {consensus : ConsensusState}
    (hload : mayLoadConsensusState d.consensusState s height = .ok (some consensus))
    (hdigest : consensus.payloadDigestHex = hexEncode (d.sha256 payload).bytes)
    (hroot : trailingRoot payload = some (stateRoot d.sha256 S))
    (hcf : CollisionFree d.sha256 (rootInputs d.sha256 ((scanEntries S).map entryBytes)))
    (hjson : ∀ i < (scanEntries S).length, ∃ proofBytes,
      d.membershipProof.fromJson proofBytes = .ok ⟨payload, i,
        (merklePath d.sha256 ((scanEntries S).map fun e => leafHash d.sha256 e.1 e.2) i).map
          (Option.map Digest.bytes)⟩)
    (key value : Bytes) :
    MembershipSound d S s height key value ↔
      (S[key]? = some value ∨ ∀ e ∈ scanEntries S, entryBytes e ≠ key ++ value) := by
  constructor
  · intro hsound
    by_contra hno
    obtain ⟨hne, hex⟩ := not_or.mp hno
    simp only [not_forall, not_not] at hex
    obtain ⟨e, he, hsplit⟩ := hex
    obtain ⟨i, hlt, hi⟩ := List.getElem_of_mem he
    have hx : ((scanEntries S).map entryBytes)[i]? = some (key ++ value) := by
      rw [List.getElem?_map, List.getElem?_eq_getElem hlt, hi, Option.map_some, hsplit]
    obtain ⟨proofBytes, hbytes⟩ := hjson i hlt
    -- the honest path hashes nothing the root does not hash
    have hin := merklePath_inputs d.sha256 hx
    rw [← map_leafHash] at hin
    have hcf' : CollisionFree d.sha256 (membershipInputs d.sha256 S key value i
        (merklePath d.sha256 ((scanEntries S).map fun e => leafHash d.sha256 e.1 e.2) i)) := by
      refine hcf.mono fun y hy => ?_
      rw [membershipInputs, ← List.cons_append, List.mem_append] at hy
      rcases hy with hy | hy
      · exact hin hy
      · exact hy
    refine hne (hsound proofBytes _ _ [key] 0 0 s .empty hbytes hroot (parseSiblings_bytes _) hcf'
      (by simp) ?_)
    exact accepted_of_mem_entryBytes hload hdigest hroot hx hbytes
  · rintro hcase proofBytes proof siblings keyPath delayTime delayBlock s' r hbytes hpay hsib hcf'
      hpath hok
    rcases hcase with hmem | hnone
    · exact hmem
    · obtain ⟨e, he, hsplit⟩ := mem_entryBytes_of_accepted hbytes hpay hsib hcf' hpath hok
      exact absurd hsplit (hnone e he)

theorem verifyMembership_sound_iff_abState :
    MembershipSound (membershipDeps abState) abState (membershipStore abState) ⟨0, 5⟩ [0x61]
        [0x62, 0x63] ↔
      (abState[([0x61] : Bytes)]? = some [0x62, 0x63] ∨
        ∀ e ∈ scanEntries abState, entryBytes e ≠ [0x61] ++ [0x62, 0x63]) :=
  verifyMembership_sound_iff (membershipDeps abState) abState (membershipStore abState)
    (mayLoad_membershipStore abState (by decide +kernel)) rfl (trailingRoot_toBytes _)
    (by decide +kernel)
    (fun i hi => by
      obtain rfl : i = 0 := Nat.lt_one_iff.mp hi
      exact ⟨membershipProofJson ⟨(payloadOver abState).toBytes, 0, []⟩, by decide +kernel⟩)
    _ _

/-- With `"ab" ↦ "c"` committed, the contract accepts a proof of `"a" ↦ "bc"`. -/
theorem verifyMembership_accepts_resplit :
    CollisionFree sha256 (membershipInputs sha256 abState [0x61] [0x62, 0x63] 0 []) ∧
      trailingRoot (payloadOver abState).toBytes = some (stateRoot sha256 abState) ∧
      (sudoEntry (membershipDeps abState) (membershipStore abState) (.verifyMembership ⟨0, 5⟩ 0 0
        (membershipProofJson ⟨(payloadOver abState).toBytes, 0, []⟩) [[0x61]] [0x62, 0x63])).isOk =
          true ∧
      abState[([0x61] : Bytes)]? = none := by
  refine ⟨?_, trailingRoot_toBytes _, ?_, ?_⟩
  · decide +kernel
  · decide +kernel
  · decide +kernel

end Contract

end LayerSdk
