import LayerSdk.Ibc
import LayerSdk.StorageLogic

/-!
# Where a program writes

`Only P p`: the program `p` calls operations in `P` and no others, whatever the
meter and the answers. `WritesAt K` are the operations that change nothing but
keys in `K`.

A program in a namespace writes behind its prefix, a contract behind its own in
the wasm namespace. So a set of keys with these prefixes in it (`Within`) has
all writes of the modules in it, and what the keys outside of it hold is not
changed (`Only.keeps`).
-/

namespace LayerSdk

open EffectProg Comp

/-- The keys behind the prefix of a namespace are in `K`. -/
class Within (K : Bytes → Prop) (ns : Bytes) : Prop where
  key : ∀ key, K (lengthPrefixed ns ++ key)

/-- A program calls operations in `P` only, whatever the meter and the answers. The
instances follow the ways to build a program, so that for most functions the
search for an instance is the proof. -/
class Only {ε α : Type} (P : StorageOp → Prop) (p : StorageM ε α) : Prop where
  yields : ∀ m, Yields P (fun _ => True) (p.toProg m)

/-! ## Programs -/

namespace Only

variable {ε α β : Type} {P : StorageOp → Prop} {p q : StorageM ε α}

theorem bind {f : α → StorageM ε β} (hp : Only P p) (hf : ∀ a, Only P (f a)) :
    Only P (p >>= f) := by
  refine ⟨fun m => (hp.yields m).bind fun x _ => ?_⟩
  obtain ⟨_ | a, m'⟩ := x
  · trivial
  · exact (hf a).yields m'

/-- A wrapper that turns operations in `P` into operations in `P'`. -/
theorem under {P' : StorageOp → Prop} {w : Wrapper storageSig storageSig Unit} (hp : Only P p)
    (hw : ∀ op, P op → Yields P' (fun _ => True) (w op ())) : Only P' (Comp.under w p) :=
  ⟨fun m => (Yields.through (I := fun _ => True) (fun op _ hop _ => hw op hop)
    (hp.yields m) trivial).map fun _ _ => trivial⟩

theorem any (p : StorageM ε α) : Only (fun _ => True) p := ⟨fun _ => Yields.any _⟩

end Only

section Programs

variable {ε α β : Type} {P : StorageOp → Prop} {p q : StorageM ε α}

instance only_pure (a : α) : Only P (pure a : StorageM ε α) := ⟨fun _ => trivial⟩

instance only_throw (e : ε) : Only P (throw e : StorageM ε α) := ⟨fun _ => trivial⟩

instance only_panic : Only P (Comp.panic : StorageM ε α) := ⟨fun _ => trivial⟩

instance only_bind (f : α → StorageM ε β) [hp : Only P p] [hf : ∀ a, Only P (f a)] :
    Only P (p >>= f) := hp.bind hf

instance only_map (f : α → β) [Only P p] : Only P (f <$> p) := by
  rw [← bind_pure_comp]
  infer_instance

instance only_ite (b : Prop) [Decidable b] [hp : Only P p] [hq : Only P q] :
    Only P (if b then p else q) := by
  split
  · exact hp
  · exact hq

instance only_ofExcept (x : Except ε α) : Only P (Comp.ofExcept x : StorageM ε α) := by
  cases x with
  | ok a => exact only_pure a
  | error e => exact only_throw e

instance only_attempt [hp : Only P p] : Only P (Comp.attempt p) :=
  ⟨fun m => (hp.yields m).bind fun _ _ => trivial⟩

instance only_withMeter (sub : GasMeter) [hp : Only P p] : Only P (Comp.withMeter sub p) :=
  ⟨fun _ => (hp.yields sub).bind fun _ _ => trivial⟩

end Programs

/-! ## Storage -/

section Storage

variable {ε α β : Type} [FromGas ε] {P : StorageOp → Prop} {K : Bytes → Prop} {p : StorageM ε α}

omit [FromGas ε] in
theorem yields_map_op (op : StorageOp) (hop : P op)
    {f : StorageOp.Res op → Except ε α × GasMeter} :
    Yields P (fun _ => True) (f <$> perform (S := storageSig) op) :=
  (yields_op op hop).map fun _ _ => trivial

instance only_get (key : Bytes) : Only (WritesAt K) (Storage.get key : StorageM ε (Option Bytes)) :=
  ⟨fun m => yields_map_op (.get m key) trivial⟩

theorem only_set {key : Bytes} (hkey : K key) (value : Bytes) :
    Only (WritesAt K) (Storage.set key value : StorageM ε Unit) :=
  ⟨fun m => yields_map_op (.set m key value) hkey⟩

theorem only_remove {key : Bytes} (hkey : K key) :
    Only (WritesAt K) (Storage.remove key : StorageM ε Unit) :=
  ⟨fun m => yields_map_op (.remove m key) hkey⟩

instance only_charge (cost : Nat) : Only P (charge cost : StorageM ε Unit) :=
  ⟨fun _ => trivial⟩

omit [FromGas ε] in
instance only_meter : Only P (meter : StorageM ε GasMeter) := ⟨fun _ => trivial⟩

omit [FromGas ε] in
instance only_liftStd [FromStd ε] (x : Except StdError α) :
    Only P (liftStd x : StorageM ε α) := only_ofExcept _

instance only_saveItem [FromStd ε] (i : Item α) (x : α)
    [∀ b, Only P (Storage.set i.key b : StorageM ε Unit)] : Only P (i.save x : StorageM ε Unit) := by
  rw [Item.save]
  infer_instance

theorem only_save [FromStd ε] {i : Item α} (hkey : K i.key) (x : α) :
    Only (WritesAt K) (i.save x : StorageM ε Unit) :=
  have := only_set (ε := ε) hkey
  inferInstance

instance only_mayLoad [FromStd ε] (i : Item α) [Only P (Storage.get i.key : StorageM ε _)] :
    Only P (i.mayLoad : StorageM ε (Option α)) := by
  have (value : Option Bytes) : Only P (mayDeserialize i.codec value : StorageM ε (Option α)) := by
    cases value with
    | none => exact only_pure none
    | some b => exact only_map _
  rw [Item.mayLoad]
  infer_instance

instance only_load [FromStd ε] (i : Item α) : Only (WritesAt K) (i.load : StorageM ε α) := by
  rw [Item.load]
  refine Only.bind inferInstance fun value => ?_
  cases value with
  | none => exact only_throw _
  | some b => exact only_liftStd _

/-! ## Wrappers -/

omit [FromGas ε] in
/-- The meter of the application asks for nothing else, on another meter. -/
theorem Only.appMeter (hset : ∀ {m m' key value}, P (.set m key value) → P (.set m' key value))
    (hremove : ∀ {m m' key}, P (.remove m key) → P (.remove m' key)) (hp : Only P p) :
    Only P (Comp.under appMeter p) := by
  refine Only.under hp fun op hop => ?_
  cases op with
  | get m key => exact (yields_op (.get m key) hop).bind fun _ _ => trivial
  | range m start stop order =>
    exact (yields_op (.range m start stop order) hop).bind fun _ _ => trivial
  | set m key value =>
    rw [LayerSdk.appMeter]
    split
    · trivial
    · rename_i m₁ _
      exact (yields_op (.set m₁ key value) (hset hop)).bind fun _ _ => trivial
  | remove m key =>
    rw [LayerSdk.appMeter]
    split
    · trivial
    · rename_i m₁ _
      exact (yields_op (.remove m₁ key) (hremove hop)).bind fun _ _ => trivial

omit [FromGas ε] in
instance only_appMeter [hp : Only (WritesAt K) p] :
    Only (WritesAt K) (Comp.under appMeter p) := hp.appMeter id id

/-- Behind a prefix, every write is at a key with the prefix. -/
theorem yields_prefixedStorage {pre : Bytes} (hpre : ∀ key, K (pre ++ key)) (op : StorageOp) :
    Yields (WritesAt K) (fun _ => True) (prefixedStorage pre op ()) := by
  cases op with
  | get m key | range m start stop order => exact (Yields.perform trivial).bind fun _ _ => trivial
  | set m key value | remove m key => exact (Yields.perform (hpre key)).bind fun _ _ => trivial

omit [FromGas ε] in
/-- What is done in a module's namespace needs no look at what it is. -/
instance only_prefixed (ns : Bytes) [hns : Within K ns] : Only (WritesAt K) (prefixed ns p) := by
  rw [prefixed]
  split
  · rename_i pre hpre
    obtain ⟨rfl, -⟩ := toLengthPrefixed_eq hpre
    exact Only.under (Only.any p) fun op _ => yields_prefixedStorage hns.key op
  · exact only_panic

omit [FromGas ε] in
/-- What only reads, only reads in a namespace. -/
theorem only_prefixed_of_reads (ns : Bytes) (hp : Only (WritesAt fun _ => False) p) :
    Only (WritesAt K) (prefixed ns p) := by
  rw [prefixed]
  split
  · refine Only.under hp fun op hop => ?_
    cases op with
    | get m key | range m start stop order => exact (Yields.perform trivial).bind fun _ _ => trivial
    | set m key value | remove m key => exact hop.elim
  · exact only_panic

theorem only_applyOps : ∀ {ops : List (Bytes × Delta)}, (∀ x ∈ ops, K x.1) →
    Only (WritesAt K) (applyOps ops : StorageM ε Unit)
  | [], _ => only_pure ()
  | (key, d) :: rest, h => by
    have hkey : K key := h (key, d) (List.mem_cons_self)
    have hop : Only (WritesAt K) (applyOp key d : StorageM ε Unit) := by
      cases d with
      | set value => exact only_set hkey value
      | delete => exact only_remove hkey
    have hrest : Only (WritesAt K) (applyOps rest : StorageM ε Unit) :=
      only_applyOps fun x hx => h x (List.mem_cons_of_mem _ hx)
    exact only_bind _

theorem OverlayAt.commitOverlay {ov : Overlay} (hov : OverlayAt K ov) :
    Only (WritesAt K) (commitOverlay ov : StorageM ε Unit) := by
  exact only_applyOps fun x hx => hov x.1 (OrdMap.mem_of_mem_toList hx)

instance only_atomic [hp : Only (WritesAt K) p] : Only (WritesAt K) (atomic p) := by
  refine ⟨fun m => ?_⟩
  refine Yields.bind (Q := fun x : Except ε (Overlay × Except ε α) × GasMeter =>
    ∀ y, x.1 = .ok y → OverlayAt K y.1) ?_ fun x hx => ?_
  · exact (Yields.through (yields_cacheTx _) (hp.yields m) OverlayAt.empty).bind
      fun y hy z hz => Except.ok.inj hz ▸ hy.1
  · obtain ⟨_ | ⟨ov, _ | a⟩, m'⟩ := x
    · trivial
    · trivial
    · have hcommit : Only (WritesAt K) (commitOverlay ov : StorageM ε Unit) :=
        (hx _ rfl).commitOverlay
      have hrest : Only (WritesAt K) (do commitOverlay ov; pure a : StorageM ε α) := inferInstance
      exact hrest.yields m'

end Storage

/-! ## Contracts -/

variable {K : Bytes → Prop}

/-- A contract's writes are in its namespace of the overlay, and its queries
only read. -/
theorem yields_contractOp {pre : Bytes} (hpre : ∀ key, K (pre ++ key)) {ov : Overlay}
    (hov : OverlayAt K ov) {α : Type} (p : Prog storageSig (GasMeter × α)) :
    Yields (WritesAt K) (fun y => OverlayAt K y.1) (contractOp pre ov p) := by
  have hin : Yields (WritesAt K) (fun _ => True) (through (prefixedStorage pre) p ()) :=
    (Yields.through (I := fun _ => True) (fun op _ _ _ => yields_prefixedStorage hpre op)
      (Yields.any p) trivial).mono fun _ _ => trivial
  exact (Yields.through (yields_cacheTx _) hin hov).bind fun _ hy => hy.1

theorem yields_asRef {α : Type} (p : Prog readSig α) :
    Yields (WritesAt K) (fun _ => True) (through asRef p ()) := by
  refine (Yields.through (I := fun _ => True) (fun op _ _ _ => ?_) (Yields.any p) trivial).mono
    fun _ _ => trivial
  cases op with
  | get m key => exact (yields_op (.get m key) trivial).bind fun _ _ => trivial
  | range m start stop order =>
    exact (yields_op (.range m start stop order) trivial).bind fun _ _ => trivial

theorem yields_vmBackend {pre : Bytes} (hpre : ∀ key, K (pre ++ key))
    (doQueryRaw : Bytes → QueryM Bytes) (op : VmOp) (st : VmStore) (hst : OverlayAt K st.overlay) :
    Yields (WritesAt K) (fun y => OverlayAt K y.1.overlay) (vmBackend pre doQueryRaw op st) := by
  cases op with
  | get key => exact (yields_contractOp hpre hst _).bind fun _ hy => hy
  | scan start stop order => exact hst
  | next id =>
    rw [vmBackend]
    split
    · exact hst
    · split
      · exact hst
      · refine (yields_contractOp hpre hst _).bind fun y hy => ?_
        obtain ⟨ov, m, _ | ptr⟩ := y
        · exact hy
        · dsimp only
          split <;> exact hy
  | set key value | remove key => exact (yields_contractOp hpre hst _).bind fun _ hy => hy
  | query request gasLimit =>
    rw [vmBackend]
    split
    · refine (yields_asRef _).bind fun y _ => ?_
      dsimp only
      split <;> exact hst
    · exact (yields_asRef _).bind fun _ _ => hst

section Cache

variable {K : Bytes → Prop} (c : VmCache)

instance only_ensureCached (checksum : Bytes) : Only (WritesAt K) (c.ensureCached checksum) := by
  have : Only (WritesAt K) (prefixed namespaceWasm
      (c.codeBytes.at [] checksum Item.load : StorageM PulsarError Bytes)) := by
    refine only_prefixed_of_reads _ ?_
    rw [PlusMap.at]
    split <;> infer_instance
  rw [VmCache.ensureCached]
  refine Only.bind inferInstance fun x => ?_
  obtain ⟨blob, -⟩ := x
  dsimp only
  split
  · infer_instance
  · infer_instance
  · split
    · infer_instance
    · split <;> infer_instance

theorem yields_runInstance {pre : Bytes} (hpre : ∀ key, K (pre ++ key)) (checksum : Bytes)
    (env : CwEnv)
    (entry : Entry) (m : GasMeter) :
    Yields (WritesAt K) (fun x => ∀ y, x.1 = .ok y → OverlayAt K y.2.2)
      ((c.runInstance checksum env entry pre).toProg m) := by
  refine (Yields.through (I := fun st : VmStore => OverlayAt K st.overlay)
    (fun op st _ hst => yields_vmBackend hpre _ op st hst) (Yields.any _) OverlayAt.empty).bind
    fun y hy z hz => ?_
  cases hz
  exact hy.1

/-- A call writes behind the contract's own prefix in the wasm namespace. -/
theorem only_callEntry_of (checksum : Bytes) (env : CwEnv) {contract : AccountId} (entry : Entry)
    (hown : ∀ key,
      K (lengthPrefixed namespaceWasm ++ (lengthPrefixed contract.bytes ++ key))) :
    Only (WritesAt K) (c.callEntry checksum env contract entry) := by
  rw [VmCache.callEntry]
  refine Only.bind inferInstance fun cached => ?_
  split
  · infer_instance
  · split
    · infer_instance
    · rename_i pre hpre
      have hkey : ∀ key, K (pre ++ key) := by
        intro key
        simpa [toLengthPrefixedNested_eq hpre] using hown key
      split
      · infer_instance
      · refine ⟨fun m => ?_⟩
        refine (yields_runInstance c hkey checksum env entry m).bind
          fun x hx => ?_
        obtain ⟨_ | ⟨result, gasUsed, ops⟩, m'⟩ := x
        · trivial
        · have hcommit : Only (WritesAt K) (commitOverlay ops : StorageM PulsarError Unit) :=
            (hx _ rfl).commitOverlay
          obtain _ | _ | r := result
          · trivial
          · trivial
          · refine (Only.bind (p := Comp.attempt (commitOverlay ops)) inferInstance
              fun res => ?_).yields m'
            cases res <;> infer_instance

instance only_callEntry [hwasm : Within K namespaceWasm] (checksum : Bytes) (env : CwEnv)
    (contract : AccountId) (entry : Entry) :
    Only (WritesAt K) (c.callEntry checksum env contract entry) :=
  only_callEntry_of c checksum env entry fun _ => hwasm.key _

end Cache

/-! ## Keepers -/

section Keepers

variable {K : Bytes → Prop} (E : Externals)

instance only_parseAccount (encoded) : Only (WritesAt K) (E.parseAccount encoded) := by
  rw [Externals.parseAccount]
  split <;> infer_instance

instance only_ensureEq {α : Type} [DecidableEq α] (a b : α) (e) : Only (WritesAt K) (ensureEq a b e) := by
  rw [ensureEq]
  infer_instance

namespace Bank

instance only_forValidCoins {body : Coin → StorageM PulsarError Unit}
    [∀ coin, Only (WritesAt K) (body coin)] :
    ∀ seen coins, Only (WritesAt K) (forValidCoins body seen coins)
  | _, [] => by
    rw [forValidCoins]
    infer_instance
  | seen, c :: rest => by
    have : ∀ seen, Only (WritesAt K) (forValidCoins body seen rest) := fun seen =>
      only_forValidCoins seen rest
    rw [forValidCoins]
    infer_instance

instance only_fromDenom (denom) : Only (WritesAt K) (fromDenom E denom) := by
  rw [fromDenom]
  split <;> infer_instance

end Bank

namespace Auth

section Checks

variable {P : StorageOp → Prop}

instance only_checkSequence (validateSig provided expected) :
    Only P (checkSequence validateSig provided expected) := by
  rw [checkSequence]
  infer_instance

instance only_checkPubKey (stored given) : Only P (checkPubKey stored given) := by
  cases given <;> rw [checkPubKey] <;> infer_instance

instance only_checkSignature (pubkey info validateSig) :
    Only P (checkSignature E pubkey info validateSig) := by
  rw [checkSignature]
  refine Only.bind inferInstance fun _ => ?_
  cases validateSig <;> dsimp only <;> split <;> infer_instance

instance only_claimInternalAccount (address) [Only P (accountAt E address Item.mayLoad)]
    [∀ account, Only P (accountAt E address fun i => i.save account)] :
    Only P (claimInternalAccount E address) := by
  rw [claimInternalAccount]
  refine Only.bind inferInstance fun account => ?_
  split <;> infer_instance

instance only_claimSequence (tx validateSig) [Only P (accountAt E tx.signer Item.mayLoad)]
    [∀ account, Only P (accountAt E tx.signer fun i => i.save account)] :
    Only P (claimSequence E tx validateSig) := by
  rw [claimSequence]
  refine Only.bind inferInstance fun account => ?_
  split
  · infer_instance
  · refine Only.bind inferInstance fun _ => ?_
    split <;> infer_instance
  · infer_instance
  · infer_instance

end Checks

instance only_accountAt {α : Type} [Within K namespaceAuth] (address)
    (f : Item Account → StorageM PulsarError α) :
    Only (WritesAt K) (accountAt E address f) := only_prefixed _

end Auth

namespace Wasm

section Records

variable [Within K namespaceWasm]

instance only_saveContract (address contract) :
    Only (WritesAt K) (saveContract E address contract) := only_prefixed _

instance only_saveContractByCode (address contract) :
    Only (WritesAt K) (saveContractByCode E address contract) := only_prefixed _

instance only_removeContractByCode (address contract) :
    Only (WritesAt K) (removeContractByCode E address contract) := only_prefixed _

instance only_saveCode (id info) : Only (WritesAt K) (saveCode E id info) :=
  only_prefixed _

instance only_nextId : Only (WritesAt K) (nextId E) := only_prefixed _

end Records

instance only_getChecksumNotExecuting (code) :
    Only (WritesAt K) (getChecksumNotExecuting code) := by
  rw [getChecksumNotExecuting]
  infer_instance

instance only_getChecksumToExecute (code) : Only (WritesAt K) (getChecksumToExecute code) := by
  rw [getChecksumToExecute]
  infer_instance

variable [Within K namespaceWasm]

instance only_loadContract (address) : Only (WritesAt K) (loadContract E address) :=
  only_prefixed _

instance only_loadCode (id) : Only (WritesAt K) (loadCode E id) := only_prefixed _

instance only_finishCall (checksum env contract entry) :
    Only (WritesAt K) (finishCall E ((cache E).callEntry checksum env contract entry)) := by
  rw [finishCall]
  infer_instance

end Wasm

instance Ibc.only_refundOf (packet) : Only (WritesAt K) (Ibc.refundOf E packet) := by
  rw [Ibc.refundOf]
  -- what follows a failure or a panic is still in the term
  split
  all_goals
    refine Only.bind inferInstance fun data => ?_
    dsimp only
    split
  all_goals
    refine Only.bind inferInstance fun refundTo => ?_
    split <;> infer_instance

end Keepers

/-! ## What stays -/

/-- What writes in `K` preserve, the program preserves. -/
theorem Only.keeps {ε α : Type} {K : Bytes → Prop} {p : StorageM ε α} (hp : Only (WritesAt K) p)
    {I : Store → Prop} (hI : ∀ st key v, K key → I st → I (OrdMap.update st key v)) :
    Keeps id I I p := by
  intro σ h view hs m m' s s' r hexec hP
  have hkept : I (view s') := by
    refine Yields.run (I := fun s => I (view s)) (fun op s s' r hop heq hs' => ?_) (hp.yields m)
      hexec hP
    cases op with
    | get m key =>
      obtain ⟨m₁, r₁⟩ := r
      rw [(hs.get heq).1]
      exact hs'
    | range m start stop order =>
      rw [hs.range heq]
      exact hs'
    | set m key value =>
      obtain ⟨m₁, r₁⟩ := r
      rcases hs.set heq with ⟨-, hview⟩ | ⟨-, hview⟩
      · rw [hview]
        exact hI _ _ _ hop hs'
      · rw [hview]
        exact hs'
    | remove m key =>
      obtain ⟨m₁, r₁⟩ := r
      rcases hs.remove heq with ⟨-, hview⟩ | ⟨-, hview⟩
      · rw [hview]
        exact hI _ _ _ hop hs'
      · rw [hview]
        exact hs'
  cases r with
  | ok a | error e => exact hkept

/-- A key of the contract's own storage. -/
def Owns (contract : AccountId) (key : Bytes) : Prop :=
  lengthPrefixed namespaceWasm ++ lengthPrefixed contract.bytes <+: key

theorem Owns.eq {contract : AccountId} {ns rest : Bytes} (hlen : ns.length ≤ 0xFFFF)
    (h : Owns contract (lengthPrefixed namespaceWasm ++ (lengthPrefixed ns ++ rest))) :
    contract.bytes = ns := by
  obtain ⟨own, h⟩ := h
  rw [List.append_assoc] at h
  exact (lengthPrefixed_append_inj contract.length_le hlen (List.append_cancel_left h)).1

/-- **Contracts are apart.** Whatever the code of a contract does, a call of it leaves all
entries that are not its own as they are. The entries of another contract, of a table of the
wasm keeper and of another module are not its own. -/
theorem callEntry_isolated (c : VmCache) (checksum : Bytes) (env : CwEnv) (contract : AccountId)
    (entry : Entry) (before : Store) :
    Keeps id (fun st => ∀ key, ¬ Owns contract key → st[key]? = before[key]?)
        (fun st => ∀ key, ¬ Owns contract key → st[key]? = before[key]?)
        (c.callEntry checksum env contract entry) ∧
      (∀ (other : AccountId) (rest : Bytes), other ≠ contract →
        ¬ Owns contract (lengthPrefixed namespaceWasm ++ (lengthPrefixed other.bytes ++ rest))) ∧
      (∀ table rest : Bytes, table.length < 20 →
        ¬ Owns contract (lengthPrefixed namespaceWasm ++ (lengthPrefixed table ++ rest))) ∧
      ∀ ns rest : Bytes, ns.length ≤ 0xFFFF → ns ≠ namespaceWasm →
        ¬ Owns contract (lengthPrefixed ns ++ rest) := by
  refine ⟨?_, fun other rest hne h => ?_, fun table rest hlen h => ?_, fun ns rest hlen hne h => ?_⟩
  · have honly : Only (WritesAt (Owns contract)) (c.callEntry checksum env contract entry) :=
      only_callEntry_of c checksum env entry fun key => by
        rw [← List.append_assoc]
        exact List.prefix_append _ key
    refine honly.keeps fun st key v hown hst k hk => ?_
    rw [OrdMap.getElem?_update, if_neg fun heq : key = k => hk (heq ▸ hown)]
    exact hst k hk
  · exact hne (AccountId.ext_bytes (h.eq other.length_le)).symm
  · have hvalid := contract.valid
    rw [h.eq (by omega)] at hvalid
    simp [validAddrLength] at hvalid
    omega
  · obtain ⟨own, h⟩ := h
    rw [List.append_assoc] at h
    exact hne (lengthPrefixed_append_inj (by decide) hlen h).1.symm

end LayerSdk
