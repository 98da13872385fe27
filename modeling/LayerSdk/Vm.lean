import LayerSdk.Messages

/-!
# Contracts

A contract is a program over the interface the virtual machine offers it:
its own storage, iterators over it, and queries. The machine itself (the
`cosmwasm_vm` crate) is a parameter, so a contract is any such program; what
is modelled is how the node answers it (`vmBackend`) and what it does with
the outcome (`callEntry`).

A call works on a `WeakSubTx` over the node's storage, in the namespace of
the contract. The overlay is written to the node's storage when the contract
returns `Ok`, and dropped otherwise.
-/

namespace LayerSdk

open EffectProg

/-! ## The interface -/

inductive BackendError where
  | outOfGas
  | iteratorDoesNotExist (iteratorId : Nat)
  | userErr (msg : String)
deriving DecidableEq, Repr

inductive VmError where
  | gasDepletion
  | backendErr (e : BackendError)
  | other (msg : String)
deriving DecidableEq, Repr

/-- `From<BackendError>`. -/
def VmError.ofBackend : BackendError → VmError
  | .outOfGas => .gasDepletion
  | e => .backendErr e

inductive VmOp where
  | get (key : Bytes)
  | scan (start stop : Option Bytes) (order : Order)
  | next (iteratorId : Nat)
  | set (key value : Bytes)
  | remove (key : Bytes)
  | query (request : Bytes) (gasLimit : Nat)

/-- The result and the gas it cost outside of the machine. -/
abbrev BackendResult (α : Type) := Except BackendError α × Nat

/-- `SystemResult<ContractResult<Binary>>`, with the texts of the errors. -/
abbrev QueryAnswer := Except String (Except String Bytes)

abbrev VmOp.Res : VmOp → Type
  | get .. => BackendResult (Option Bytes)
  | scan .. => BackendResult Nat
  | next .. => BackendResult (Option Record)
  | set .. => BackendResult Unit
  | remove .. => BackendResult Unit
  | query .. => BackendResult QueryAnswer

abbrev vmSig : Sig := ⟨VmOp, VmOp.Res⟩

/-- `cosmwasm_std::Env`. -/
structure CwEnv where
  block : BlockInfo
  contract : String
deriving DecidableEq, Repr

structure MessageInfo where
  sender : String
  funds : List Coin
deriving DecidableEq, Repr

/-- The entry points with their arguments. -/
inductive Entry where
  | callInstantiate (info : MessageInfo) (msg : Bytes)
  | callExecute (info : MessageInfo) (msg : Bytes)
  | callMigrate (msg : Bytes)
  | callSudo (msg : Bytes)
  | callReply (reply : Reply)
deriving DecidableEq

abbrev ContractResult := Except VmError (Except String CwResponse)

/-- The virtual machine with its module cache: `call` runs an entry point of the
code with a checksum under a gas limit and reports the gas used internally. -/
structure CwVm where
  storeCode : Bytes → Except VmError Bytes
  analyze : Bytes → Except VmError (List String)
  loadWasm : Bytes → Except VmError Bytes
  pin : Bytes → Except VmError Unit
  unpin : Bytes → Except VmError Unit
  getInstance : Bytes → Except VmError Unit
  call : Bytes → CwEnv → Entry → Nat → Prog vmSig (ContractResult × Nat)
  display : VmError → String

/-! ## Gas of the machine -/

def sdkToWasmerGasFactor : Nat := 150000

/-- The multiplication saturates. -/
def sdkGasToWasmer (gas : Nat) : Nat := min (gas * sdkToWasmerGasFactor) u64Max

def wasmerGasToSdk (gas : Nat) : Nat := gas / sdkToWasmerGasFactor

/-! ## Queries -/

inductive ReadOp where
  | get (m : GasMeter) (key : Bytes)
  | range (m : GasMeter) (start stop : Option Bytes) (order : Order)

abbrev ReadOp.Res : ReadOp → Type
  | get .. => GasMeter × GasResult (Option Bytes)
  | range .. => GasMeter × GasResult GasIter

/-- `dyn ReadonlyStorage`. -/
abbrev readSig : Sig := ⟨ReadOp, ReadOp.Res⟩

/-- `storage.as_ref()`. -/
def asRef : Wrapper readSig storageSig Unit
  | .get m key, () => do
    let r ← perform (S := storageSig) (.get m key)
    pure ((), r)
  | .range m start stop order, () => do
    let r ← perform (S := storageSig) (.range m start stop order)
    pure ((), r)

inductive VmQueryError where
  | backend (e : BackendError)
  | system (msg : String)
  | contract (msg : String)
deriving DecidableEq, Repr

/-- Code that takes `&dyn ReadonlyStorage` and answers a contract's query. -/
abbrev QueryM := Comp readSig GasMeter VmQueryError

def encodeError : Except VmQueryError Bytes → Except BackendError QueryAnswer
  | .ok x => .ok (.ok (.ok x))
  | .error (.backend e) => .error e
  | .error (.system e) => .ok (.error e)
  | .error (.contract e) => .ok (.ok (.error e))

/-! ## The backend -/

structure VmIter where
  start : Option Bytes
  stop : Option Bytes
  order : Order
  done : Bool
deriving DecidableEq

/-- The fields of `VmStore`, with the state of the `WeakSubTx` below it. The
iterators have the ids 1, 2, … in the order they were opened. -/
structure VmStore where
  overlay : Overlay
  iterators : List VmIter
  meter : GasMeter

def VmStore.iterator? (st : VmStore) : Nat → Option VmIter
  | 0 => none
  | id + 1 => st.iterators[id]?

def VmStore.setIterator (st : VmStore) (id : Nat) (it : VmIter) : VmStore :=
  { st with iterators := st.iterators.set (id - 1) it }

def outOfGas : GasError → BackendError
  | .outOfGas => .outOfGas

/-- One operation on the contract's namespace of the overlay. -/
def contractOp {α : Type} (pre : Bytes) (ov : Overlay) (p : Prog storageSig (GasMeter × α)) :
    Prog storageSig (Overlay × GasMeter × α) := do
  let (ov', (), x) ← through weakSubTx (through (prefixedStorage pre) p ()) ov
  pure (ov', x)

/-- Where an iterator goes on after a record: right after it, or up to it. -/
def VmIter.advance (it : VmIter) (key : Bytes) : VmIter :=
  match it.order with
  | .ascending => { it with start := some (key ++ [0]) }
  | .descending => { it with stop := some key }

def vmBackend (pre : Bytes) (doQueryRaw : Bytes → QueryM Bytes) :
    Wrapper vmSig storageSig VmStore
  | .get key, st => do
    let (ov, m, r) ← contractOp pre st.overlay (perform (S := storageSig) (.get st.meter key))
    pure ({ st with overlay := ov, meter := m }, r.mapError outOfGas, m.used - st.meter.used)
  | .scan start stop order, st =>
    pure ({ st with iterators := st.iterators ++ [⟨start, stop, order, false⟩] },
      .ok (st.iterators.length + 1), 0)
  | .next id, st =>
    match st.iterator? id with
    | none => pure (st, .error (.iteratorDoesNotExist id), 0)
    | some it =>
      if it.done then pure (st, .ok none, 0)
      else do
        let (ov, m, r) ← contractOp pre st.overlay
          (perform (S := storageSig) (.range st.meter it.start it.stop it.order))
        match r with
        | .error e =>
          pure ({ st with overlay := ov, meter := m }, .error (outOfGas e),
            m.used - st.meter.used)
        | .ok ptr =>
          -- every call opens a new range and takes its first record
          let (m', x) := ptr.next m
          let st' := { st with overlay := ov, meter := m' }
          let used := m'.used - st.meter.used
          match x with
          | .error e => pure (st', .error (outOfGas e), used)
          | .ok none => pure (st'.setIterator id { it with done := true }, .ok none, used)
          | .ok (some (record, _)) =>
            pure (st'.setIterator id (it.advance record.1), .ok (some record), used)
  | .set key value, st => do
    let (ov, m, r) ← contractOp pre st.overlay
      (perform (S := storageSig) (.set st.meter key value))
    pure ({ st with overlay := ov, meter := m }, r.mapError outOfGas, m.used - st.meter.used)
  | .remove key, st => do
    let (ov, m, r) ← contractOp pre st.overlay (perform (S := storageSig) (.remove st.meter key))
    pure ({ st with overlay := ov, meter := m }, r.mapError outOfGas, m.used - st.meter.used)
  | .query request gasLimit, st =>
    -- a query reads the node's storage, not the overlay
    let sdkGasLimit := wasmerGasToSdk gasLimit
    if sdkGasLimit < st.meter.remaining then do
      let ((), res, sub) ← through asRef ((doQueryRaw request).toProg (.new sdkGasLimit)) ()
      match st.meter.charge sub.used with
      | (m, .error e) =>
        pure ({ st with meter := m }, .error (outOfGas e), sdkGasToWasmer sub.used)
      | (m, .ok ()) => pure ({ st with meter := m }, encodeError res, sdkGasToWasmer sub.used)
    else do
      let ((), res, m) ← through asRef ((doQueryRaw request).toProg st.meter) ()
      pure ({ st with meter := m }, encodeError res, sdkGasToWasmer (m.used - st.meter.used))

/-! ## Calls -/

def namespaceWasm : Bytes := str "wasm"

/-- What a call needs beside its arguments: the machine, the table of code blobs
and what answers queries. -/
structure VmCache where
  vm : CwVm
  codeBytes : PlusMap Bytes
  doQueryRaw : BlockInfo → Bytes → QueryM Bytes

namespace VmCache

variable (c : VmCache)

/-- The blob must be in the state, whether or not this node has it cached. -/
def ensureCached (checksum : Bytes) : StorageM PulsarError (Except VmError Unit) := do
  let (blob, _) ← Comp.withMeter .infinite
    (prefixed namespaceWasm (c.codeBytes.at [] checksum Item.load : StorageM PulsarError Bytes))
  match blob with
  | .error (.std e) =>
    pure (.error (.ofBackend (.userErr ("wasm bytecode missing from state: " ++ e.display))))
  | .error _ =>
    pure (.error (.ofBackend
      (.userErr ("wasm bytecode missing from state: " ++ GasError.outOfGas.display))))
  | .ok blob =>
    match c.vm.loadWasm checksum with
    | .ok _ => pure (.ok ())
    | .error _ =>
      match c.vm.storeCode blob with
      | .error e => pure (.error e)
      | .ok derived =>
        if derived ≠ checksum then
          pure (.error (.ofBackend
            (.userErr "hydrated wasm checksum mismatch — refusing to execute")))
        else pure (.ok ())

/-- Run an entry point on the backend. The result comes with the gas it used in
the machine and the changes the contract made. -/
def runInstance (checksum : Bytes) (env : CwEnv) (entry : Entry) (pre : Bytes) :
    StorageM PulsarError (ContractResult × Nat × Overlay) :=
  Comp.ofProg fun m => do
    let (st, result, usedInternally) ← through (vmBackend pre (c.doQueryRaw env.block))
      (c.vm.call checksum env entry (sdkGasToWasmer m.remaining)) ⟨∅, [], m⟩
    pure (.ok (result, wasmerGasToSdk usedInternally, st.overlay), st.meter)

/-- The common body of `instantiate`, `execute`, `migrate`, `sudo` and `reply`. -/
def callEntry (checksum : Bytes) (env : CwEnv) (contract : AccountId) (entry : Entry) :
    StorageM PulsarError (ContractResult × Nat) := do
  match ← c.ensureCached checksum with
  | .error e => pure (.error e, 0)
  | .ok () =>
    match toLengthPrefixedNested [namespaceWasm, contract.bytes] with
    | none => Comp.panic
    | some pre =>
      match c.vm.getInstance checksum with
      | .error e => pure (.error e, 0)
      | .ok () => do
        let (result, gasUsed, ops) ← c.runInstance checksum env entry pre
        match result with
        | .ok (.ok _) =>
          match ← Comp.attempt (commitOverlay ops) with
          | .error _ => pure (.error (.ofBackend .outOfGas), gasUsed)
          | .ok () => pure (result, gasUsed)
        | _ => pure (result, gasUsed)

variable (checksum : Bytes) (env : CwEnv) (contract : AccountId)

def instantiate (info : MessageInfo) (msg : Bytes) : StorageM PulsarError (ContractResult × Nat) :=
  c.callEntry checksum env contract (.callInstantiate info msg)

def execute (info : MessageInfo) (msg : Bytes) : StorageM PulsarError (ContractResult × Nat) :=
  c.callEntry checksum env contract (.callExecute info msg)

def migrate (msg : Bytes) : StorageM PulsarError (ContractResult × Nat) :=
  c.callEntry checksum env contract (.callMigrate msg)

def sudoEntry (msg : Bytes) : StorageM PulsarError (ContractResult × Nat) :=
  c.callEntry checksum env contract (.callSudo msg)

def reply (r : Reply) : StorageM PulsarError (ContractResult × Nat) :=
  c.callEntry checksum env contract (.callReply r)

end VmCache

end LayerSdk
