import LayerSdk.Codec

/-!
# The root contract

Governance registers the contracts that are called at the start and at the end
of a block. The two lists are items that every function loads before it saves
them, and none creates: a load of an item that is not there is an error. So a
list is there after a run exactly if it was there before, and on the storage of
a new contract nothing can be registered or called back. `Registry` is what the
contract is for, `Registry.Held` ties a storage to it, and `callbacks_iff` says
from which storages the contract follows it.
-/

namespace LayerSdk.Root

/-! ## The contract -/

structure CallBackInfo where
  contract : String
deriving DecidableEq, Repr

/-- The items of the contract; the entries of `system` have no fields. -/
structure State where
  gov : Option String
  system : List String
  beginBlockers : Option (List CallBackInfo)
  endBlockers : Option (List CallBackInfo)
deriving DecidableEq, Repr

inductive ContractError where
  | std (e : StdError)
  | unauthorized
  | alreadyRegistred
deriving DecidableEq, Repr

inductive CustomRootMsg where
  | sudo (contractAddr : String) (msg : Bytes)
  | migrate (contractAddr : String) (newCodeId : Nat) (msg : Bytes)
  | updateAdmin (contractAddr admin : String)
  | clearAdmin (contractAddr : String)
  | pin (codeId : Nat)
  | unpin (codeId : Nat)
deriving DecidableEq, Repr

inductive GovMsg where
  | changeGov (govAddress : String)
  | promoteContract (contractAddress : String)
  | demoteContract (contractAddress : String)
  | setBeginBlocker (contractAddress : String)
  | setEndBlocker (contractAddress : String)
deriving DecidableEq, Repr

inductive ExecuteMsg where
  | gov (msg : GovMsg)
  | system (msg : CustomRootMsg)
deriving DecidableEq, Repr

inductive SudoMsg where
  | beginBlock
  | endBlock
deriving DecidableEq, Repr

/-- The messages of a response. -/
abbrev Response := List CustomRootMsg

abbrev RootM := Except ContractError

/-- The host's `addr_validate`. -/
abbrev AddrValidate := String → Except StdError String

def ofStd {α : Type} : Except StdError α → RootM α
  | .ok a => .ok a
  | .error e => .error (.std e)

/-- `Item::load`. -/
def loadItem {α : Type} (objectInfo : String) : Option α → RootM α
  | some a => .ok a
  | none => .error (.std (.notFound objectInfo))

def instantiate (addrValidate : AddrValidate) (s : State) (govAddress : String) :
    RootM (State × Response) := do
  let gov ← ofStd (addrValidate govAddress)
  .ok ({ s with gov := some gov }, [])

def govInfo : String := "type: cosmwasm_std::addresses::Addr; key: [67, 6F, 76]"

def State.blockers (s : State) : SudoMsg → Option (List CallBackInfo)
  | .beginBlock => s.beginBlockers
  | .endBlock => s.endBlockers

def State.setBlockers (s : State) (hook : SudoMsg) (blockers : List CallBackInfo) : State :=
  match hook with
  | .beginBlock => { s with beginBlockers := some blockers }
  | .endBlock => { s with endBlockers := some blockers }

def SudoMsg.objectInfo : SudoMsg → String
  | .beginBlock => "type: alloc::vec::Vec<layer_root::state::CallBackInfo>; " ++
      "key: [62, 65, 67, 69, 6E, 5F, 62, 6C, 6F, 63, 6B]"
  | .endBlock => "type: alloc::vec::Vec<layer_root::state::CallBackInfo>; " ++
      "key: [65, 6E, 64, 5F, 62, 6C, 6F, 63, 6B]"

def setBlocker (hook : SudoMsg) (addrValidate : AddrValidate) (s : State)
    (contractAddress : String) : RootM (State × Response) := do
  let contractAddr ← ofStd (addrValidate contractAddress)
  let blockers ← loadItem hook.objectInfo (s.blockers hook)
  if blockers.any fun b => b.contract = contractAddr then .error .alreadyRegistred
  else .ok (s.setBlockers hook (blockers ++ [⟨contractAddr⟩]), [])

def setBeginBlocker := setBlocker .beginBlock

def setEndBlocker := setBlocker .endBlock

def changeGov (addrValidate : AddrValidate) (s : State) (govAddress : String) :
    RootM (State × Response) := do
  let govAddr ← ofStd (addrValidate govAddress)
  .ok ({ s with gov := some govAddr }, [])

def promoteContract (addrValidate : AddrValidate) (s : State) (contractAddress : String) :
    RootM (State × Response) := do
  let contractAddr ← ofStd (addrValidate contractAddress)
  .ok ({ s with system := contractAddr :: s.system.erase contractAddr }, [])

def demoteContract (addrValidate : AddrValidate) (s : State) (contractAddress : String) :
    RootM (State × Response) := do
  let contractAddr ← ofStd (addrValidate contractAddress)
  .ok ({ s with system := s.system.erase contractAddr }, [])

def executeGov (addrValidate : AddrValidate) (s : State) : GovMsg → RootM (State × Response)
  | .changeGov govAddress => changeGov addrValidate s govAddress
  | .promoteContract contractAddress => promoteContract addrValidate s contractAddress
  | .demoteContract contractAddress => demoteContract addrValidate s contractAddress
  | .setBeginBlocker contractAddress => setBeginBlocker addrValidate s contractAddress
  | .setEndBlocker contractAddress => setEndBlocker addrValidate s contractAddress

/-- The addresses of a message of a system contract are checked, and it is passed on. -/
def executeSystem (addrValidate : AddrValidate) (msg : CustomRootMsg) : RootM Response := do
  match msg with
  | .pin _ => pure ()
  | .unpin _ => pure ()
  | .sudo contractAddr _ => let _ ← ofStd (addrValidate contractAddr)
  | .migrate contractAddr _ _ => let _ ← ofStd (addrValidate contractAddr)
  | .clearAdmin contractAddr => let _ ← ofStd (addrValidate contractAddr)
  | .updateAdmin contractAddr admin =>
    let _ ← ofStd (addrValidate contractAddr)
    let _ ← ofStd (addrValidate admin)
  .ok [msg]

def execute (addrValidate : AddrValidate) (s : State) (sender : String) :
    ExecuteMsg → RootM (State × Response)
  | .gov msg => do
    let gov ← loadItem govInfo s.gov
    if sender ≠ gov then .error .unauthorized
    else executeGov addrValidate s msg
  | .system msg =>
    if sender ∉ s.system then .error .unauthorized
    else do
      let resp ← executeSystem addrValidate msg
      .ok (s, resp)

def SudoMsg.json : SudoMsg → Bytes
  | .beginBlock => str "\x7b\"begin_block\":\x7b\x7d\x7d"
  | .endBlock => str "\x7b\"end_block\":\x7b\x7d\x7d"

def runCallbacks (msg : SudoMsg) (cbs : List CallBackInfo) : RootM Response :=
  .ok (cbs.map fun cb => .sudo cb.contract msg.json)

def sudoEntry (s : State) (msg : SudoMsg) : RootM Response := do
  let cbs ← loadItem msg.objectInfo (s.blockers msg)
  runCallbacks msg cbs

/-! ## Runs -/

structure Call where
  sender : String
  msg : ExecuteMsg
deriving DecidableEq, Repr

/-- A call that fails leaves the storage as it was. -/
def settle (s : State) : RootM (State × Response) → State
  | .ok (s', _) => s'
  | .error _ => s

def apply (addrValidate : AddrValidate) (s : State) (call : Call) : State :=
  settle s (execute addrValidate s call.sender call.msg)

def run (addrValidate : AddrValidate) (s : State) (calls : List Call) : State :=
  calls.foldl (apply addrValidate) s

/-- The message that registers a contract for `hook`. -/
def SudoMsg.register : SudoMsg → String → GovMsg
  | .beginBlock => .setBeginBlocker
  | .endBlock => .setEndBlocker

/-! ## What is registered -/

/-- Who governs, and the contracts called back at each hook, in their order. -/
structure Registry where
  gov : String
  registered : SudoMsg → List CallBackInfo

namespace Registry

def register (r : Registry) (hook : SudoMsg) (cb : CallBackInfo) : Registry :=
  { r with registered := fun k =>
      if k = hook ∧ cb ∉ r.registered k then r.registered k ++ [cb] else r.registered k }

def applyGov (addrValidate : AddrValidate) (r : Registry) : GovMsg → Registry
  | .changeGov a => (addrValidate a).toOption.elim r fun gov => { r with gov }
  | .setBeginBlocker a =>
    (addrValidate a).toOption.elim r fun c => r.register .beginBlock ⟨c⟩
  | .setEndBlocker a =>
    (addrValidate a).toOption.elim r fun c => r.register .endBlock ⟨c⟩
  | .promoteContract _ => r
  | .demoteContract _ => r

def apply (addrValidate : AddrValidate) (r : Registry) (call : Call) : Registry :=
  match call.msg with
  | .gov msg => if call.sender = r.gov then r.applyGov addrValidate msg else r
  | .system _ => r

def run (addrValidate : AddrValidate) (r : Registry) (calls : List Call) : Registry :=
  calls.foldl (apply addrValidate) r

/-- Both hooks call every registered contract once, in order, and a contract not
yet registered can be. -/
def Served (addrValidate : AddrValidate) (r : Registry) (s : State) : Prop :=
  ∀ hook, (r.registered hook).Nodup ∧
    sudoEntry s hook =
      .ok ((r.registered hook).map fun cb => .sudo cb.contract hook.json) ∧
    ∀ a c, addrValidate a = .ok c → (⟨c⟩ : CallBackInfo) ∉ r.registered hook →
      ∃ s', execute addrValidate s r.gov (.gov (hook.register a)) = .ok (s', [])

/-- The storage holds the registry. -/
structure Held (r : Registry) (s : State) : Prop where
  gov : s.gov = some r.gov
  blockers : ∀ hook, s.blockers hook = some (r.registered hook)
  nodup : ∀ hook, (r.registered hook).Nodup

end Registry

/-! ## The storage follows the registry -/

section Follow

variable {addrValidate : AddrValidate} {s : State} {r : Registry}

@[simp] theorem blockers_setBlockers (s : State) (hook k : SudoMsg) (l : List CallBackInfo) :
    (s.setBlockers hook l).blockers k = if k = hook then some l else s.blockers k := by
  cases hook <;> cases k <;> rfl

@[simp] theorem gov_setBlockers (s : State) (hook : SudoMsg) (l : List CallBackInfo) :
    (s.setBlockers hook l).gov = s.gov := by
  cases hook <;> rfl

theorem any_contract_eq (l : List CallBackInfo) (c : String) :
    (l.any fun b => b.contract = c) = true ↔ (⟨c⟩ : CallBackInfo) ∈ l := by
  simp only [List.any_eq_true, decide_eq_true_eq]
  constructor
  · rintro ⟨⟨_⟩, hmem, rfl⟩
    exact hmem
  · intro hmem
    exact ⟨_, hmem, rfl⟩

theorem Registry.Held.register (h : r.Held s) (hook : SudoMsg) {cb : CallBackInfo}
    (hnew : cb ∉ r.registered hook) :
    (r.register hook cb).Held (s.setBlockers hook (r.registered hook ++ [cb])) where
  gov := by rw [gov_setBlockers, h.gov]; rfl
  blockers k := by
    by_cases hk : k = hook
    · subst hk
      simp [Registry.register, hnew]
    · simp [Registry.register, hk, h.blockers k]
  nodup k := by
    unfold Registry.register
    by_cases hk : k = hook ∧ cb ∉ r.registered k
    · simp only [if_pos hk]
      refine List.nodup_append.2 ⟨h.nodup k, by simp, ?_⟩
      rintro b hb _ hcb rfl
      obtain rfl := List.mem_singleton.1 hcb
      exact hk.2 hb
    · simp only [if_neg hk]
      exact h.nodup k

theorem Registry.register_of_mem {hook : SudoMsg} {cb : CallBackInfo}
    (hmem : cb ∈ r.registered hook) : r.register hook cb = r := by
  have hsame : (fun k => if k = hook ∧ cb ∉ r.registered k then r.registered k ++ [cb]
      else r.registered k) = r.registered := by
    funext k
    refine if_neg ?_
    rintro ⟨rfl, hnew⟩
    exact hnew hmem
  simp only [Registry.register, hsame]

/-- What a registration does where the lists are there. -/
theorem setBlocker_eq (h : r.Held s) (hook : SudoMsg) {a c : String}
    (ha : addrValidate a = .ok c) :
    setBlocker hook addrValidate s a =
      if (⟨c⟩ : CallBackInfo) ∈ r.registered hook then .error .alreadyRegistred
      else .ok (s.setBlockers hook (r.registered hook ++ [⟨c⟩]), []) := by
  simp only [setBlocker, ha, ofStd, h.blockers hook, loadItem, bind, Except.bind,
    any_contract_eq]

theorem execute_gov (h : r.Held s) (msg : GovMsg) (sender : String) :
    execute addrValidate s sender (.gov msg) =
      if sender = r.gov then executeGov addrValidate s msg else .error .unauthorized := by
  by_cases hs : sender = r.gov <;>
    simp [execute, h.gov, loadItem, bind, Except.bind, hs]

theorem Registry.Held.setBlocker (h : r.Held s) (hook : SudoMsg) (a : String) :
    ((addrValidate a).toOption.elim r fun c => r.register hook ⟨c⟩).Held
      (settle s (setBlocker hook addrValidate s a)) := by
  cases ha : addrValidate a with
  | error e => simpa [Root.setBlocker, ha, ofStd, bind, Except.bind, settle, Except.toOption]
  | ok c =>
    rw [setBlocker_eq h hook ha]
    by_cases hmem : (⟨c⟩ : CallBackInfo) ∈ r.registered hook
    · simpa only [if_pos hmem, settle, Except.toOption, Option.elim_some,
        Registry.register_of_mem hmem]
    · simpa only [if_neg hmem, settle, Except.toOption, Option.elim_some]
        using h.register hook hmem

/-- The other messages of governance leave both lists as they are. -/
theorem Registry.Held.congr (h : r.Held s) {s' : State} {gov : String}
    (hgov : s'.gov = some gov) (hblockers : s'.blockers = s.blockers) :
    ({ r with gov } : Registry).Held s' where
  gov := hgov
  blockers hook := by rw [hblockers, h.blockers hook]
  nodup := h.nodup

theorem Registry.Held.applyGov (h : r.Held s) (msg : GovMsg) :
    (r.applyGov addrValidate msg).Held (settle s (executeGov addrValidate s msg)) := by
  cases msg with
  | setBeginBlocker a => exact h.setBlocker .beginBlock a
  | setEndBlocker a => exact h.setBlocker .endBlock a
  | changeGov a =>
    simp only [Registry.applyGov, executeGov, changeGov]
    cases addrValidate a with
    | error e => exact h
    | ok gov => exact h.congr rfl (funext fun hook => by cases hook <;> rfl)
  | promoteContract a =>
    simp only [Registry.applyGov, executeGov, promoteContract]
    cases addrValidate a with
    | error e => exact h
    | ok c => exact h.congr h.gov (funext fun hook => by cases hook <;> rfl)
  | demoteContract a =>
    simp only [Registry.applyGov, executeGov, demoteContract]
    cases addrValidate a with
    | error e => exact h
    | ok c => exact h.congr h.gov (funext fun hook => by cases hook <;> rfl)

theorem settle_system (s : State) (sender : String) (msg : CustomRootMsg) :
    settle s (execute addrValidate s sender (.system msg)) = s := by
  simp only [execute]
  by_cases hs : sender ∉ s.system
  · rw [if_pos hs]
    rfl
  · rw [if_neg hs]
    cases executeSystem addrValidate msg <;> rfl

theorem Registry.Held.apply (h : r.Held s) (call : Call) :
    (r.apply addrValidate call).Held (Root.apply addrValidate s call) := by
  obtain ⟨sender, msg⟩ := call
  unfold Registry.apply Root.apply
  cases msg with
  | system msg => simpa only [settle_system] using h
  | gov msg =>
    rw [execute_gov h]
    by_cases hs : sender = r.gov
    · simpa only [if_pos hs] using h.applyGov msg
    · simpa only [if_neg hs, settle] using h

theorem Registry.Held.run (h : r.Held s) (calls : List Call) :
    (r.run addrValidate calls).Held (Root.run addrValidate s calls) := by
  induction calls generalizing r s with
  | nil => exact h
  | cons call calls ih => exact ih (h.apply call)

theorem Registry.Held.served (h : r.Held s) : r.Served addrValidate s := by
  intro hook
  refine ⟨h.nodup hook, ?_, ?_⟩
  · simp [sudoEntry, h.blockers hook, loadItem, runCallbacks, bind, Except.bind]
  · intro a c ha hnew
    have hset : executeGov addrValidate s (hook.register a) =
        Root.setBlocker hook addrValidate s a := by
      cases hook <;> rfl
    exact ⟨_, by rw [execute_gov h, if_pos rfl, hset, setBlocker_eq h hook ha, if_neg hnew]⟩

theorem instantiate_eq_ok {s₁ : State} {resp : Response} {govAddress : String}
    (h : instantiate addrValidate s govAddress = .ok (s₁, resp)) :
    ∃ gov, addrValidate govAddress = .ok gov ∧ s₁ = { s with gov := some gov } := by
  unfold instantiate at h
  cases ha : addrValidate govAddress with
  | error e => simp [ha, ofStd, bind, Except.bind] at h
  | ok gov =>
    refine ⟨gov, rfl, ?_⟩
    simp only [ha, ofStd, bind, Except.bind, Except.ok.injEq, Prod.mk.injEq] at h
    exact h.1.symm

end Follow

/-! ## The callbacks -/

/-- What is registered when the contract is instantiated over `s`. -/
def registryOf (s : State) (gov : String) : Registry where
  gov := gov
  registered hook := (s.blockers hook).getD []

/-- The contract keeps its callbacks over every run exactly if the storage it was
instantiated on holds both lists, neither with a contract twice. -/
theorem callbacks_iff (addrValidate : AddrValidate) (s s₁ : State) (govAddress gov : String)
    (resp : Response) (hgov : addrValidate govAddress = .ok gov)
    (h : instantiate addrValidate s govAddress = .ok (s₁, resp)) :
    (∀ calls, ((registryOf s gov).run addrValidate calls).Served addrValidate
        (run addrValidate s₁ calls)) ↔
      ∀ hook, ∃ blockers, s.blockers hook = some blockers ∧ blockers.Nodup := by
  obtain ⟨gov', hgov', rfl⟩ := instantiate_eq_ok h
  obtain rfl : gov = gov' := Except.ok.inj (hgov.symm.trans hgov')
  have hsame : ({ s with gov := some gov } : State).blockers = s.blockers :=
    funext fun hook => by cases hook <;> rfl
  constructor
  · intro hserved hook
    -- the run without calls: a hook that is answered has its list
    obtain ⟨hnodup, hsudo, -⟩ := hserved [] hook
    cases hb : s.blockers hook with
    | none =>
      have hb' : ({ s with gov := some gov } : State).blockers hook = none := by
        rw [hsame, hb]
      simp [run, sudoEntry, hb', loadItem, bind, Except.bind] at hsudo
    | some blockers =>
      refine ⟨blockers, rfl, ?_⟩
      simpa [Registry.run, registryOf, hb] using hnodup
  · intro hlists calls
    have hheld : (registryOf s gov).Held { s with gov := some gov } := ⟨rfl, ?_, ?_⟩
    · exact (hheld.run calls).served
    · intro hook
      obtain ⟨blockers, hb, -⟩ := hlists hook
      simp only [hsame, registryOf, hb, Option.getD_some]
    · intro hook
      obtain ⟨blockers, hb, hnodup⟩ := hlists hook
      simpa only [registryOf, hb, Option.getD_some] using hnodup

/-- The storage that holds both lists, without entries. -/
def emptyLists : State := ⟨none, [], some [], some []⟩

/-- The storage of a new contract. -/
def newStorage : State := ⟨none, [], none, none⟩

theorem callbacks_iff_emptyLists : ∃ s, instantiate .ok emptyLists "gov" = .ok (s, []) ∧
    ∀ calls, ((registryOf emptyLists "gov").run .ok calls).Served .ok (run .ok s calls) :=
  ⟨_, rfl, (callbacks_iff .ok emptyLists _ "gov" "gov" [] rfl rfl).2 fun hook =>
    ⟨[], by cases hook <;> rfl, List.nodup_nil⟩⟩

/-- On a new contract both hooks fail, and so does each registration by governance. -/
theorem callbacks_lost : ∃ s,
    instantiate .ok newStorage "gov" = .ok (s, []) ∧
    ∀ hook : SudoMsg,
      sudoEntry s hook = .error (.std (.notFound hook.objectInfo)) ∧
      execute .ok s "gov" (.gov (hook.register "oracle")) =
        .error (.std (.notFound hook.objectInfo)) := by
  refine ⟨_, rfl, ?_⟩
  intro hook
  cases hook <;> exact ⟨rfl, rfl⟩

end LayerSdk.Root
