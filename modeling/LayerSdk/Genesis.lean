import LayerSdk.GasPrice
import LayerSdk.Node

/-!
# Genesis and the built-in devnet accounts

A real network must not fund the devnet accounts, whose keys are public. The
check compares the texts of a genesis file with two built-in texts, but what
is funded is the account a text decodes to, and bech32 has more than one text
for an account. `initGenesis_spec` says whom a genesis funds and empowers,
`devnet_excluded_iff` which accepted files keep the devnet accounts out.
-/

namespace LayerSdk

open EffectProg Comp

/-! ## The genesis file -/

structure NodeConfig where
  genesisPath : String
  insecureDevnet : Bool
deriving DecidableEq, Repr

def devnetDeployerSeed : Bytes := str "junoclaw-deployer-v1"

def devnetGovAccount : String := "juno1pkptre7fdkl6gfrzlesjjvhxhlc3r4gmdyychx"

/-- What the node takes from outside to read its genesis: the files, with the text of
an error, and the address cosmrs derives from a key. -/
structure GenesisEnv where
  read : String → Except String Bytes
  accountId : Bytes → String → String
  codec : JsonCodec GenesisState

namespace GenesisEnv

variable (G : GenesisEnv)

def devnetDeployerAddress : String :=
  G.accountId (sha256 devnetDeployerSeed).bytes bech32Prefix

def defaultGenesis : GenesisState where
  bank := [⟨G.devnetDeployerAddress, [⟨"ujclaw", 1000000000000⟩]⟩]
  govAccount := devnetGovAccount

/-- The built-in texts. -/
def devnet : List String := [G.devnetDeployerAddress, devnetGovAccount]

def mapErr {α : Type} (message : String) : Except String α → Except String α :=
  Except.mapError (message ++ ·)

/-- Every address of a genesis file. -/
def addresses (genesis : GenesisState) : List String :=
  genesis.bank.map Bank.BankAccount.address ++ [genesis.govAccount]

def resolveGenesis (config : NodeConfig) : Except String GenesisState :=
  let path := String.ofList (trimChars config.genesisPath.toList)
  if path = "" then
    if !config.insecureDevnet then
      .error ("genesis_path is empty. Set it to the network's genesis file; " ++
        "the built-in genesis funds a key derived from a public constant " ++
        "(devnets may opt in with insecure_devnet = true)")
    else .ok G.defaultGenesis
  else do
    let data ← mapErr ("cannot read genesis file " ++ path ++ ": ") (G.read path)
    let genesis ← mapErr ("invalid genesis file " ++ path ++ ": ")
      ((G.codec.fromJson data).mapError StdError.display)
    if !config.insecureDevnet then
      match (addresses genesis).find? fun addr => G.devnet.any fun d => d = addr with
      | some addr =>
        .error ("genesis file " ++ path ++ " funds or empowers " ++ addr ++
          ", a built-in devnet address (the deployer key is SHA256 of a public string). " ++
          "Use the ceremony key (docs/GOVERNANCE_PLAN.md)")
      | none => .ok genesis
    else .ok genesis

end GenesisEnv

/-! ## Who holds what -/

section Holdings

variable (E : Externals)

/-- The account a text is an address of. -/
def addressOf (text : String) (account : AccountId) : Prop :=
  AccountId.parseString E.bech32 text = some (.ok account)

def balanceKey (account : AccountId) (denom : Bytes) : Bytes :=
  lengthPrefixed namespaceBank ++
    (lengthPrefixed (str "balances") ++ (lengthPrefixed account.bytes ++ denom))

def HoldsBalance (st : Store) (account : AccountId) : Prop :=
  ∃ denom b amount, st[balanceKey account denom]? = some b ∧
    E.codecs.uint128.fromJson b = .ok amount ∧ 0 < amount

def rootContractKey : Bytes :=
  lengthPrefixed namespaceWasm ++ (lengthPrefixed (str "contracts") ++ rootAccount.bytes)

/-- The account that governs the root contract. -/
def IsGov (st : Store) (account : AccountId) : Prop :=
  ∃ b contract, st[rootContractKey]? = some b ∧
    E.codecs.contractData.fromJson b = .ok contract ∧ contract.admin = some account

/-- Exactly the accounts in `S` hold something. -/
def Funded (S : AccountId → Prop) (st : Store) : Prop :=
  ∀ account, HoldsBalance E st account ↔ S account

variable {E}

theorem balanceKey_inj {a a' : AccountId} {denom denom' : Bytes}
    (h : balanceKey a denom = balanceKey a' denom') : a = a' ∧ denom = denom' := by
  obtain ⟨-, h⟩ := lengthPrefixed_append_inj (by decide) (by decide) h
  obtain ⟨-, h⟩ := lengthPrefixed_append_inj (by decide) (by decide) h
  obtain ⟨hbytes, hdenom⟩ := lengthPrefixed_append_inj a.length_le a'.length_le h
  exact ⟨AccountId.ext_bytes hbytes, hdenom⟩

theorem HoldsBalance.congr {st st' : Store} {account : AccountId}
    (hsame : ∀ denom, st'[balanceKey account denom]? = st[balanceKey account denom]?) :
    HoldsBalance E st' account ↔ HoldsBalance E st account := by
  simp only [HoldsBalance, hsame]

/-- A write outside the balances. -/
theorem Funded.update {S : AccountId → Prop} {st : Store} (h : Funded E S st) {key : Bytes}
    (hkey : ∀ account denom, key ≠ balanceKey account denom) (v : Option Bytes) :
    Funded E S (OrdMap.update st key v) := by
  intro account
  rw [← h account]
  refine HoldsBalance.congr fun denom => ?_
  rw [OrdMap.getElem?_update, if_neg (hkey account denom)]

/-- A positive balance is written. -/
theorem Funded.credit {S : AccountId → Prop} {st : Store} (h : Funded E S st)
    {account : AccountId} {denom b : Bytes} {amount : Nat}
    (hb : E.codecs.uint128.toJsonVec amount = .ok b) (hpos : 0 < amount) :
    Funded E (fun x => S x ∨ x = account)
      (OrdMap.update st (balanceKey account denom) (some b)) := by
  have hread := E.codecs.uint128.fromJson_toJsonVec hb
  intro x
  constructor
  · rintro ⟨denom', b', amount', hget, hjson, hpos'⟩
    rw [OrdMap.getElem?_update] at hget
    split at hget
    · rename_i heq
      exact .inr (balanceKey_inj heq).1.symm
    · exact .inl ((h x).1 ⟨denom', b', amount', hget, hjson, hpos'⟩)
  · rintro (hx | rfl)
    · obtain ⟨denom', b', amount', hget, hjson, hpos'⟩ := (h x).2 hx
      by_cases heq : balanceKey account denom = balanceKey x denom'
      · exact ⟨denom', b, amount, by rw [OrdMap.getElem?_update, if_pos heq], hread, hpos⟩
      · exact ⟨denom', b', amount', by rw [OrdMap.getElem?_update, if_neg heq, hget], hjson,
          hpos'⟩
    · exact ⟨denom, b, amount, by rw [OrdMap.getElem?_update, if_pos rfl], hread, hpos⟩

end Holdings

/-! ## The bank's part -/

section Bank

variable {E : Externals} {R : PulsarError → Store → Prop}

theorem Spec.parseAccount {place : Bytes → Bytes} {P : Store → Prop} {text : String}
    (hR : ∀ e st, P st → R e st) :
    Spec place P (E.parseAccount text) (fun a st => addressOf E text a ∧ P st) R := by
  rw [Externals.parseAccount]
  cases hparse : AccountId.parseString E.bech32 text with
  | none => exact .panic
  | some r =>
    refine .ofExcept (fun a st ha hP => ⟨?_, hP⟩) fun e st _ hP => hR e st hP
    cases r with
    | error e => cases ha
    | ok a' =>
      cases ha
      exact hparse

abbrev bankPlace (key : Bytes) : Bytes := lengthPrefixed namespaceBank ++ key

theorem supply_ne_balanceKey (rest : Bytes) (account : AccountId) (denom : Bytes) :
    bankPlace (lengthPrefixed (str "supply") ++ rest) ≠ balanceKey account denom := by
  intro h
  obtain ⟨-, h⟩ := lengthPrefixed_append_inj (by decide) (by decide) h
  obtain ⟨h, -⟩ := lengthPrefixed_append_inj (by decide) (by decide) h
  exact absurd h (by decide)

/-- One coin: the supply, and then the balance. -/
theorem spec_mintCoin (S : AccountId → Prop) (account : AccountId) {coin : Coin}
    (hpos : 0 < coin.amount) :
    Spec bankPlace (Funded E S) (do
        let _ ← Bank.supplyAt E coin.denom fun i => i.updateOption (Bank.add coin.amount)
        let _ ← Bank.balanceAt E account coin.denom fun i => i.updateOption (Bank.add coin.amount)
        pure ())
      (fun _ => Funded E fun x => S x ∨ x = account) fun _ _ => True := by
  have hadd (P : Store → Prop) (v : Option Nat) : Spec bankPlace P (Bank.add coin.amount v)
      (fun x st => 0 < x ∧ P st) fun _ _ => True := by
    rw [Bank.add]
    exact .ite (fun _ => .pure fun st hP => ⟨by omega, hP⟩) fun _ => .panic
  refine .bind (Q := fun _ => Funded E S) ?_ fun _ => .bind
    (Q := fun _ => Funded E fun x => S x ∨ x = account) ?_ fun _ => .pure fun _ h => h
  · refine .at (.updateOption (fun v => (hadd _ v).conseq (fun _ h => h.1) (fun _ _ h => h)
      fun _ _ h => h) ?_ (fun _ _ _ => trivial) fun _ _ _ _ _ => trivial)
    intro v x b st _ h
    refine h.2.update (fun account denom => ?_) _
    simpa [Bank.supply] using supply_ne_balanceKey (str coin.denom) account denom
  · refine .at (.updateOption (fun v => (hadd _ v).conseq (fun _ h => h.1) (fun _ _ h => h)
      fun _ _ h => h) ?_ (fun _ _ _ => trivial) fun _ _ _ _ _ => trivial)
    intro v x b st hb h
    have hcredit : Funded E (fun x => S x ∨ x = account)
        (OrdMap.update st (balanceKey account (str coin.denom)) (some b)) := h.2.credit hb h.1
    simpa [balanceKey, bankPlace, Bank.balances] using hcredit

/-- The coins of one account: none of them is an error. -/
theorem spec_mint (S : AccountId → Prop) (account : AccountId) (coins : List Coin) :
    Spec bankPlace (Funded E S) (Bank.mint E account coins)
      (fun _ => Funded E fun x => S x ∨ x = account) fun _ _ => True := by
  -- what is seen is what has been credited
  have hloop : ∀ (coins : List Coin) (seen : List String),
      Spec bankPlace (Funded E fun x => S x ∨ x = account ∧ seen ≠ [])
        (Bank.forValidCoins (fun coin => do
          let _ ← Bank.supplyAt E coin.denom fun i => i.updateOption (Bank.add coin.amount)
          let _ ← Bank.balanceAt E account coin.denom fun i =>
            i.updateOption (Bank.add coin.amount)
          pure ()) seen coins)
        (fun _ => Funded E fun x => S x ∨ x = account) fun _ _ => True := by
    intro coins
    induction coins with
    | nil =>
      intro seen
      rw [Bank.forValidCoins]
      refine .ite (fun _ => .throw fun _ _ => trivial) fun hseen => .pure fun st h => ?_
      simpa [hseen] using h
    | cons coin rest ih =>
      intro seen
      rw [Bank.forValidCoins]
      refine .ite (fun _ => ih seen) fun hzero =>
        .ite (fun _ => .throw fun _ _ => trivial) fun _ => ?_
      refine .bind (spec_mintCoin _ account (Nat.pos_of_ne_zero hzero)) fun _ => ?_
      refine (ih (coin.denom :: seen)).conseq (fun st h => ?_) (fun _ _ h => h) fun _ _ h => h
      intro x
      rw [h x]
      constructor
      · rintro ((hS | ⟨hx, -⟩) | hx)
        · exact .inl hS
        · exact .inr ⟨hx, List.cons_ne_nil _ _⟩
        · exact .inr ⟨hx, List.cons_ne_nil _ _⟩
      · rintro (hS | ⟨hx, -⟩)
        · exact .inl (.inl hS)
        · exact .inr hx
  refine (hloop coins []).conseq (fun st h => ?_) (fun _ _ h => h) fun _ _ h => h
  simpa using h

theorem spec_mintAll (S : AccountId → Prop) (accounts : List Bank.BankAccount) :
    Spec bankPlace (Funded E S) (Bank.mintAll E accounts)
      (fun _ => Funded E fun x => S x ∨ ∃ a ∈ accounts, addressOf E a.address x)
      fun _ _ => True := by
  induction accounts generalizing S with
  | nil => exact .pure fun st h => by simpa using h
  | cons a rest ih =>
    refine .bind (.parseAccount fun _ _ _ => trivial) fun account => .of_fact fun haddress =>
      .bind (spec_mint S account a.balance) fun _ => ?_
    refine (ih _).post fun _ st h => ?_
    intro x
    have hx : x = account ↔ addressOf E a.address x := by
      constructor
      · rintro rfl
        exact haddress
      · intro hx
        cases hx.symm.trans haddress
        rfl
    simp only [h x, or_assoc, List.exists_mem_cons_iff, hx]

theorem spec_bankInit (accounts : List Bank.BankAccount) :
    Spec id (Funded E fun _ => False) (Bank.init E accounts)
      (fun _ => Funded E fun x => ∃ a ∈ accounts, addressOf E a.address x) fun _ _ => True := by
  refine .prefixed ((spec_mintAll (fun _ => False) accounts).post fun _ st h => ?_)
  simpa using h

end Bank

/-! ## The contract's part -/

section Results

variable {ε α β : Type} {p : StorageM ε α} {Q : α → Prop}

/-- Every result of the program is in `Q`, whatever the answers. -/
def Ends (Q : α → Prop) (p : StorageM ε α) : Prop :=
  ∀ m, Yields (fun _ => True) (fun x => ∀ a, x.1 = .ok a → Q a) (p.toProg m)

theorem Ends.any (p : StorageM ε α) : Ends (fun _ => True) p :=
  fun _ => (Yields.any _).mono fun _ _ _ _ => trivial

theorem Ends.pure {a : α} (ha : Q a) : Ends Q (pure a : StorageM ε α) := by
  intro m b hb
  cases hb
  exact ha

theorem Ends.bind {R : β → Prop} {f : α → StorageM ε β} (hp : Ends Q p)
    (hf : ∀ a, Q a → Ends R (f a)) : Ends R (p >>= f) := by
  refine fun m => (hp m).bind fun x hx => ?_
  obtain ⟨_ | a, m'⟩ := x
  · intro b hb
    cases hb
  · exact hf a (hx a rfl) m'

theorem Ends.spec {place : Bytes → Bytes} {P : Store → Prop} {Q' : α → Store → Prop}
    {R : ε → Store → Prop} (hends : Ends Q p) (hp : Spec place P p Q' R) :
    Spec place P p (fun a st => Q a ∧ Q' a st) R := by
  intro σ h view hs m m' s s' r hexec hP
  have hend := hp hs hexec hP
  cases r with
  | error e => exact hend
  | ok a => exact ⟨(hends m).result hexec a rfl, hend⟩

end Results

section Wasm

variable (E : Externals)

/-- The root contract answers its instantiation without messages. -/
def RootQuiet : Prop :=
  ∀ checksum env info msg gas, E.vm.storeCode E.rootWasm = .ok checksum →
    Yields (fun _ => True)
      (fun x : ContractResult × Nat => ∀ r, x.1 = .ok (.ok r) → r.messages = [])
      (E.vm.call checksum env (.callInstantiate info msg) gas)

variable {E}

theorem ends_instantiate (hquiet : RootQuiet E) {checksum : Bytes}
    (hroot : E.vm.storeCode E.rootWasm = .ok checksum) (env : CwEnv) (contract : AccountId)
    (info : MessageInfo) (msg : Bytes) :
    Ends (fun r : CwResponse => r.messages = [])
      (Wasm.finishCall E ((Wasm.cache E).instantiate checksum env contract info msg)) := by
  have hcall : Ends (fun x : ContractResult × Nat => ∀ r, x.1 = .ok (.ok r) → r.messages = [])
      ((Wasm.cache E).instantiate checksum env contract info msg) := by
    rw [VmCache.instantiate, VmCache.callEntry]
    refine (Ends.any _).bind fun cached _ => ?_
    split
    · exact .pure fun r hr => by cases hr
    · split
      · exact fun _ => trivial
      · split
        · exact .pure fun r hr => by cases hr
        · rename_i pre hpre _ _
          have hrun : Ends (fun x : ContractResult × Nat × Overlay =>
              ∀ r, x.1 = .ok (.ok r) → r.messages = [])
              ((Wasm.cache E).runInstance checksum env (.callInstantiate info msg) pre) := by
            intro m
            refine (Yields.through (I := fun _ => True) (fun _ _ _ _ => (Yields.any _).mono
              fun _ _ => trivial) (hquiet checksum env info msg _ hroot) trivial).bind ?_
            rintro y hy z hz
            cases hz
            exact hy.2
          refine hrun.bind fun x hx => ?_
          obtain ⟨result, gasUsed, ops⟩ := x
          dsimp only
          split
          · refine (Ends.any _).bind fun done _ => ?_
            split
            · exact .pure fun r hr => by cases hr
            · exact .pure hx
          · exact .pure hx
  rw [Wasm.finishCall]
  refine hcall.bind fun x hx => (Ends.any _).bind fun _ _ => ?_
  obtain ⟨_ | _ | r, gas⟩ := x
  · intro m b hb
    cases hb
  · intro m b hb
    cases hb
  · exact .pure (hx r rfl)

/-! ### The frame -/

/-- Beside the balances. -/
def NotBank (key : Bytes) : Prop := ∀ rest, key ≠ lengthPrefixed namespaceBank ++ rest

/-- Beside the balances and the record of the root contract. -/
def NotGov (key : Bytes) : Prop := NotBank key ∧ key ≠ rootContractKey

theorem notBank_lengthPrefixed {ns : Bytes} (hlen : ns.length ≤ 0xFFFF) (hne : ns ≠ namespaceBank)
    (key : Bytes) : NotBank (lengthPrefixed ns ++ key) := by
  intro rest h
  exact hne (lengthPrefixed_append_inj hlen (by decide) h).1

instance : Within NotBank namespaceWasm := ⟨notBank_lengthPrefixed (by decide) (by decide)⟩

instance : Within NotBank namespaceAuth := ⟨notBank_lengthPrefixed (by decide) (by decide)⟩

theorem notGov_wasm (ns : Bytes) (hlen : ns.length ≤ 0xFFFF) (hne : ns ≠ str "contracts")
    (key : Bytes) : NotGov (lengthPrefixed namespaceWasm ++ (lengthPrefixed ns ++ key)) := by
  refine ⟨notBank_lengthPrefixed (by decide) (by decide) _, fun h => ?_⟩
  obtain ⟨-, h⟩ := lengthPrefixed_append_inj (by decide) (by decide) h
  exact hne (lengthPrefixed_append_inj hlen (by decide) h).1

instance : Within NotGov namespaceApp where
  key key := by
    refine ⟨notBank_lengthPrefixed (by decide) (by decide) _, fun h => ?_⟩
    exact absurd (lengthPrefixed_append_inj (by decide) (by decide) h).1 (by decide)

/-- Whom the store funds, and who governs it. -/
structure Placed (E : Externals) (S : AccountId → Prop) (gov : AccountId) (st : Store) : Prop where
  funded : Funded E S st
  gov : ∀ account, IsGov E st account ↔ account = gov

variable {S : AccountId → Prop} {gov : AccountId}

theorem Funded.notBank {st : Store} (h : Funded E S st) {key : Bytes} (hkey : NotBank key)
    (v : Option Bytes) : Funded E S (OrdMap.update st key v) :=
  h.update (fun _ _ => hkey _) v

theorem Placed.notGov {st : Store} (h : Placed E S gov st) {key : Bytes} (hkey : NotGov key)
    (v : Option Bytes) : Placed E S gov (OrdMap.update st key v) := by
  refine ⟨h.funded.notBank hkey.1 v, fun account => ?_⟩
  rw [← h.gov account]
  simp only [IsGov, OrdMap.getElem?_update, if_neg hkey.2]

theorem spec_notBank {α : Type} (p : StorageM PulsarError α) [hp : Only (WritesAt NotBank) p] :
    Spec id (Funded E S) p (fun _ => Funded E S) fun _ _ => True :=
  (hp.keeps fun _ _ v hkey h => h.notBank hkey v).conseq (fun _ h => h) (fun _ _ h => h)
    fun _ _ _ => trivial

theorem spec_notGov {α : Type} {p : StorageM PulsarError α} (hp : Only (WritesAt NotGov) p) :
    Spec id (Placed E S gov) p (fun _ => Placed E S gov) fun _ _ => True :=
  (hp.keeps fun _ _ v hkey h => h.notGov hkey v).conseq (fun _ h => h) (fun _ _ h => h)
    fun _ _ _ => trivial

/-! ### Its steps -/

theorem ends_storeRootCode (gov : AccountId) :
    Ends (fun x : Nat × CodeInfo => E.vm.storeCode E.rootWasm = .ok x.2.checksum)
      (Wasm.storeRootCode E gov) := by
  rw [Wasm.storeRootCode]
  have hstore : Ends (fun checksum => E.vm.storeCode E.rootWasm = .ok checksum)
      (Comp.ofExcept ((E.vm.storeCode E.rootWasm).mapError (Wasm.mapVmError E)) :
        StorageM PulsarError Bytes) := by
    intro m
    cases hcode : E.vm.storeCode E.rootWasm with
    | error e =>
      intro a ha
      cases ha
    | ok checksum =>
      intro a ha
      cases ha
      rfl
  refine hstore.bind fun checksum hchecksum => (Ends.any _).bind fun _ _ => ?_
  exact (Ends.any _).bind fun _ _ => (Ends.any _).bind fun _ _ => (Ends.any _).bind fun _ _ =>
    (Ends.any _).bind fun _ _ => (Ends.any _).bind fun _ _ => (Ends.any _).bind fun _ _ =>
      .pure hchecksum

theorem spec_storeRootCode (S : AccountId → Prop) (gov : AccountId) :
    Spec id (Funded E S) (Wasm.storeRootCode E gov)
      (fun x st => E.vm.storeCode E.rootWasm = .ok x.2.checksum ∧ Funded E S st)
      fun _ _ => True := by
  have : Only (WritesAt NotBank) (Wasm.storeRootCode E gov) := by
    rw [Wasm.storeRootCode]
    refine Only.bind inferInstance fun checksum => Only.bind inferInstance fun _ => ?_
    infer_instance
  exact (ends_storeRootCode gov).spec (spec_notBank _)

/-- The record of the root contract names its admin. -/
theorem spec_saveRoot (S : AccountId → Prop) {contract : ContractData}
    (hadmin : contract.admin = some gov) :
    Spec id (Funded E S) (Wasm.saveContract E rootAccount contract)
      (fun _ => Placed E S gov) fun _ _ => True := by
  refine .prefixed (.at (.save (fun b st hb h => ?_) fun _ _ _ => trivial))
  have hread := E.codecs.contractData.fromJson_toJsonVec hb
  have hset : Placed E S gov (OrdMap.update st rootContractKey (some b)) := by
    refine ⟨h.notBank (notBank_lengthPrefixed (by decide) (by decide) _) _, fun account => ?_⟩
    simp only [IsGov, OrdMap.getElem?_update, if_true, Option.some.injEq]
    constructor
    · rintro ⟨b', contract', rfl, hcontract', haccount⟩
      cases hcontract'.symm.trans hread
      exact (Option.some.inj (haccount.symm.trans hadmin))
    · rintro rfl
      exact ⟨b, contract, rfl, hread, hadmin⟩
  simpa [rootContractKey, Wasm.contracts] using hset

theorem spec_doInstantiate (hquiet : RootQuiet E) (S : AccountId → Prop) (depth : Nat)
    (block : BlockInfo) (gov : AccountId) (codeId : Nat) {code : CodeInfo}
    (hroot : E.vm.storeCode E.rootWasm = .ok code.checksum) (msg : Bytes) :
    Spec id (Funded E S)
      (Wasm.doInstantiate E (sm E depth) block gov rootAccount codeId code (some gov) msg []
        "Root Contract" true)
      (fun _ => Placed E S gov) fun _ _ => True := by
  rw [Wasm.doInstantiate]
  refine .bind (spec_notBank _) fun _ => ?_
  refine .bind (spec_saveRoot S rfl) fun _ => .bind (Q := fun _ => Placed E S gov) ?_ fun _ => ?_
  · refine .prefixed (.at (.save (fun b st _ h => ?_) fun _ _ _ => trivial))
    refine h.notGov ?_ _
    simpa [Wasm.contractsByCode] using notGov_wasm (str "contracts_by_code") (by decide)
      (by decide) (lengthPrefixed (u64be codeId) ++ rootAccount.bytes)
  have hsend : Wasm.sendFunds (sm E depth) block gov rootAccount [] = pure () := if_pos rfl
  rw [hsend, pure_bind]
  have hchecksum : Ends (fun checksum => checksum = code.checksum)
      (Wasm.getChecksumToExecute code) := by
    rw [Wasm.getChecksumToExecute, Wasm.getChecksumNotExecuting]
    refine (Ends.any _).bind fun _ _ => ?_
    split
    · exact .pure rfl
    · exact fun _ => trivial
  refine .bind (hchecksum.spec (spec_notGov inferInstance)) fun checksum => .of_fact ?_
  rintro rfl
  refine .bind ((ends_instantiate hquiet hroot _ _ _ _).spec (spec_notGov ?_)) fun result =>
    .of_fact fun hmessages => ?_
  · have : Only (WritesAt NotGov) ((Wasm.cache E).instantiate code.checksum
        (Wasm.buildEnv E block rootAccount) rootAccount (Wasm.buildInfo E gov []) msg) :=
      only_callEntry_of _ _ _ _ (notGov_wasm _ (by decide) (by decide))
    rw [Wasm.finishCall]
    infer_instance
  · rw [Wasm.finishResponse, hmessages]
    refine .bind (spec_notGov inferInstance) fun events => ?_
    cases depth with
    | zero => exact .panic
    | succ n =>
      have hdispatch (response : MsgResult) :
          (sm E (n + 1)).dispatchResponseMessages block rootAccount code.checksum [] response
            true = pure response := by
        simp [sm, Wasm.dispatchResponseMessages, Wasm.dispatchLoop]
      rw [hdispatch]
      exact .pure fun _ h => h

/-- Whom a genesis funds and who governs after it. -/
def Started (E : Externals) (genesis : GenesisState) (st : Store) : Prop :=
  ∃ gov, addressOf E genesis.govAccount gov ∧
    Placed E (fun x => ∃ a ∈ genesis.bank, addressOf E a.address x) gov st

theorem initGenesis_spec (hquiet : RootQuiet E) (depth : Nat) (block : BlockInfo)
    (genesis : GenesisState) : Spec id (Funded E fun _ => False) (initGenesis E depth block genesis)
      (fun _ => Started E genesis) fun _ _ => True := by
  rw [initGenesis]
  refine .bind (spec_bankInit genesis.bank) fun _ => ?_
  rw [Wasm.init]
  refine .bind (.parseAccount fun _ _ _ => trivial) fun gov => .of_fact fun hgov => ?_
  refine .bind (spec_storeRootCode _ gov) fun x => .of_fact fun hroot => ?_
  refine .bind (spec_notBank _) fun msg => ?_
  refine .bind (spec_doInstantiate hquiet _ depth block gov x.1 hroot msg) fun _ => ?_
  exact .pure fun st h => ⟨gov, hgov, h⟩

end Wasm

/-! ## The application after genesis -/

section Init

variable {E : Externals} {H : Bytes → Digest} {c : AppCodecs}

theorem Placed.congr {S : AccountId → Prop} {gov : AccountId} {st st' : Store}
    (h : Placed E S gov st) (hsame : ∀ key, isSidecar key = false → st'[key]? = st[key]?) :
    Placed E S gov st' := by
  refine ⟨fun account => ?_, fun account => ?_⟩
  · rw [← h.funded account]
    exact HoldsBalance.congr fun denom => hsame _ rfl
  · rw [← h.gov account]
    simp only [IsGov, hsame rootContractKey rfl]

variable {genesis : GenesisState}

theorem spec_writeGenesis (hquiet : RootQuiet E) (depth : Nat)
    (parseGenesis : Bytes → Except PulsarError GenesisState) (request : InitChainRequest)
    (lastBlock : BlockInfo) (hparse : parseGenesis request.appState = .ok genesis) :
    Spec id (Funded E fun _ => False)
      (writeGenesis c (stateMachine E depth parseGenesis) request lastBlock)
      (fun _ => Started E genesis) fun _ _ => True := by
  rw [writeGenesis]
  have hok : (stateMachine E depth parseGenesis).parseGenesis request.appState = .ok genesis :=
    hparse
  rw [hok]
  refine .bind (.ofExcept (Q := fun g st => g = genesis ∧ Funded E (fun _ => False) st)
    (fun g st hg h => ⟨(Except.ok.inj hg).symm, h⟩) fun _ _ _ _ => trivial) fun g => .of_fact ?_
  rintro rfl
  refine .bind (initGenesis_spec hquiet depth lastBlock g) fun _ => ?_
  have hrest {α : Type} {p : StorageM PulsarError α} (hp : Only (WritesAt NotGov) p) :
      Spec id (Started E g) p (fun _ => Started E g) fun _ _ => True :=
    (hp.keeps fun _ _ v hkey ⟨gov, hgov, h⟩ => ⟨gov, hgov, h.notGov hkey v⟩).conseq
      (fun _ h => h) (fun _ _ h => h) fun _ _ _ => trivial
  refine .bind (hrest (only_save ?_ lastBlock)) fun _ => hrest inferInstance
  -- the first byte of a length is zero
  refine ⟨fun rest h => ?_, fun h => ?_⟩
  · have hhead : (str "_last_block").head? = some 0 := congrArg List.head? h
    exact absurd hhead (by decide)
  · have hhead : (str "_last_block").head? = some 0 := congrArg List.head? h
    exact absurd hhead (by decide)

/-- Whom an application that starts without state funds, and who governs it. -/
theorem placed_init (hquiet : RootQuiet E) {depth : Nat}
    (parseGenesis : Bytes → Except PulsarError GenesisState) (request : InitChainRequest)
    (hparse : parseGenesis request.appState = .ok genesis) {a a' : App} {hash : Bytes}
    (hnew : a.storage.data = ∅)
    (hinit : FailState.exec (init H c (stateMachine E depth parseGenesis) request) a =
      some (.ok hash, a')) : Started E genesis a'.storage.data := by
  obtain ⟨u, a₁, hwrite, hinit⟩ := FailState.exec_bind_ok hinit
  obtain ⟨-, ⟨e, he, -⟩ | ⟨x, w, m, -, hrun, hview⟩⟩ := withWriter_cases hwrite
  · cases he
  have hempty : Funded E (fun _ => False) a.storage.writer.view := by
    intro account
    rw [a.storage.view_writer, hnew]
    simp [HoldsBalance]
  obtain ⟨gov, hgov, hplaced⟩ := spec_writeGenesis hquiet depth parseGenesis request _ hparse
    (storing_writerObj a.storage.backend) hrun hempty
  have hconsensus : SameConsensus a₁.storage.data w.view := sameConsensus_of_ne_appHashKey hview
  obtain ⟨u, a₂, hmodify, hinit⟩ := FailState.exec_bind_ok hinit
  cases hmodify
  obtain ⟨u, a₃, hroot, hinit⟩ := FailState.exec_bind_ok hinit
  -- the state root is written beside all that
  have hstored := triple_storeStateRoot a₁.storage.data (by exact ⟨IndexInv.of_none rfl, rfl⟩) hroot
  have hsame : SameConsensus a₃.storage.data a₁.storage.data := hstored.2
  obtain ⟨b, a₄, hget, hhash⟩ := FailState.exec_bind_ok hinit
  cases hget
  have hend : a' = a₃ := by
    cases hash' : a₃.appHash c with
    | none => rw [hash'] at hhash; cases hhash
    | some x =>
      rw [hash'] at hhash
      cases hhash
      rfl
  exact ⟨gov, hgov, hend ▸ hplaced.congr (hsame.trans hconsensus)⟩

/-- No address of the file is another text of a devnet account. -/
def BuiltInTexts (E : Externals) (G : GenesisEnv) (genesis : GenesisState) : Prop :=
  ∀ text ∈ GenesisEnv.addresses genesis, ∀ d ∈ G.devnet, ∀ account,
    addressOf E d account → addressOf E text account → text = d

theorem GenesisEnv.not_mem_devnet {G : GenesisEnv} {config : NodeConfig}
    (hconfig : config.insecureDevnet = false) (h : G.resolveGenesis config = .ok genesis)
    {text : String} (htext : text ∈ addresses genesis) : text ∉ G.devnet := by
  simp only [resolveGenesis, hconfig, Bool.not_false, if_true] at h
  obtain ⟨-, h⟩ := guard_eq_ok.mp h
  obtain ⟨data, -, h⟩ := bind_eq_ok.mp h
  obtain ⟨_, -, h⟩ := bind_eq_ok.mp h
  split at h
  · cases h
  · rename_i hfind
    cases h
    intro hmem
    have hnone := List.find?_eq_none.1 hfind text htext
    exact hnone (List.any_eq_true.2 ⟨text, hmem, decide_eq_true rfl⟩)

/-- **Devnet accounts.** A file that is accepted without `insecure_devnet` leaves the
devnet accounts without balances and power exactly if no address in it is
another text of one of them. -/
theorem devnet_excluded_iff (E : Externals) (hquiet : RootQuiet E) (H : Bytes → Digest)
    (c : AppCodecs) (depth : Nat) (G : GenesisEnv) (config : NodeConfig) (genesis : GenesisState)
    (hconfig : config.insecureDevnet = false) (haccept : G.resolveGenesis config = .ok genesis)
    (request : InitChainRequest) (hstate : G.codec.toJsonVec genesis = .ok request.appState)
    (a a' : App) (hash : Bytes) (hnew : a.storage.data = ∅)
    (hinit : FailState.exec (init H c (stateMachine E depth fun b =>
      (G.codec.fromJson b).mapError .std) request) a = some (.ok hash, a')) :
    (∀ d ∈ G.devnet, ∀ account, addressOf E d account →
      ¬ HoldsBalance E a'.storage.data account ∧ ¬ IsGov E a'.storage.data account) ↔
    BuiltInTexts E G genesis := by
  have hparse : (G.codec.fromJson request.appState).mapError PulsarError.std = .ok genesis := by
    rw [G.codec.fromJson_toJsonVec hstate]
    rfl
  obtain ⟨gov, hgov, hplaced⟩ := placed_init hquiet _ request hparse hnew hinit
  constructor
  · intro hout text htext d hd account hdevnet haddress
    obtain ⟨hbalance, hpower⟩ := hout d hd account hdevnet
    refine absurd ?_ (not_or.2 ⟨hbalance, hpower⟩)
    rw [hplaced.funded account, hplaced.gov account]
    rcases List.mem_append.1 htext with hbank | hlast
    · obtain ⟨x, hx, rfl⟩ := List.mem_map.1 hbank
      exact .inl ⟨x, hx, haddress⟩
    · obtain rfl := List.mem_singleton.1 hlast
      cases haddress.symm.trans hgov
      exact .inr rfl
  · intro htexts d hd account hdevnet
    -- a text of the account would be the built-in one, which was refused
    have hnone (text : String) (htext : text ∈ GenesisEnv.addresses genesis) :
        ¬ addressOf E text account := by
      intro haddress
      have hbuiltIn := htexts text htext d hd account hdevnet haddress
      exact GenesisEnv.not_mem_devnet hconfig haccept htext (hbuiltIn ▸ hd)
    rw [hplaced.funded account, hplaced.gov account]
    refine ⟨?_, ?_⟩
    · rintro ⟨x, hx, haddress⟩
      exact hnone _ (List.mem_append_left _ (List.mem_map_of_mem hx)) haddress
    · rintro rfl
      exact hnone _ (List.mem_append_right _ (List.mem_singleton_self _)) hgov

end Init

/-! ## The upper-case text -/

section Sample

def devnetDeployer : AccountId :=
  ⟨[0x68, 0x8f, 0xea, 0x09, 0x07, 0x0f, 0x8f, 0xd9, 0x86, 0x4c, 0x8a, 0x5e, 0x05, 0xd5, 0x1c, 0xa7,
    0x63, 0xd7, 0x06, 0x49], by decide⟩

def ceremonyOwner : AccountId :=
  ⟨[0x4e, 0x55, 0x32, 0x29, 0x6e, 0x6a, 0x58, 0xb8, 0xdd, 0x68, 0xfc, 0xcc, 0x03, 0x66, 0x56, 0xe0,
    0x97, 0xa2, 0x55, 0xdc], by decide⟩

/-- It funds the deployer, in capitals. -/
def upperGenesis : GenesisState where
  bank := [⟨"JUNO1DZ875ZG8P78ANPJV3F0QT4GU5A3AWPJFHTW992", [⟨"ujclaw", 54660000000000⟩]⟩]
  govAccount := "juno1fe2ny2twdfvt3htglnxqxejkuzt6y4wu0pg4l9"

def upperJson : Bytes := str ("\x7b\"bank\":[\x7b\"address\":" ++
  "\"JUNO1DZ875ZG8P78ANPJV3F0QT4GU5A3AWPJFHTW992\",\"balance\":[\x7b\"denom\":\"ujclaw\"," ++
  "\"amount\":\"54660000000000\"\x7d]\x7d],\"wasm\":\x7b\"gov_account\":" ++
  "\"juno1fe2ny2twdfvt3htglnxqxejkuzt6y4wu0pg4l9\"\x7d\x7d")

def upperEnv : GenesisEnv where
  read _ := .ok upperJson
  accountId _ _ := "juno1dz875zg8p78anpjv3f0qt4gu5a3awpjfhtw992"
  codec := (WasmCodec.table [(upperGenesis, upperJson)]).toJsonCodec

/-- A machine with one code, whose contract answers with nothing. -/
def quietVm : CwVm where
  storeCode _ := .ok (List.replicate 32 0)
  analyze _ := .ok []
  loadWasm b := .ok b
  pin _ := .ok ()
  unpin _ := .ok ()
  getInstance _ := .ok ()
  call _ _ _ _ := pure (.ok (.ok ⟨[], [], [], none⟩), 0)
  display _ := ""

def upperExternals : Externals :=
  { Externals.ofValues {
      amounts := [54660000000000]
      counters := [1]
      blobs := [[]]
      accounts := [.internal]
      codes := [⟨ceremonyOwner, List.replicate 32 0, true⟩]
      contracts := [⟨1, ceremonyOwner, some ceremonyOwner, "Root Contract", 0⟩] } with
    vm := quietVm }

def upperRequest : InitChainRequest :=
  ⟨1673194026078305426, "junoclaw-1", ⟨1000, none⟩, upperJson, 1⟩

def upperCodecs : AppCodecs :=
  .ofValues [⟨0, 1673194026078305426, "junoclaw-1"⟩] [⟨"junoclaw-1", ⟨1000, none⟩⟩] [] []
    [zeroDigest]

def upperInit : Option (Except PulsarError Bytes × App) :=
  FailState.exec (init (fun _ => zeroDigest) upperCodecs (stateMachine upperExternals 1 fun b =>
    (upperEnv.codec.fromJson b).mapError .std) upperRequest) (App.new ⟨.memory, ∅, []⟩)

theorem upperInit_ok : ∃ hash a, upperInit = some (.ok hash, a) := by
  have hok : (upperInit.map fun x => x.1.isOk) = some true := by
    decide +kernel
  obtain ⟨⟨r, a⟩, hinit, hr⟩ := Option.map_eq_some_iff.1 hok
  cases r with
  | error e => cases hr
  | ok hash => exact ⟨hash, a, hinit⟩

theorem rootQuiet_upper : RootQuiet upperExternals := by
  intro checksum env info msg gas _ r hr
  cases hr
  rfl

theorem upper_accepted : upperEnv.resolveGenesis ⟨"genesis.json", false⟩ = .ok upperGenesis := by
  decide +kernel

theorem upper_deployer :
    addressOf upperExternals "juno1dz875zg8p78anpjv3f0qt4gu5a3awpjfhtw992" devnetDeployer := by
  rw [addressOf]
  decide +kernel

theorem upper_funded :
    addressOf upperExternals "JUNO1DZ875ZG8P78ANPJV3F0QT4GU5A3AWPJFHTW992" devnetDeployer := by
  rw [addressOf]
  decide +kernel

theorem devnet_excluded_iff_upper : ∃ hash a, upperInit = some (.ok hash, a) ∧
    ((∀ d ∈ upperEnv.devnet, ∀ account, addressOf upperExternals d account →
      ¬ HoldsBalance upperExternals a.storage.data account ∧
        ¬ IsGov upperExternals a.storage.data account) ↔
      BuiltInTexts upperExternals upperEnv upperGenesis) := by
  obtain ⟨hash, a, hinit⟩ := upperInit_ok
  exact ⟨hash, a, hinit, devnet_excluded_iff upperExternals rootQuiet_upper (fun _ => zeroDigest)
    upperCodecs 1 upperEnv ⟨"genesis.json", false⟩ upperGenesis rfl upper_accepted upperRequest
    (by decide +kernel) _ a hash rfl hinit⟩

/-- A file that funds the deployer in capitals is accepted, and the deployer is rich. -/
theorem devnet_funded : ∃ hash a,
    upperEnv.resolveGenesis ⟨"genesis.json", false⟩ = .ok upperGenesis ∧
    upperInit = some (.ok hash, a) ∧
    addressOf upperExternals upperEnv.devnetDeployerAddress devnetDeployer ∧
    HoldsBalance upperExternals a.storage.data devnetDeployer := by
  obtain ⟨hash, a, hinit⟩ := upperInit_ok
  have hparse : (upperEnv.codec.fromJson upperRequest.appState).mapError PulsarError.std =
      .ok upperGenesis := by
    decide +kernel
  obtain ⟨gov, -, hplaced⟩ := placed_init rootQuiet_upper
    (fun b => (upperEnv.codec.fromJson b).mapError .std) upperRequest hparse rfl hinit
  have hfunded := hplaced.funded devnetDeployer
  refine ⟨hash, a, upper_accepted, hinit, upper_deployer, hfunded.2 ?_⟩
  exact ⟨_, List.mem_singleton_self _, upper_funded⟩

end Sample

end LayerSdk
