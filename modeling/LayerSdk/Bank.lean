import LayerSdk.Keepers

/-!
# The bank keeper

Native coins are two tables: the supply per denomination and the balance per
account and denomination. A denomination `cw20:` followed by an address is
a contract, and moving it calls the contract.

A transfer of several coins goes through them one by one (`forValidCoins`).
The list is checked on the way: what is wrong with a later coin is found
after the earlier ones were moved.
-/

namespace LayerSdk

open EffectProg

def namespaceBank : Bytes := str "bank"

/-- `Uint128::MAX`. -/
def uint128Max : Nat := 2 ^ 128 - 1

namespace Bank

/-! ## Amounts -/

/-- `amount.unwrap_or_default().checked_sub(by)?`. -/
def checkedSub (amount : Nat) (balance : Option Nat) : StorageM PulsarError Nat :=
  if amount ≤ balance.getD 0 then pure (balance.getD 0 - amount)
  else throw (.std (.overflow "Sub"))

/-- `amount.unwrap_or_default() + by`: an overflow is a panic. -/
def add (amount : Nat) (balance : Option Nat) : StorageM PulsarError Nat :=
  if balance.getD 0 + amount ≤ uint128Max then pure (balance.getD 0 + amount) else Comp.panic

/-- `.map_err(|_| e)?`. -/
def mapErr {α : Type} (e : PulsarError) (p : StorageM PulsarError α) : StorageM PulsarError α := do
  match ← Comp.attempt p with
  | .ok a => pure a
  | .error _ => throw e

/-- `ValidCoins` as the loop that consumes it: zero amounts are skipped, a
denomination seen before is an error, and so is an end without any coin. -/
def forValidCoins (body : Coin → StorageM PulsarError Unit) :
    List String → List Coin → StorageM PulsarError Unit
  | seen, [] => if seen = [] then throw (.bank .noEmptyTransfer) else pure ()
  | seen, c :: rest =>
    if c.amount = 0 then forValidCoins body seen rest
    else if c.denom ∈ seen then throw (.bank (.duplicateDenom c.denom))
    else do
      body c
      forValidCoins body (c.denom :: seen) rest

/-! ## Denominations -/

inductive TypedDenom where
  | native (denom : String)
  | cw20 (contract : AccountId)
deriving DecidableEq

def cw20Prefix : List Char := "cw20:".toList

/-- `denom.strip_prefix("cw20:")`. -/
def stripCw20 (denom : String) : Option String :=
  if cw20Prefix.isPrefixOf denom.toList then
    some (String.ofList (denom.toList.drop cw20Prefix.length))
  else none

/-- `100ujuno,5uatom`. -/
def coinsToString (coins : List Coin) : String :=
  ",".intercalate (coins.map fun c => Nat.repr c.amount ++ c.denom)

section Keeper

variable (E : Externals)

def supply : PlusMap Nat := ⟨str "supply", E.codecs.uint128⟩

def balances : PlusMap Nat := ⟨str "balances", E.codecs.uint128⟩

/-- An operation at the entry of a denomination. -/
def supplyAt {α : Type} (denom : String) (f : Item Nat → StorageM PulsarError α) :
    StorageM PulsarError α := (supply E).at [] (str denom) f

/-- An operation at the entry of an account and a denomination. -/
def balanceAt {α : Type} (account : AccountId) (denom : String)
    (f : Item Nat → StorageM PulsarError α) : StorageM PulsarError α :=
  (balances E).at [account.bytes] (str denom) f

def fromDenom (denom : String) : StorageM PulsarError TypedDenom :=
  match stripCw20 denom with
  | none => pure (.native denom)
  | some contract => .cw20 <$> E.parseAccount contract

def insufficientFunds (account : AccountId) : PulsarError :=
  .bank (.insufficientFunds (E.display account))

/-! ## Native coins -/

def sendNative (fromAddress toAddress : AccountId) (coin : Coin) : StorageM PulsarError Unit := do
  let _ ← mapErr (insufficientFunds E fromAddress)
    (balanceAt E fromAddress coin.denom fun i => i.updateOption (checkedSub coin.amount))
  let _ ← balanceAt E toAddress coin.denom fun i => i.updateOption (add coin.amount)
  pure ()

def burnNative (fromAddress : AccountId) (coin : Coin) : StorageM PulsarError Unit := do
  let _ ← supplyAt E coin.denom fun i => i.updateOption (checkedSub coin.amount)
  let _ ← mapErr (insufficientFunds E fromAddress)
    (balanceAt E fromAddress coin.denom fun i => i.updateOption (checkedSub coin.amount))
  pure ()

def mint (toAddress : AccountId) (amount : List Coin) : StorageM PulsarError Unit :=
  forValidCoins (fun coin => do
    let _ ← supplyAt E coin.denom fun i => i.updateOption (add coin.amount)
    let _ ← balanceAt E toAddress coin.denom fun i => i.updateOption (add coin.amount)
    pure ()) [] amount

def getAllBalances (account : AccountId) : StorageM PulsarError (List Coin) :=
  match toLengthPrefixedNested [(balances E).ns, account.bytes] with
  | none => Comp.panic
  | some pre => do
    let (lo, hi) := prefixedBounds pre none none
    let it ← Storage.range (some lo) (some hi) .ascending
    collectCoins pre.length it.items it.tail
where
  /-- Each record is charged for, cut to its denomination and parsed in turn. -/
  collectCoins (skip : Nat) : List (List Nat × Record) → List Nat → StorageM PulsarError (List Coin)
    | [], tail => do
      let _ ← collect ⟨[], tail⟩
      pure []
    | (costs, key, value) :: rest, tail => do
      let _ ← collect ⟨[], costs⟩
      let denom ← match String.fromUTF8? ⟨(key.drop skip).toArray⟩ with
        | some denom => pure denom
        | none => throw (.std .invalidUtf8)
      let amount ← liftStd (E.codecs.uint128.fromJson value)
      let coins ← collectCoins skip rest tail
      pure (⟨denom, amount⟩ :: coins)

/-! ## Contract coins -/

variable (sm : Sm) (block : BlockInfo)

/-- Calls a cw20 contract, whose response may hold no messages. -/
def callCw20 (sender contract : AccountId) (msg : Cw20ExecuteMsg) : StorageM PulsarError Unit := do
  let msg ← liftStd (E.codecs.cw20 msg)
  let _ ← sm.wasmProcessMsgNoSubmsg block sender (.execute sender contract msg [])
  pure ()

def sendCw20 (fromAddress toAddress contract : AccountId) (amount : Nat) :
    StorageM PulsarError Unit :=
  callCw20 E sm block fromAddress contract (.transfer (E.display toAddress) amount)

def burnCw20 (fromAddress contract : AccountId) (amount : Nat) : StorageM PulsarError Unit :=
  callCw20 E sm block fromAddress contract (.burn amount)

/-! ## Operations -/

def transferCoin (fromAddress toAddress : AccountId) (coin : Coin) : StorageM PulsarError Unit := do
  match ← fromDenom E coin.denom with
  | .native _ => prefixed namespaceBank (sendNative E fromAddress toAddress coin)
  | .cw20 contract => sendCw20 E sm block fromAddress toAddress contract coin.amount

def transfer (fromAddress toAddress : AccountId) (amount : List Coin) :
    StorageM PulsarError Unit :=
  forValidCoins (transferCoin E sm block fromAddress toAddress) [] amount

def burnCoin (fromAddress : AccountId) (coin : Coin) : StorageM PulsarError Unit := do
  match ← fromDenom E coin.denom with
  | .native _ => prefixed namespaceBank (burnNative E fromAddress coin)
  | .cw20 contract => burnCw20 E sm block fromAddress contract coin.amount

def burn (fromAddress : AccountId) (amount : List Coin) : StorageM PulsarError Unit :=
  forValidCoins (burnCoin E sm block fromAddress) [] amount

/-- Coin by coin; the result is what was moved. -/
def distributeCoins (fromAddress toAddress : AccountId) :
    List Coin → StorageM PulsarError (List Coin)
  | [] => pure []
  | coin :: rest =>
    if coin.amount = 0 then distributeCoins fromAddress toAddress rest
    else do
      transfer E sm block fromAddress toAddress [coin]
      let distributed ← distributeCoins fromAddress toAddress rest
      pure (coin :: distributed)

def distributeFees (fromAddress toAddress : AccountId) : StorageM PulsarError (List Coin) := do
  let balances ← prefixed namespaceBank (getAllBalances E fromAddress)
  distributeCoins E sm block fromAddress toAddress balances

structure BankAccount where
  address : String
  balance : List Coin
deriving DecidableEq, Repr

def mintAll : List BankAccount → StorageM PulsarError Unit
  | [] => pure ()
  | account :: rest => do
    let address ← E.parseAccount account.address
    mint E address account.balance
    mintAll rest

def init (accounts : List BankAccount) : StorageM PulsarError Unit :=
  prefixed namespaceBank (mintAll E accounts)

def processMsg (signer : AccountId) : BankMsg → StorageM PulsarError MsgResult
  | .send sender recipient amount => do
    ensureEq signer sender (.bank .unauthorized)
    transfer E sm block sender recipient amount
    pure ⟨.bank .send, [⟨"transfer", [("recipient", E.display recipient),
      ("sender", E.display sender), ("amount", coinsToString amount)]⟩]⟩
  | .burn sender amount => do
    ensureEq signer sender (.bank .unauthorized)
    burn E sm block sender amount
    pure ⟨.bank .burn, [⟨"burn", [("sender", E.display sender),
      ("amount", coinsToString amount)]⟩]⟩

end Keeper

end Bank

end LayerSdk
