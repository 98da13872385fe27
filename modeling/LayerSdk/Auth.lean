import LayerSdk.Bank

/-!
# The auth keeper

Accounts and the validation of transactions. A transaction is accepted from
an external account with its stored key and its next sequence, or from an
address without an account, which its first transaction turns into an
external one. An address claimed for internal use is closed to keys.
-/

namespace LayerSdk

open EffectProg

/-! ## Transactions -/

structure SigningInfo where
  messageHash : Bytes
  sequence : Nat
  pubkey : Option PubKey
  signature : Bytes
deriving DecidableEq

structure FeeInfo where
  fee : Option Coin
  gasLimit : Nat
deriving DecidableEq, Repr

structure SignedTx where
  msgs : List Msg
  signer : AccountId
  signingInfo : SigningInfo
  fee : FeeInfo
  timeoutHeight : Option Nat
  rawTx : Bytes
deriving DecidableEq

def SignedTx.txLen (tx : SignedTx) : Nat := tx.rawTx.length

def namespaceAuth : Bytes := str "auth"

def feeCollectorAccount : AccountId := ⟨List.replicate 20 7, by decide⟩

def gasCostSigValidation : Nat := 1000

def gasCostPqSigValidation : Nat := 25000

namespace Auth

variable (E : Externals)

def accounts : PlusMap Account := ⟨str "accounts", E.codecs.account⟩

def accountAt {α : Type} (address : AccountId) (f : Item Account → StorageM PulsarError α) :
    StorageM PulsarError α := prefixed namespaceAuth ((accounts E).at [] address.bytes f)

/-- The sequence must be the next one; only a simulation skips this. -/
def checkSequence (validateSig : Bool) (provided expected : Nat) : StorageM PulsarError Unit :=
  if validateSig = true ∧ provided ≠ expected then
    throw (.tx (.invalidSequence provided expected))
  else pure ()

/-- The transaction is valid through the given height. -/
def checkTimeout (height : Nat) : Option Nat → StorageM PulsarError Unit
  | some timeoutHeight =>
    if height > timeoutHeight then throw (.tx (.txExpired timeoutHeight height)) else pure ()
  | none => pure ()

/-- A key given for an account with a stored one must be that key. -/
def checkPubKey (stored : PubKey) : Option PubKey → StorageM PulsarError Unit
  | some pk => if pk ≠ stored then throw (.tx .pubKeyMismatch) else pure ()
  | none => pure ()

/-- Checks and bumps the sequence; the result is the key to verify with. -/
def claimSequence (tx : SignedTx) (validateSig : Bool) : StorageM PulsarError PubKey := do
  match ← accountAt E tx.signer Item.mayLoad with
  | some (.external pubkey sequence) => do
    checkSequence validateSig tx.signingInfo.sequence sequence
    checkPubKey pubkey tx.signingInfo.pubkey
    if sequence = u64Max then Comp.panic
    else do
      accountAt E tx.signer fun i => i.save (.external pubkey (sequence + 1))
      pure pubkey
  | none => do
    checkSequence validateSig tx.signingInfo.sequence 0
    match tx.signingInfo.pubkey with
    | some pk => do
      let owner ← Comp.ofExcept ((pk.accountId E.crypto).mapError .accountId)
      if owner ≠ tx.signer then throw (.tx .pubKeyMismatch)
      else do
        accountAt E tx.signer fun i => i.save (.external pk 1)
        pure pk
    | none => throw (.tx .pubKeyMissing)
  | some .internal => throw (.tx .internalAcccount)
  | some (.smart _) => throw (.tx .smartAccountSigner)

/-- The signature's price, then the signature. -/
def checkSignature (pubkey : PubKey) (info : SigningInfo) (validateSig : Bool) :
    StorageM PulsarError Unit := do
  charge gasCostSigValidation
  match pubkey with
  | .hybridSecp256k1Mayo .. => charge gasCostPqSigValidation
  | _ => pure ()
  if validateSig then
    Comp.ofExcept ((pubkey.validateSignature E.crypto info.messageHash info.signature).mapError .tx)
  else pure ()

/-- The fee goes to the collector; a fee of zero is none. -/
def payFee (sm : Sm) (block : BlockInfo) (signer : AccountId) :
    Option Coin → StorageM PulsarError Unit
  | some fee =>
    if fee.amount = 0 then pure () else sm.bankTransfer block signer feeCollectorAccount [fee]
  | none => pure ()

def validateTx (sm : Sm) (block : BlockInfo) (tx : SignedTx) (validateSig : Bool) :
    StorageM PulsarError (TxData Msg) := do
  checkTimeout block.height tx.timeoutHeight
  let pubkey ← claimSequence E tx validateSig
  checkSignature E pubkey tx.signingInfo validateSig
  payFee sm block tx.signer tx.fee.fee
  pure ⟨tx.signer.bytes, tx.msgs, tx.fee.gasLimit⟩

/-- Claims an address for internal use, so that no key can take it later. -/
def claimInternalAccount (address : AccountId) : StorageM PulsarError Unit := do
  match ← accountAt E address Item.mayLoad with
  | some _ => throw (.auth (.accountExists address.bytes))
  | none => accountAt E address fun i => i.save .internal

end Auth

end LayerSdk
