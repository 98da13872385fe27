import LayerSdk.Codec
import LayerSdk.Wrap

/-!
# Typed storage

`Item` and `Map` over the metered storage: JSON values under a fixed key, or
under a key built from length-prefixed parts. `load` of an absent value is
the error `NotFound` with the Rust type's name.
-/

namespace LayerSdk

open EffectProg

/-- `From<StdError>`. -/
class FromStd (ε : Type) where
  fromStd : StdError → ε

export FromStd (fromStd)

inductive PlusError where
  | std (e : StdError)
  | gas (e : GasError)
deriving DecidableEq, Repr

instance : FromGas PlusError := ⟨.gas⟩

instance : FromStd PlusError := ⟨.std⟩

/-- The texts of the errors. -/
def StdError.display : StdError → String
  | .notFound kind => kind ++ " not found"
  | .genericErr msg => "Generic error: " ++ msg
  | .parseErr target msg => "Error parsing into type " ++ target ++ ": " ++ msg
  | .serializeErr source msg => "Error serializing type " ++ source ++ ": " ++ msg
  | .overflow operation => "Overflow: Cannot " ++ operation ++ " with given operands"
  | .invalidUtf8 => "Cannot decode UTF8 bytes into string"

def GasError.display : GasError → String
  | .outOfGas => "Out of gas"

def PlusError.display : PlusError → String
  | .std e => e.display
  | .gas e => e.display

variable {ε α β : Type} [FromGas ε] [FromStd ε]

omit [FromGas ε] in
/-- `?` on a `StdResult`. -/
def liftStd (x : Except StdError α) : StorageM ε α := Comp.ofExcept (x.mapError fromStd)

omit [FromGas ε] in
/-- `must_deserialize`. -/
def mustDeserialize (codec : JsonCodec α) : Option Bytes → StorageM ε α
  | some b => liftStd (codec.fromJson b)
  | none => throw (fromStd (.notFound codec.typeName))

omit [FromGas ε] in
/-- `may_deserialize`. -/
def mayDeserialize (codec : JsonCodec α) : Option Bytes → StorageM ε (Option α)
  | some b => some <$> liftStd (codec.fromJson b)
  | none => pure none

/-- A typed value at a key: `Item<T>`, and the `Path<T>` of a map entry. -/
structure Item (α : Type) where
  key : Bytes
  codec : JsonCodec α

namespace Item

variable (i : Item α)

def save (x : α) : StorageM ε Unit := do
  let b ← liftStd (i.codec.toJsonVec x)
  Storage.set i.key b

omit [FromStd ε] in
def remove : StorageM ε Unit := Storage.remove i.key

def load : StorageM ε α := do
  let value ← Storage.get i.key
  mustDeserialize i.codec value

def mayLoad : StorageM ε (Option α) := do
  let value ← Storage.get i.key
  mayDeserialize i.codec value

/-- `Item::update`: an absent value is an error. -/
def update (action : α → StorageM ε α) : StorageM ε α := do
  let input ← i.load
  let output ← action input
  i.save output
  pure output

/-- `Path::update`: the action sees whether there is a value. -/
def updateOption (action : Option α → StorageM ε α) : StorageM ε α := do
  let input ← i.mayLoad
  let output ← action input
  i.save output
  pure output

omit [FromStd ε] in
def has : StorageM ε Bool := do
  let value ← Storage.get i.key
  pure value.isSome

end Item

/-- `Map<K, T>`: the namespace and the value type. -/
structure PlusMap (α : Type) where
  ns : Bytes
  codec : JsonCodec α

/-- The path of a map entry: all parts but the last are length-prefixed. A
part longer than `0xFFFF` is a panic. -/
def PlusMap.path? (m : PlusMap α) (parts : List Bytes) (last : Bytes) : Option (Item α) :=
  (toLengthPrefixedNested (m.ns :: parts)).map fun pre => ⟨pre ++ last, m.codec⟩

/-- Run an operation at the path of a map entry. -/
def PlusMap.at (m : PlusMap α) (parts : List Bytes) (last : Bytes) (f : Item α → StorageM ε β) :
    StorageM ε β :=
  match m.path? parts last with
  | some i => f i
  | none => Comp.panic

end LayerSdk
