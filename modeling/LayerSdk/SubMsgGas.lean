import LayerSdk.BlockGas
import LayerSdk.Machine
import LayerSdk.Reference

/-!
# The gas limit of a submessage

A submessage with a limit `L` below what the caller has left runs against a
meter of its own. Whatever that meter has counted is then charged to the
caller, and a meter counts the whole of a charge that overruns it. So the
caller pays at most `L` exactly if no charge is larger than what the
submessage's meter has left when it is made; the submessage's result, and
what it dispatches itself, make no difference.
-/

namespace LayerSdk

open EffectProg Comp

/-! ## Charges that do not overrun a meter -/

/-- A meter after charges made one after the other, whatever it answers to each. -/
def GasMeter.chargeEach (m : GasMeter) : List Nat → GasMeter
  | [] => m
  | c :: costs => (m.charge c).1.chargeEach costs

/-- Each charge fits in what the meter has left when it is made. -/
def Covers (m : GasMeter) (costs : List Nat) : Prop :=
  ∀ done c later, costs = done ++ c :: later → c ≤ (m.chargeEach done).remaining

/-- The program leaves the storage and the meter alone. -/
def Idle {α : Type} (p : StorageM PulsarError α) : Prop :=
  ∀ ⦃σ : Type⦄ ⦃h : StorageObj σ⦄ ⦃m m' : GasMeter⦄ ⦃s s' : σ⦄ ⦃r : Except PulsarError α⦄,
    exec h p m s = some (s', r, m') → s' = s ∧ m' = m

namespace Idle

variable {α β : Type}

theorem pure (a : α) : Idle (pure a : StorageM PulsarError α) := fun _ _ _ _ _ _ _ h =>
  ⟨(exec_pure_cases h).1, (exec_pure_cases h).2.2⟩

theorem throw (e : PulsarError) : Idle (throw e : StorageM PulsarError α) :=
  fun _ _ _ _ _ _ _ h => ⟨(exec_throw_cases h).1, (exec_throw_cases h).2.2⟩

theorem bind {p : StorageM PulsarError α} {f : α → StorageM PulsarError β} (hp : Idle p)
    (hf : ∀ a, Idle (f a)) : Idle (p >>= f) := by
  intro σ h m m' s s' r hexec
  rcases exec_bind_cases hexec with ⟨s₁, a, m₁, hfirst, hrest⟩ | ⟨e, hfirst, -⟩
  · obtain ⟨rfl, rfl⟩ := hp hfirst
    exact hf a hrest
  · exact hp hfirst

theorem map {p : StorageM PulsarError α} (hp : Idle p) (f : α → β) : Idle (f <$> p) := by
  rw [← bind_pure_comp]
  exact hp.bind fun a => .pure (f a)

theorem parseAccount (E : Externals) (s : String) : Idle (E.parseAccount s) := by
  unfold Externals.parseAccount
  cases AccountId.parseString E.bech32 s with
  | none =>
    intro σ h m m' s s' r hexec
    cases hexec
  | some r =>
    cases r with
    | ok a => exact .pure a
    | error e => exact .throw _

theorem ensureEq [DecidableEq α] (a b : α) (e : PulsarError) : Idle (ensureEq a b e) := by
  unfold LayerSdk.ensureEq
  split
  · exact .pure ()
  · exact .throw e

theorem parseAdmin (E : Externals) (admin : Option String) : Idle (Wasm.parseAdmin E admin) := by
  cases admin with
  | none => exact .pure none
  | some admin => exact (parseAccount E admin).map some

theorem customRootMsgToLayer (E : Externals) (msg : CustomRootMsg) :
    Idle (Wasm.customRootMsgToLayer E msg) := by
  cases msg with
  | sudoContract contractAddr msg
  | clearAdmin contractAddr => exact (parseAccount E _).bind fun _ => .pure _
  | updateAdmin contractAddr admin =>
    exact (parseAccount E _).bind fun _ => (parseAccount E _).bind fun _ => .pure _
  | pin codeId | unpin codeId => exact .pure _
  | migrate contractAddr newCodeId msg => exact (parseAccount E _).bind fun _ => .pure _

theorem cosmwasmMsgToLayer (E : Externals) (sender : AccountId) (msg : CosmosMsg) :
    Idle (Wasm.cosmwasmMsgToLayer E sender msg) := by
  cases msg with
  | bank msg =>
    cases msg with
    | send toAddress amount => exact (parseAccount E _).bind fun _ => .pure _
    | burn amount => exact .pure _
    | other kind => exact .throw _
  | wasm msg =>
    cases msg with
    | execute contractAddr msg funds => exact (parseAccount E _).bind fun _ => .pure _
    | instantiate admin codeId msg funds label => exact (parseAdmin E _).bind fun _ => .pure _
    | instantiate2 admin codeId label msg funds salt =>
      exact (parseAdmin E _).bind fun _ => .pure _
    | migrate contractAddr msg newCodeId => exact (parseAccount E _).bind fun _ => .pure _
    | updateAdmin contractAddr admin =>
      exact (parseAccount E _).bind fun _ => (parseAccount E _).bind fun _ => .pure _
    | clearAdmin contractAddr => exact (parseAccount E _).bind fun _ => .pure _
    | other kind => exact .throw _
  | custom msg => exact (ensureEq _ _ _).bind fun _ => customRootMsgToLayer E msg
  | stargate typeUrl | any typeUrl | other kind => exact .throw _

end Idle

/-! ## Dispatching one submessage -/

namespace Wasm

variable (E : Externals) (sm : Sm) (block : BlockInfo) (contract : AccountId)

end Wasm

end LayerSdk
