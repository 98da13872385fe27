import LayerSdk.App
import Mathlib.Algebra.BigOperators.Group.List.Basic

/-!
# Block gas

What the transactions of a block consume, against what the block's meter is
charged. A transaction ends in one of four ways (`Exit`): its validation
fails, its own limit does not cover validation and bytes, it asks for more
than the block has left, or its messages run. The first two charge the
validation gas and the last the whole of the transaction's meter; the third
charges nothing, although the transaction has been validated.

The block's limit stops only transactions that get as far as the third
check. One that fails before is validated and charged, however far the block
is past its limit.
-/

namespace LayerSdk

open EffectProg Comp

/-! ## Charges to a meter that keeps counting -/

variable {Tx Msg Data Genesis : Type}

section Spent

variable (b : Backend) (logic : StateMachine Tx Msg Data Genesis) (block : BlockInfo)

end Spent

/-! ## The charges of `execute_tx` -/

/-- A meter that has been charged `n`. -/
def GasMeter.add (m : GasMeter) (n : Nat) : GasMeter := { m with used := m.used + n }

section Charges

variable {b : Backend} {logic : StateMachine Tx Msg Data Genesis} {block : BlockInfo}

end Charges

/-! ## The law and its limits -/

end LayerSdk
