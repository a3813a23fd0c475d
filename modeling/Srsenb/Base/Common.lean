import Mathlib.Tactic.Common
import Mathlib.Algebra.Order.Ring.Int
import Mathlib.Data.Set.Lattice
import Mathlib.Data.Fin.Basic

/-! # Constants of the common library -/

namespace Srsenb

/-- `HARQ_DELAY_MS` -/
def harqDelayMs : Nat := 4

/-- `TTI_TX` -/
def ttiTx (tti : Nat) : Nat := (tti + harqDelayMs) % 10240

/-- `TTI_RX_ACK` -/
def ttiRxAck (tti : Nat) : Nat := (tti + 2 * harqDelayMs) % 10240

/-- `SRSLTE_MRNTI` -/
def mrnti : Nat := 0xFFFD

/-! ## The sizes of fixed arrays

One constant for each, which the literals of `Fin` then refer to. -/

instance neZero_two : NeZero 2 := ⟨Nat.succ_ne_zero 1⟩

instance neZero_eight : NeZero 8 := ⟨Nat.succ_ne_zero 7⟩

instance neZero_sixteen : NeZero 16 := ⟨Nat.succ_ne_zero 15⟩

end Srsenb
