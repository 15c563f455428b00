import UltraBacktest.Library.Word64
import UltraBacktest.Model.Portfolio

/-! The pre-trade risk engine. Quantities are 64-bit words here: the expected position is
computed in unsigned arithmetic and compared as an unsigned word. -/

namespace UltraBacktest

structure RiskLimits where
  /-- Zero disables the check. -/
  maxPositionPerSymbol : ℕ := 100000
  /-- Zero disables the check. -/
  maxLoss : ℤ := 0
  /-- Zero disables the check. -/
  maxOrderSize : ℕ := 10000
  deriving DecidableEq, Repr

inductive RiskRejectReason where
  | none
  | maxPosition
  | maxLoss
  | maxOrderSize
  | killSwitch
  deriving DecidableEq, Repr

structure RiskEngine where
  limits : RiskLimits
  killed : Bool := false
  deriving DecidableEq, Repr

namespace RiskEngine

def triggerKillSwitch (r : RiskEngine) : RiskEngine := { r with killed := true }

/-- The position if the order is fully filled: `+=` and `-=` convert the signed position
to an unsigned word and the result back. -/
def expectedPos (netQty : ℤ) (req : OrderRequest) : ℤ :=
  match req.side with
  | .buy => Word64.wrap (netQty + req.qty)
  | .sell => Word64.wrap (netQty - req.qty)

/-- `std::abs(expected_pos) > max_position_per_symbol`, an unsigned comparison. -/
def exceedsPosition (limits : RiskLimits) (netQty : ℤ) (req : OrderRequest) : Bool :=
  Word64.toWord (Word64.wrap |expectedPos netQty req|) > limits.maxPositionPerSymbol

/-- The answer of `check_pre_trade` and the engine after it. `portfolio` is what the
engine's pointer refers to at the call, `none` for a null pointer. The result is `none`
where the position array would be read out of bounds. -/
def checkPreTrade (r : RiskEngine) (portfolio : Option Portfolio) (req : OrderRequest) :
    Option (RiskRejectReason × RiskEngine) :=
  if r.killed then some (.killSwitch, r)
  else if r.limits.maxOrderSize > 0 ∧ req.qty > r.limits.maxOrderSize then
    some (.maxOrderSize, r)
  else
    match portfolio with
    | none => some (.none, r)
    | some p =>
        if r.limits.maxLoss > 0 ∧ p.totalPnl < -r.limits.maxLoss then
          some (.maxLoss, { r with killed := true })
        else if r.limits.maxPositionPerSymbol > 0 then do
          let pos ← p.getPosition req.symbol
          if exceedsPosition r.limits pos.netQty req then return (.maxPosition, r)
          else return (.none, r)
        else some (.none, r)

end RiskEngine

end UltraBacktest
