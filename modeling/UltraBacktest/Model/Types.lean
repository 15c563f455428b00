import Mathlib.Algebra.Order.Ring.Int

/-! Core types of the backtester: symbols, sides, the fee model, and the fields of the
UltraLOB messages that the engine reads. A `Price` is a signed 64-bit fixed-point
amount, a `Nanos` a signed 64-bit time and a `Qty` an unsigned 64-bit quantity in the
source; here they are exact integers and naturals, and widths are stated where they
matter. -/

namespace UltraBacktest

/-- A raw 32-bit instrument identifier. -/
abbrev Symbol := UInt32

/-- `MAX_SYMBOLS`: the number of slots in the flat per-symbol arrays. -/
def maxSymbols : ℕ := 256

instance : NeZero maxSymbols := ⟨by decide⟩

/-- An index at which `positions_` may be accessed. -/
abbrev Slot := Fin maxSymbols

/-- The slot a symbol indexes, or `none` where the unchecked access of the source
would leave the array. -/
def slot? (sym : Symbol) : Option Slot :=
  if h : sym.toNat < maxSymbols then some ⟨sym.toNat, h⟩ else none

inductive Side where
  | buy
  | sell
  deriving DecidableEq, Repr

/-- All fees are amounts per share, except the flat `perTradeFee`. -/
structure FeeModel where
  perShareFee : ℤ := 0
  perTradeFee : ℤ := 0
  makerRebate : ℤ := 0
  takerFee : ℤ := 0
  deriving DecidableEq, Repr

/-- Total fee for a fill. -/
def FeeModel.compute (fm : FeeModel) (fillQty : ℕ) (isMaker : Bool) : ℤ :=
  let shareCost := fm.perShareFee * fillQty
  let exchangeFee := if isMaker then -fm.makerRebate else fm.takerFee
  let exchangeCost := exchangeFee * fillQty
  shareCost + exchangeCost + fm.perTradeFee

/-- The part of the configuration read by the portfolio and by the replay loop. -/
structure BacktestConfig where
  startTime : ℤ := 0
  endTime : ℤ := 0
  feeModel : FeeModel := {}
  initialCash : ℤ
  deriving DecidableEq, Repr

/-- The fields of an UltraLOB execution report that the portfolio reads. `isFill`
is the answer of UltraLOB's `is_fill()` for the report. The symbol is an admissible
index of the position array. -/
structure ExecutionReport where
  symbol : Slot
  side : Side
  execQty : ℕ
  execPrice : ℤ
  isFill : Bool
  deriving DecidableEq, Repr

/-- The fields of an UltraLOB order request that the pre-trade check reads. -/
structure OrderRequest where
  symbol : Symbol
  side : Side
  qty : ℕ
  deriving DecidableEq, Repr

end UltraBacktest
