import UltraBacktest.Model.Types

/-! The event record. The source stores a type code next to a union; here the payload
is carried by the constructor of the type that reads it, and the codes whose payload
nothing reads carry none. -/

namespace UltraBacktest

structure TickData where
  bestBid : ℤ
  bestAsk : ℤ
  bidQty : ℕ
  askQty : ℕ
  lastPrice : ℤ
  lastQty : ℕ
  deriving DecidableEq, Repr

structure TradeData where
  price : ℤ
  qty : ℕ
  aggressorSide : Side
  deriving DecidableEq, Repr

structure QuoteData where
  bestBid : ℤ
  bestAsk : ℤ
  bidQty : ℕ
  askQty : ℕ
  deriving DecidableEq, Repr

structure OrderAddData where
  orderId : ℕ
  price : ℤ
  qty : ℕ
  side : Side
  deriving DecidableEq, Repr

structure OrderCancelData where
  orderId : ℕ
  deriving DecidableEq, Repr

structure OrderModifyData where
  orderId : ℕ
  newPrice : ℤ
  newQty : ℕ
  deriving DecidableEq, Repr

structure OrderExecutionData where
  orderId : ℕ
  execPrice : ℤ
  execQty : ℕ
  leavesQty : ℕ
  side : Side
  deriving DecidableEq, Repr

structure TimerData where
  strategyId : UInt32
  timerId : UInt32
  deriving DecidableEq, Repr

inductive EventBody where
  | marketTick (tick : TickData)
  | trade (trade : TradeData)
  | quote (quote : QuoteData)
  | orderAdd (orderAdd : OrderAddData)
  | orderCancel (orderCancel : OrderCancelData)
  | orderModify (orderModify : OrderModifyData)
  | orderExecution (orderExecution : OrderExecutionData)
  | strategyTimer (timer : TimerData)
  | barClose
  | sessionStart
  | sessionEnd
  | endOfData
  /-- A code outside the enumeration, as a binary file may hold. -/
  | unknown (code : UInt8)
  deriving DecidableEq, Repr

structure Event where
  timestamp : ℤ := 0
  symbol : Symbol := 0
  body : EventBody := .endOfData
  deriving DecidableEq, Repr

/-- The default constructor. -/
instance : Inhabited Event := ⟨{}⟩

def Event.makeTrade (ts : ℤ) (sym : Symbol) (p : ℤ) (q : ℕ) (s : Side) : Event where
  timestamp := ts
  symbol := sym
  body := .trade { price := p, qty := q, aggressorSide := s }

end UltraBacktest
