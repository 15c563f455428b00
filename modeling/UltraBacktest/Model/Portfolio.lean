import UltraBacktest.Model.Types
import Mathlib.Logic.Function.Basic

/-! The portfolio engine in exact integer arithmetic. Only the trade counter keeps
its machine width, because the total reads it as a flag. -/

namespace UltraBacktest

structure Position where
  symbol : Symbol := 0
  /-- Positive when long, negative when short. -/
  netQty : ℤ := 0
  avgEntryPrice : ℤ := 0
  realizedPnl : ℤ := 0
  unrealizedPnl : ℤ := 0
  totalTraded : ℕ := 0
  numTrades : UInt32 := 0
  lastPrice : ℤ := 0
  deriving DecidableEq, Repr

namespace Position

/-! ## The four booking branches

Each branch returns the new position and the amount credited to cash. -/

/-- A buy while flat or long averages the entry price, truncating toward zero. -/
def increaseLong (pos : Position) (qty : ℤ) (execPrice : ℤ) : Position :=
  let totalCost := pos.avgEntryPrice * pos.netQty + execPrice * qty
  let netQty := pos.netQty + qty
  { pos with netQty := netQty, avgEntryPrice := totalCost.tdiv netQty }

/-- A buy while short realizes the closed part and may flip the position to long. -/
def closeShort (pos : Position) (qty : ℤ) (execPrice : ℤ) : Position × ℤ :=
  let closingQty := min qty (-pos.netQty)
  let realized := (pos.avgEntryPrice - execPrice) * closingQty
  let netQty := pos.netQty + qty
  let avgEntryPrice :=
    if netQty > 0 then execPrice
    else if netQty = 0 then 0
    else pos.avgEntryPrice
  ({ pos with
      realizedPnl := pos.realizedPnl + realized
      netQty := netQty
      avgEntryPrice := avgEntryPrice }, realized)

/-- A sell while flat or short averages the entry price, truncating toward zero. -/
def increaseShort (pos : Position) (qty : ℤ) (execPrice : ℤ) : Position :=
  let totalValue := pos.avgEntryPrice * -pos.netQty + execPrice * qty
  let netQty := pos.netQty - qty
  { pos with netQty := netQty, avgEntryPrice := totalValue.tdiv (-netQty) }

/-- A sell while long realizes the closed part and may flip the position to short. -/
def closeLong (pos : Position) (qty : ℤ) (execPrice : ℤ) : Position × ℤ :=
  let closingQty := min qty pos.netQty
  let realized := (execPrice - pos.avgEntryPrice) * closingQty
  let netQty := pos.netQty - qty
  let avgEntryPrice :=
    if netQty < 0 then execPrice
    else if netQty = 0 then 0
    else pos.avgEntryPrice
  ({ pos with
      realizedPnl := pos.realizedPnl + realized
      netQty := netQty
      avgEntryPrice := avgEntryPrice }, realized)

/-- The branch taken by a fill. Increasing branches leave cash alone. -/
def book (pos : Position) (side : Side) (qty : ℤ) (execPrice : ℤ) :
    Position × ℤ :=
  match side with
  | .buy =>
      if pos.netQty ≥ 0 then (pos.increaseLong qty execPrice, 0)
      else pos.closeShort qty execPrice
  | .sell =>
      if pos.netQty ≤ 0 then (pos.increaseShort qty execPrice, 0)
      else pos.closeLong qty execPrice

/-- Mark to market at a last price. -/
def mark (pos : Position) (lastPrice : ℤ) : Position :=
  { pos with
    lastPrice := lastPrice
    unrealizedPnl :=
      if pos.netQty > 0 then (lastPrice - pos.avgEntryPrice) * pos.netQty
      else if pos.netQty < 0 then (pos.avgEntryPrice - lastPrice) * -pos.netQty
      else 0 }

/-- The bookkeeping after the branches of a fill. -/
def countFill (pos : Position) (qty : ℕ) (execPrice : ℤ) : Position :=
  { pos with
    totalTraded := pos.totalTraded + qty
    numTrades := pos.numTrades + 1
    lastPrice := execPrice }

/-- Everything a fill does to its own position. -/
def fill (pos : Position) (rpt : ExecutionReport) : Position :=
  (((pos.book rpt.side rpt.execQty rpt.execPrice).1).countFill rpt.execQty
    rpt.execPrice).mark rpt.execPrice

/-- The amount a fill credits to cash besides its fee. -/
def realizedBy (pos : Position) (rpt : ExecutionReport) : ℤ :=
  (pos.book rpt.side rpt.execQty rpt.execPrice).2

end Position

structure Portfolio where
  config : BacktestConfig
  cash : ℤ
  positions : Slot → Position

namespace Portfolio

/-- The constructor: initial cash and one flat position in every slot. -/
def init (config : BacktestConfig) : Portfolio where
  config := config
  cash := config.initialCash
  positions := fun s => { symbol := UInt32.ofNat s.val }

/-- `get_position` indexes without a check; `none` is an access outside the array. -/
def getPosition (p : Portfolio) (sym : Symbol) : Option Position :=
  (slot? sym).map p.positions

def updateM2m (p : Portfolio) (sym : Slot) (lastPrice : ℤ) : Portfolio :=
  { p with positions :=
      Function.update p.positions sym ((p.positions sym).mark lastPrice) }

/-- Process a report of the exchange simulator. Every fill is charged as a taker. -/
def onExecution (p : Portfolio) (rpt : ExecutionReport) : Portfolio :=
  if !rpt.isFill then p
  else
    let pos := p.positions rpt.symbol
    let fee := p.config.feeModel.compute rpt.execQty false
    let cash := p.cash - fee
    let (pos, realized) := pos.book rpt.side rpt.execQty rpt.execPrice
    let cash := cash + realized
    let pos := pos.countFill rpt.execQty rpt.execPrice
    updateM2m { p with cash := cash, positions := Function.update p.positions rpt.symbol pos }
      rpt.symbol rpt.execPrice

/-- The summation loop skips positions that look untouched. -/
def totalPnl (p : Portfolio) : ℤ :=
  (List.finRange maxSymbols).foldl
    (fun total i =>
      if (p.positions i).numTrades > 0 ∨ (p.positions i).netQty ≠ 0 then
        total + ((p.positions i).realizedPnl + (p.positions i).unrealizedPnl)
      else total) 0

def totalEquity (p : Portfolio) : ℤ := p.cash + p.totalPnl

end Portfolio

/-! ## Runs -/

/-- The two calls that change a portfolio. -/
inductive Step where
  | report (rpt : ExecutionReport)
  | mark (sym : Slot) (lastPrice : ℤ)
  deriving DecidableEq, Repr

/-- The report of a step that is a fill. -/
def Step.fill? : Step → Option ExecutionReport
  | .report rpt => if rpt.isFill then some rpt else none
  | .mark _ _ => none

/-- Every fill moves at least one unit. -/
def Step.Positive (st : Step) : Prop := ∀ rpt ∈ st.fill?, 1 ≤ rpt.execQty

instance (st : Step) : Decidable st.Positive :=
  inferInstanceAs (Decidable (∀ rpt ∈ st.fill?, 1 ≤ rpt.execQty))

def Portfolio.step (p : Portfolio) : Step → Portfolio
  | .report rpt => p.onExecution rpt
  | .mark sym lastPrice => p.updateM2m sym lastPrice

def Portfolio.run (p : Portfolio) (steps : List Step) : Portfolio :=
  steps.foldl Portfolio.step p

/-- The fills of a run, in order. -/
def fills (steps : List Step) : List ExecutionReport := steps.filterMap Step.fill?

/-- The fills of a run on one symbol, in order. -/
def fillsOn (s : Slot) (steps : List Step) : List ExecutionReport :=
  (fills steps).filter (fun rpt => rpt.symbol = s)

end UltraBacktest
