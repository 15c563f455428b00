import UltraBacktest.Library.Word64
import UltraBacktest.Model.Portfolio

/-! The portfolio engine in the arithmetic of the machine. Every operation of the source
on signed 64-bit values is checked, so a result is returned only if no intermediate value
overflowed and no division was by zero. Unsigned quantities wrap. -/

namespace UltraBacktest.Machine

open Word64

def compute (fm : FeeModel) (fillQty : ℕ) (isMaker : Bool) : Option ℤ := do
  let shareCost ← mul? fm.perShareFee (wrap fillQty)
  let exchangeFee ← if isMaker then neg? fm.makerRebate else some fm.takerFee
  let exchangeCost ← mul? exchangeFee (wrap fillQty)
  let cost ← add? shareCost exchangeCost
  add? cost fm.perTradeFee

def increaseLong (pos : Position) (qty execPrice : ℤ) : Option Position := do
  let held ← mul? pos.avgEntryPrice pos.netQty
  let bought ← mul? execPrice qty
  let totalCost ← add? held bought
  let netQty ← add? pos.netQty qty
  let avgEntryPrice ← div? totalCost netQty
  return { pos with netQty := netQty, avgEntryPrice := avgEntryPrice }

def closeShort (pos : Position) (cash qty execPrice : ℤ) : Option (Position × ℤ) := do
  let shortQty ← neg? pos.netQty
  let closingQty := min qty shortQty
  let gain ← sub? pos.avgEntryPrice execPrice
  let realized ← mul? gain closingQty
  let realizedPnl ← add? pos.realizedPnl realized
  let cash ← add? cash realized
  let netQty ← add? pos.netQty qty
  let avgEntryPrice :=
    if netQty > 0 then execPrice else if netQty = 0 then 0 else pos.avgEntryPrice
  return ({ pos with
      realizedPnl := realizedPnl
      netQty := netQty
      avgEntryPrice := avgEntryPrice }, cash)

def increaseShort (pos : Position) (qty execPrice : ℤ) : Option Position := do
  let shortQty ← neg? pos.netQty
  let held ← mul? pos.avgEntryPrice shortQty
  let sold ← mul? execPrice qty
  let totalValue ← add? held sold
  let netQty ← sub? pos.netQty qty
  let newShortQty ← neg? netQty
  let avgEntryPrice ← div? totalValue newShortQty
  return { pos with netQty := netQty, avgEntryPrice := avgEntryPrice }

def closeLong (pos : Position) (cash qty execPrice : ℤ) : Option (Position × ℤ) := do
  let closingQty := min qty pos.netQty
  let gain ← sub? execPrice pos.avgEntryPrice
  let realized ← mul? gain closingQty
  let realizedPnl ← add? pos.realizedPnl realized
  let cash ← add? cash realized
  let netQty ← sub? pos.netQty qty
  let avgEntryPrice :=
    if netQty < 0 then execPrice else if netQty = 0 then 0 else pos.avgEntryPrice
  return ({ pos with
      realizedPnl := realizedPnl
      netQty := netQty
      avgEntryPrice := avgEntryPrice }, cash)

def book (pos : Position) (cash : ℤ) (side : Side) (qty execPrice : ℤ) :
    Option (Position × ℤ) :=
  match side with
  | .buy =>
      if pos.netQty ≥ 0 then do
        let pos ← increaseLong pos qty execPrice
        return (pos, cash)
      else closeShort pos cash qty execPrice
  | .sell =>
      if pos.netQty ≤ 0 then do
        let pos ← increaseShort pos qty execPrice
        return (pos, cash)
      else closeLong pos cash qty execPrice

def mark (pos : Position) (lastPrice : ℤ) : Option Position := do
  let unrealizedPnl ←
    if pos.netQty > 0 then do
      let gain ← sub? lastPrice pos.avgEntryPrice
      mul? gain pos.netQty
    else if pos.netQty < 0 then do
      let gain ← sub? pos.avgEntryPrice lastPrice
      let shortQty ← neg? pos.netQty
      mul? gain shortQty
    else some 0
  return { pos with lastPrice := lastPrice, unrealizedPnl := unrealizedPnl }

/-- The unsigned counters wrap instead of overflowing. -/
def countFill (pos : Position) (qty execPrice : ℤ) : Position :=
  { pos with
    totalTraded := toWord (pos.totalTraded + qty)
    numTrades := pos.numTrades + 1
    lastPrice := execPrice }

def updateM2m (p : Portfolio) (sym : Slot) (lastPrice : ℤ) : Option Portfolio := do
  let pos ← mark (p.positions sym) lastPrice
  return { p with positions := Function.update p.positions sym pos }

def onExecution (p : Portfolio) (rpt : ExecutionReport) : Option Portfolio :=
  if !rpt.isFill then some p
  else do
    let pos := p.positions rpt.symbol
    let fee ← compute p.config.feeModel rpt.execQty false
    let cash ← sub? p.cash fee
    let qty := wrap rpt.execQty
    let (pos, cash) ← book pos cash rpt.side qty rpt.execPrice
    let pos := countFill pos qty rpt.execPrice
    updateM2m { p with cash := cash, positions := Function.update p.positions rpt.symbol pos }
      rpt.symbol rpt.execPrice

def totalPnl (p : Portfolio) : Option ℤ :=
  (List.finRange maxSymbols).foldlM
    (fun total i =>
      if (p.positions i).numTrades > 0 ∨ (p.positions i).netQty ≠ 0 then do
        let pnl ← add? (p.positions i).realizedPnl (p.positions i).unrealizedPnl
        add? total pnl
      else some total) 0

def totalEquity (p : Portfolio) : Option ℤ := do
  let pnl ← totalPnl p
  add? p.cash pnl

def step (p : Portfolio) : Step → Option Portfolio
  | .report rpt => onExecution p rpt
  | .mark sym lastPrice => updateM2m p sym lastPrice

def run (p : Portfolio) (steps : List Step) : Option Portfolio := steps.foldlM step p

end UltraBacktest.Machine
