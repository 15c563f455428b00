import UltraBacktest.Library.Program
import UltraBacktest.Model.Portfolio

/-! The exchange simulator over UltraLOB's matching engine. The engine is a parameter: the
simulator only calls it and takes its reports. -/

namespace UltraBacktest

open Interaction

/-- The configuration with the fields that the simulator reads. -/
structure ExchangeConfig extends BacktestConfig where
  symbols : List Symbol := []
  simulatedLatency : ℤ := 0
  orderPoolCapacity : ℕ := 1000000
  deriving DecidableEq, Repr

/-- UltraLOB's `OrderRequest`. The terms are the fields that are only passed on. -/
structure LobOrder (τ : Type) extends OrderRequest where
  timestamp : ℤ := 0
  terms : τ
  deriving DecidableEq, Repr

/-- UltraLOB's `ExecutionReport`, its symbol not yet used as an index. -/
structure LobReport where
  symbol : Symbol
  side : Side
  execQty : ℕ
  execPrice : ℤ
  isFill : Bool
  deriving DecidableEq, Repr

/-- The report with its symbol as an index. -/
def LobReport.at (rpt : LobReport) (s : Slot) : ExecutionReport where
  symbol := s
  side := rpt.side
  execQty := rpt.execQty
  execPrice := rpt.execPrice
  isFill := rpt.isFill

/-! ## The matching engine -/

inductive EngineCall (τ μ : Type) where
  | addSymbol (sym : Symbol)
  | submit (req : LobOrder τ)
  | cancel (sym : Symbol) (id : ℕ)
  | modify (sym : Symbol) (req : μ)

/-- What a call on the engine brings: its answer, which only `cancel` and `modify` have, the
reports that are called back before it returns, and the engine after it. -/
structure Outcome (ε : Type) where
  answer : Bool
  reports : List LobReport
  engine : ε

/-- UltraLOB's `MatchingEngine`. The argument of `new` is the capacity of the order pool. -/
structure MatchingEngine (ε τ μ : Type) where
  new : ℕ → ε
  call : EngineCall τ μ → ε → Outcome ε
  hasSymbol : ε → Symbol → Bool

/-! ## The simulator -/

/-- `on_execution` for a report of the engine; `none` where the position array is read out
of bounds or the average divides by zero. A report that is no fill is not looked at. The
amounts are exact integers here, and 64-bit values in `Machine.onReport`. -/
def Portfolio.onReport (p : Portfolio) (rpt : LobReport) : Option Portfolio :=
  if !rpt.isFill then some p
  else
    (slot? rpt.symbol).bind (fun s =>
      if rpt.execQty = 0 ∧ (p.positions s).netQty = 0 then none
      else some (p.onExecution (rpt.at s)))

/-- `portfolio` is what the simulator's pointer refers to, `none` for a null pointer. -/
structure ExchangeSimulator (ε : Type) where
  engine : ε
  portfolio : Option Portfolio
  currentTime : ℤ := 0

namespace ExchangeSimulator

variable {ε τ μ : Type}

/-- The constructor. -/
def new (lob : MatchingEngine ε τ μ) (config : ExchangeConfig) (portfolio : Option Portfolio) :
    ExchangeSimulator ε where
  engine := lob.new config.orderPoolCapacity
  portfolio := portfolio

def advanceTo (sim : ExchangeSimulator ε) (timestamp : ℤ) : ExchangeSimulator ε :=
  { sim with currentTime := timestamp }

def handleExecution (sim : ExchangeSimulator ε) (rpt : LobReport) :
    Option (ExchangeSimulator ε) :=
  match sim.portfolio with
  | none => some sim
  | some p => (p.onReport rpt).map (fun p => { sim with portfolio := some p })

/-- A call on the engine. Each report is handled as it comes, and handling does not touch
the engine. -/
def callEngine (lob : MatchingEngine ε τ μ) (sim : ExchangeSimulator ε)
    (c : EngineCall τ μ) : Option (Bool × ExchangeSimulator ε) :=
  let outcome := lob.call c sim.engine
  (outcome.reports.foldlM handleExecution { sim with engine := outcome.engine }).map
    (fun sim => (outcome.answer, sim))

/-- `initialize`: register the symbols of the configuration. -/
def initializeEngine (lob : MatchingEngine ε τ μ) (config : ExchangeConfig)
    (sim : ExchangeSimulator ε) : Option (ExchangeSimulator ε) :=
  config.symbols.foldlM (fun sim sym => (sim.callEngine lob (.addSymbol sym)).map Prod.snd) sim

/-- The order as `submit_order` passes it on: stamped with the simulated time unless the
strategy has done so, and delayed by the latency. The sum is exact here, and one of 64-bit
values in `Machine.adjustedReq`. -/
def adjustedReq (config : ExchangeConfig) (currentTime : ℤ) (req : LobOrder τ) : LobOrder τ :=
  let timestamp := if req.timestamp = 0 then currentTime else req.timestamp
  { req with timestamp := timestamp + config.simulatedLatency }

def submitOrder (lob : MatchingEngine ε τ μ) (config : ExchangeConfig)
    (sim : ExchangeSimulator ε) (req : LobOrder τ) : Option (ExchangeSimulator ε) :=
  (sim.callEngine lob (.submit (adjustedReq config sim.currentTime req))).map Prod.snd

def cancelOrder (lob : MatchingEngine ε τ μ) (sim : ExchangeSimulator ε) (sym : Symbol)
    (id : ℕ) : Option (Bool × ExchangeSimulator ε) :=
  sim.callEngine lob (.cancel sym id)

def modifyOrder (lob : MatchingEngine ε τ μ) (sim : ExchangeSimulator ε) (sym : Symbol)
    (req : μ) : Option (Bool × ExchangeSimulator ε) :=
  sim.callEngine lob (.modify sym req)

end ExchangeSimulator

/-! ## What a strategy can ask for -/

/-- The actions of the strategy base class, and its read access to the portfolio and to the
matching engine. -/
inductive Request (τ μ : Type) where
  | sendOrder (req : LobOrder τ)
  | cancelOrder (sym : Symbol) (id : ℕ)
  | modifyOrder (sym : Symbol) (req : μ)
  | portfolio
  | engine

/-- The strategy base class as an interface. -/
def exchangeInterface (ε τ μ : Type) : Interface where
  Request := Request τ μ
  Answer
    | .sendOrder _ => Unit
    | .cancelOrder _ _ => Bool
    | .modifyOrder _ _ => Bool
    | .portfolio => Option Portfolio
    | .engine => ε

def ExchangeSimulator.answer {ε τ μ : Type} (lob : MatchingEngine ε τ μ)
    (config : ExchangeConfig) : Handler (exchangeInterface ε τ μ) (ExchangeSimulator ε)
  | .sendOrder req, sim => (sim.submitOrder lob config req).map (fun sim => ((), sim))
  | .cancelOrder sym id, sim => sim.cancelOrder lob sym id
  | .modifyOrder sym req, sim => sim.modifyOrder lob sym req
  | .portfolio, sim => some (sim.portfolio, sim)
  | .engine, sim => some (sim.engine, sim)

end UltraBacktest
