import UltraBacktest.Model.Backtest
import UltraBacktest.Model.EventLayout

/-! The Python bindings: a strategy written in Python, the bridge that hands it the events,
and the runner that Python drives. -/

namespace UltraBacktest

open Interaction

/-- The fields of the configuration that Python can set; the others keep their defaults. -/
structure PyConfig where
  initialCash : ℤ
  symbols : List Symbol := []
  deriving DecidableEq, Repr

def PyConfig.toExchangeConfig (config : PyConfig) : ExchangeConfig where
  initialCash := config.initialCash
  symbols := config.symbols

/-- The fields of a tick that Python can read. -/
structure PyTickData where
  bestBid : ℤ
  bestAsk : ℤ
  bidQty : ℕ
  askQty : ℕ
  deriving DecidableEq, Repr

def TickData.toPython (tick : TickData) : PyTickData :=
  ⟨tick.bestBid, tick.bestAsk, tick.bidQty, tick.askQty⟩

/-- `PyStrategyBase` with the overrides of a Python class. A callback acts on the state of
the interpreter and may raise. -/
structure PyStrategyBase (π χ : Type*) where
  onTrade : ℤ → Symbol → TradeData → π → π × Option χ := fun _ _ _ p => (p, none)
  onTick : ℤ → Symbol → PyTickData → π → π × Option χ := fun _ _ _ p => (p, none)

section Bridge

variable {ε τ μ : Type} {π χ : Type*}

/-- A delegated callback. The state carries the exception that is on its way out of the loop,
behind which nothing is called. -/
def delegate (pyStrat : Option (PyStrategyBase π χ))
    (callback : PyStrategyBase π χ → π → π × Option χ) (state : π × Option χ) :
    π × Option χ :=
  match state.2, pyStrat with
  | none, some strat => callback strat state.1
  | _, _ => state

def cppBridgeStrategy (pyStrat : Option (PyStrategyBase π χ)) :
    ExchangeStrategy ε τ μ (π × Option χ) where
  onTrade ts sym trade state := .done (delegate pyStrat (·.onTrade ts sym trade) state)
  onTick ts sym tick state := .done (delegate pyStrat (·.onTick ts sym tick.toPython) state)

/-- What `run` throws. -/
inductive PyError (χ : Type*) where
  | runtimeError (what : String)
  | raised (e : χ)
  deriving DecidableEq, Repr

/-- The runner's copy of the configuration, and its simulator with its portfolio. -/
structure PythonBacktestRunner (ε : Type) where
  config : BacktestConfig
  sim : ExchangeSimulator ε

namespace PythonBacktestRunner

/-- The constructor. -/
def new (lob : MatchingEngine ε τ μ) (config : PyConfig) : PythonBacktestRunner ε where
  config := config.toExchangeConfig.toBacktestConfig
  sim := .new lob config.toExchangeConfig
    (some (Portfolio.init config.toExchangeConfig.toBacktestConfig))

/-- `run` on what `fopen` finds at the path: what it throws, the runner and the interpreter
after it. The simulator refers to the caller's configuration, whose present value is
`live`; the window is the one of the runner's copy. -/
def run (lob : MatchingEngine ε τ μ) (sides : SideCode) (pyStrat : Option (PyStrategyBase π χ))
    (fuel : ℕ) (live : PyConfig) (dataFile : Option (List UInt8))
    (runner : PythonBacktestRunner ε) (p : π) :
    Option (Option (PyError χ) × PythonBacktestRunner ε × π) :=
  (({} : BinaryReader 65536).doOpen dataFile).bind (fun (opened, reader) =>
    if !opened then some (some (.runtimeError "Failed to open data file"), runner, p)
    else
      (runner.sim.initializeEngine lob live.toExchangeConfig).bind (fun sim =>
        let world := ExchangeSimulator.answer lob live.toExchangeConfig
        let engine : ReplayEngine (EventReader sides 65536) _ :=
          ⟨⟨reader⟩, some ((p, none), sim), 0⟩
        (ReplayEngine.run runner.config ((cppBridgeStrategy pyStrat).onWorld world).dispatch
          fuel engine).bind (fun engine =>
            engine.strategy.map (fun ((p, e), sim) =>
              (e.map .raised, { runner with sim }, p)))))

def totalPnl {δ : Type*} (toDouble : ℤ → δ) (runner : PythonBacktestRunner ε) : Option δ :=
  runner.sim.portfolio.map (fun p => toDouble p.totalPnl)

end PythonBacktestRunner

end Bridge

end UltraBacktest
