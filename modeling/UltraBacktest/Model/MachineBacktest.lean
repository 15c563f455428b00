import UltraBacktest.Model.Backtest
import UltraBacktest.Model.Machine

/-! A backtest in the arithmetic of the machine. The simulator does what it does in exact
arithmetic, with the portfolio and the time stamps in signed 64-bit values: a result is
returned only if no operation has overflowed. -/

namespace UltraBacktest.Machine

open Word64 Interaction Stream

variable {ε τ μ : Type}

/-- `on_execution` for a report of the engine. -/
def onReport (p : Portfolio) (rpt : LobReport) : Option Portfolio :=
  if !rpt.isFill then some p
  else (slot? rpt.symbol).bind (fun s => onExecution p (rpt.at s))

def handleExecution (sim : ExchangeSimulator ε) (rpt : LobReport) :
    Option (ExchangeSimulator ε) :=
  match sim.portfolio with
  | none => some sim
  | some p => (onReport p rpt).map (fun p => { sim with portfolio := some p })

def callEngine (lob : MatchingEngine ε τ μ) (sim : ExchangeSimulator ε)
    (c : EngineCall τ μ) : Option (Bool × ExchangeSimulator ε) :=
  let outcome := lob.call c sim.engine
  (outcome.reports.foldlM handleExecution { sim with engine := outcome.engine }).map
    (fun sim => (outcome.answer, sim))

def initializeEngine (lob : MatchingEngine ε τ μ) (config : ExchangeConfig)
    (sim : ExchangeSimulator ε) : Option (ExchangeSimulator ε) :=
  config.symbols.foldlM (fun sim sym => (callEngine lob sim (.addSymbol sym)).map Prod.snd) sim

/-- The sum of the stamp and the latency may overflow. -/
def adjustedReq (config : ExchangeConfig) (currentTime : ℤ) (req : LobOrder τ) :
    Option (LobOrder τ) := do
  let timestamp := if req.timestamp = 0 then currentTime else req.timestamp
  let timestamp ← add? timestamp config.simulatedLatency
  return { req with timestamp := timestamp }

def submitOrder (lob : MatchingEngine ε τ μ) (config : ExchangeConfig)
    (sim : ExchangeSimulator ε) (req : LobOrder τ) : Option (ExchangeSimulator ε) := do
  let adjusted ← adjustedReq config sim.currentTime req
  let r ← callEngine lob sim (.submit adjusted)
  return r.2

def answer (lob : MatchingEngine ε τ μ) (config : ExchangeConfig) :
    Handler (exchangeInterface ε τ μ) (ExchangeSimulator ε)
  | .sendOrder req, sim => (submitOrder lob config sim req).map (fun sim => ((), sim))
  | .cancelOrder sym id, sim => callEngine lob sim (.cancel sym id)
  | .modifyOrder sym req, sim => callEngine lob sim (.modify sym req)
  | .portfolio, sim => some (sim.portfolio, sim)
  | .engine, sim => some (sim.engine, sim)

/-- A backtest with a record of the requests and their answers. -/
def recordedBacktest {ρ σ : Type*} [Source ρ Event] (lob : MatchingEngine ε τ μ)
    (config : ExchangeConfig) (strategy : ExchangeStrategy ε τ μ σ) (fuel : ℕ) (reader : ρ)
    (s : σ) (sim : ExchangeSimulator ε) :
    Option (ReplayEngine ρ
      (Option (σ × ExchangeSimulator ε × List (exchangeInterface ε τ μ).Event))) :=
  ReplayEngine.run config.toBacktestConfig
    (strategy.onWorld (Program.recorded (answer lob config))).dispatch fuel
    ⟨reader, (initializeEngine lob config sim).map (fun sim => (s, sim, [])), 0⟩

end UltraBacktest.Machine
