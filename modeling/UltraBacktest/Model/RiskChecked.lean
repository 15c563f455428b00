import UltraBacktest.Model.Backtest
import UltraBacktest.Model.Risk

/-! A strategy with a risk engine on the simulator's portfolio. The source leaves it to the
strategy to ask the risk engine; here it does so before every order, as the comment of the risk
engine has it, and an order goes on to the simulator only if the check approves it. -/

namespace UltraBacktest

open Interaction Stream

/-- What a strategy asks of the exchange and of its risk engine. -/
inductive RiskRequest (τ μ : Type) where
  | sendOrder (req : LobOrder τ)
  | checkPreTrade (req : LobOrder τ)
  | triggerKillSwitch
  | isKilled
  | cancelOrder (sym : Symbol) (id : ℕ)
  | modifyOrder (sym : Symbol) (req : μ)
  | portfolio
  | engine

/-- The answer to an order is the answer of its check. -/
def riskInterface (ε τ μ : Type) : Interface where
  Request := RiskRequest τ μ
  Answer
    | .sendOrder _ => RiskRejectReason
    | .checkPreTrade _ => RiskRejectReason
    | .triggerKillSwitch => Unit
    | .isKilled => Bool
    | .cancelOrder _ _ => Bool
    | .modifyOrder _ _ => Bool
    | .portfolio => Option Portfolio
    | .engine => ε

namespace RiskEngine

variable {ε τ μ : Type}

/-- Check the order, and route it to the simulator if the check approves it. -/
def sendChecked (lob : MatchingEngine ε τ μ) (config : ExchangeConfig) (req : LobOrder τ)
    (risk : RiskEngine) (sim : ExchangeSimulator ε) :
    Option (RiskRejectReason × RiskEngine × ExchangeSimulator ε) :=
  (risk.checkPreTrade sim.portfolio req.toOrderRequest).bind (fun (reason, risk) =>
    if reason = .none then
      (sim.submitOrder lob config req).map (fun sim => (reason, risk, sim))
    else some (reason, risk, sim))

def answer (lob : MatchingEngine ε τ μ) (config : ExchangeConfig) :
    Handler (riskInterface ε τ μ) (RiskEngine × ExchangeSimulator ε)
  | .sendOrder req, (risk, sim) => risk.sendChecked lob config req sim
  | .checkPreTrade req, (risk, sim) =>
      (risk.checkPreTrade sim.portfolio req.toOrderRequest).map (fun (reason, risk) =>
        (reason, risk, sim))
  | .triggerKillSwitch, (risk, sim) => some ((), risk.triggerKillSwitch, sim)
  | .isKilled, (risk, sim) => some (risk.killed, risk, sim)
  | .cancelOrder sym id, (risk, sim) =>
      (sim.cancelOrder lob sym id).map (fun (done, sim) => (done, risk, sim))
  | .modifyOrder sym req, (risk, sim) =>
      (sim.modifyOrder lob sym req).map (fun (done, sim) => (done, risk, sim))
  | .portfolio, (risk, sim) => some (sim.portfolio, risk, sim)
  | .engine, (risk, sim) => some (sim.engine, risk, sim)

end RiskEngine

/-- A backtest of such a strategy, with a record of its requests and their answers. -/
def riskCheckedBacktest {ε τ μ : Type} {ρ σ : Type*} [Source ρ Event]
    (lob : MatchingEngine ε τ μ) (config : ExchangeConfig)
    (strategy : TradingStrategy (riskInterface ε τ μ) σ) (fuel : ℕ) (reader : ρ) (s : σ)
    (risk : RiskEngine) (sim : ExchangeSimulator ε) :
    Option (ReplayEngine ρ (Option
      (σ × (RiskEngine × ExchangeSimulator ε) × List (riskInterface ε τ μ).Event))) :=
  ReplayEngine.run config.toBacktestConfig
    (strategy.onWorld (Program.recorded (RiskEngine.answer lob config))).dispatch fuel
    ⟨reader, (sim.initializeEngine lob config).map (fun sim => (s, (risk, sim), [])), 0⟩

end UltraBacktest
