import UltraBacktest.Model.Exchange
import UltraBacktest.Model.Replay

/-! A backtest: the replay loop drives a strategy that trades on the simulated exchange. -/

namespace UltraBacktest

open Interaction Stream

/-- The strategy base class. A callback is the program of requests that it makes, and its
result is the state of the strategy; a callback that is not overridden does nothing. -/
structure TradingStrategy (F : Interface.{0}) (σ : Type*) where
  onTick : ℤ → Symbol → TickData → σ → Program F σ := fun _ _ _ s => .done s
  onTrade : ℤ → Symbol → TradeData → σ → Program F σ := fun _ _ _ s => .done s
  onQuote : ℤ → Symbol → QuoteData → σ → Program F σ := fun _ _ _ s => .done s
  onOrderAdd : ℤ → Symbol → OrderAddData → σ → Program F σ := fun _ _ _ s => .done s
  onOrderCancel : ℤ → Symbol → OrderCancelData → σ → Program F σ := fun _ _ _ s => .done s
  onOrderModify : ℤ → Symbol → OrderModifyData → σ → Program F σ := fun _ _ _ s => .done s
  onOrderExecution : ℤ → Symbol → OrderExecutionData → σ → Program F σ :=
    fun _ _ _ s => .done s
  onTimer : ℤ → TimerData → σ → Program F σ := fun _ _ s => .done s
  onSessionStart : ℤ → σ → Program F σ := fun _ s => .done s
  onSessionEnd : ℤ → σ → Program F σ := fun _ s => .done s

namespace TradingStrategy

variable {F : Interface.{0}} {σ ω : Type*}

/-- A callback carried out on the world; nothing follows an undefined state. -/
def perform (handle : Handler F ω) (callback : σ → Program F σ) (state : Option (σ × ω)) :
    Option (σ × ω) :=
  state.bind (fun q => (callback q.1).run handle q.2)

/-- The strategy together with the world that answers it, as the dispatcher sees it. -/
def onWorld (strategy : TradingStrategy F σ) (handle : Handler F ω) :
    Strategy (Option (σ × ω)) where
  onTick ts sym tick := perform handle (strategy.onTick ts sym tick)
  onTrade ts sym trade := perform handle (strategy.onTrade ts sym trade)
  onQuote ts sym quote := perform handle (strategy.onQuote ts sym quote)
  onOrderAdd ts sym orderAdd := perform handle (strategy.onOrderAdd ts sym orderAdd)
  onOrderCancel ts sym orderCancel := perform handle (strategy.onOrderCancel ts sym orderCancel)
  onOrderModify ts sym orderModify := perform handle (strategy.onOrderModify ts sym orderModify)
  onOrderExecution ts sym execution :=
    perform handle (strategy.onOrderExecution ts sym execution)
  onTimer ts timer := perform handle (strategy.onTimer ts timer)
  onSessionStart ts := perform handle (strategy.onSessionStart ts)
  onSessionEnd ts := perform handle (strategy.onSessionEnd ts)

end TradingStrategy

/-- A strategy that trades on the simulated exchange. -/
abbrev ExchangeStrategy (ε τ μ : Type) (σ : Type*) := TradingStrategy (exchangeInterface ε τ μ) σ

/-- `initialize` on the simulator and `run` on a new replay engine. The strategy slot of the
result is `none` where the exchange would be undefined. -/
def backtest {ε τ μ : Type} {ρ σ : Type*} [Source ρ Event] (lob : MatchingEngine ε τ μ)
    (config : ExchangeConfig) (strategy : ExchangeStrategy ε τ μ σ) (fuel : ℕ) (reader : ρ)
    (s : σ) (sim : ExchangeSimulator ε) :
    Option (ReplayEngine ρ (Option (σ × ExchangeSimulator ε))) :=
  ReplayEngine.run config.toBacktestConfig
    (strategy.onWorld (ExchangeSimulator.answer lob config)).dispatch fuel
    ⟨reader, (sim.initializeEngine lob config).map (fun sim => (s, sim)), 0⟩

end UltraBacktest
