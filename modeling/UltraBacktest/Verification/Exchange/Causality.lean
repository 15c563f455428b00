import UltraBacktest.Verification.Exchange.Settlement
import UltraBacktest.Verification.Replay.EndOfData

/-! No look-ahead. The loop holds the event after the current one, but nothing of it reaches
the strategy: what is asked and answered for the first events of a stream is settled by them. -/

namespace UltraBacktest

open Interaction Stream

variable {ε τ μ : Type} {ρ ρ' σ : Type*} [Source ρ Event] [Source ρ' Event]

/-- A defined session of more events is defined on the first of them, and its trace goes on
from the trace there. -/
theorem TradingStrategy.session_take {lob : MatchingEngine ε τ μ} {config : ExchangeConfig}
    {strategy : ExchangeStrategy ε τ μ σ} {xs ys : List Event} {s : σ}
    {sim : ExchangeSimulator ε} {r : σ × ExchangeSimulator ε}
    (h : (strategy.session (xs ++ ys) s).run (ExchangeSimulator.answer lob config) sim = some r) :
    ∃ q, (strategy.session xs s).run (ExchangeSimulator.answer lob config) sim = some q ∧
      (strategy.session ys q.1).run (ExchangeSimulator.answer lob config) q.2 = some r ∧
      (strategy.session (xs ++ ys) s).trace (ExchangeSimulator.answer lob config) sim =
        (strategy.session xs s).trace (ExchangeSimulator.answer lob config) sim ++
          (strategy.session ys q.1).trace (ExchangeSimulator.answer lob config) q.2 := by
  rw [session, Program.each_append, Program.run_bind] at h
  obtain ⟨q, hfront, hrest⟩ := Option.bind_eq_some_iff.mp h
  refine ⟨q, hfront, hrest, ?_⟩
  rw [session, Program.each_append, Program.trace_bind, hfront]
  rfl

/-- A backtest on the first events of a stream makes the requests, and gets the answers, that
every backtest on the whole stream begins with. -/
theorem backtest_no_look_ahead (lob : MatchingEngine ε τ μ) (config : ExchangeConfig)
    (strategy : ExchangeStrategy ε τ μ σ) (s : σ) (sim : ExchangeSimulator ε) {reader : ρ}
    {reader' : ρ'} {es : List Event} {k : ℕ} (hes : Delivers reader es)
    (hfront : Delivers reader' (es.take k)) {fuel : ℕ} (hfuel : es.length < fuel) :
    ∃ after front, recordedBacktest lob config strategy fuel reader s sim = some after ∧
      recordedBacktest lob config strategy fuel reader' s sim = some front ∧
      ∀ s' sim' log, after.strategy = some (s', sim', log) →
        ∃ s₁ sim₁ log₁, front.strategy = some (s₁, sim₁, log₁) ∧ log₁ <+: log := by
  have hfuel' : (es.take k).length < fuel := (List.length_take_le' k es).trans_lt hfuel
  obtain ⟨after, hrun, hcases⟩ := recordedBacktest_cases lob config strategy s sim hes hfuel
  obtain ⟨front, hrun', hsession⟩ :=
    recordedBacktest_eq_session lob config strategy s sim hfront hfuel'
  refine ⟨after, front, hrun, hrun', ?_⟩
  intro s' sim' log hafter
  obtain ⟨sim₀, hinit, hwhole, rfl⟩ := hcases s' sim' log hafter
  rw [ReplayEngine.dispatched_take config.toBacktestConfig es k] at hwhole ⊢
  obtain ⟨q, hq, -, htrace⟩ := TradingStrategy.session_take hwhole
  rw [hinit, Option.bind_some, hq] at hsession
  refine ⟨q.1, q.2, _, hsession, ?_⟩
  rw [htrace]
  exact List.prefix_append _ _

/-- What the self-trader does for the first of two trades, whatever the second is. -/
theorem backtest_no_look_ahead_second_trade :
    ∃ after s' sim' log, recordedBacktest crossingBook selfTradeConfig selfTrader 3
        (⟨[Event.makeTrade 5 1 100 2 .buy, Event.makeTrade 6 1 90 1 .sell], 0⟩ : MemoryReader) []
        selfTradeStart = some after ∧
      after.strategy = some (s', sim', log) ∧
      [.addSymbol 1, .submit ⟨⟨1, .buy, 2⟩, 7, 1, 100⟩, .submit ⟨⟨1, .sell, 2⟩, 12, 2, 100⟩] <+:
        backtestCalls selfTradeConfig selfTradeStart log := by
  obtain ⟨after, front, hrun, hrun', hprefix⟩ := backtest_no_look_ahead crossingBook
    selfTradeConfig selfTrader [] selfTradeStart (k := 1)
    (MemoryReader.delivers [Event.makeTrade 5 1 100 2 .buy, Event.makeTrade 6 1 90 1 .sell] 0)
    (MemoryReader.delivers [Event.makeTrade 5 1 100 2 .buy] 0) (by decide : _ < 3)
  have hdefined : ∃ s' sim' log, after.strategy = some (s', sim', log) := by
    obtain rfl := Option.some.inj hrun
    exact ⟨_, _, _, rfl⟩
  obtain ⟨s', sim', log, hafter⟩ := hdefined
  refine ⟨after, s', sim', log, hrun, hafter, ?_⟩
  obtain ⟨s₁, sim₁, log₁, hfirst, rest, rfl⟩ := hprefix s' sim' log hafter
  have hcalls : backtestCalls selfTradeConfig selfTradeStart log₁ =
      [.addSymbol 1, .submit ⟨⟨1, .buy, 2⟩, 7, 1, 100⟩,
        .submit ⟨⟨1, .sell, 2⟩, 12, 2, 100⟩] := by
    obtain rfl := Option.some.inj hrun'
    cases hfirst
    rfl
  rw [← hcalls, backtestCalls, backtestCalls, engineCalls, engineCalls, List.filterMap_append,
    ← List.append_assoc]
  exact List.prefix_append _ _

end UltraBacktest
