import UltraBacktest.Verification.Exchange.Settlement
import UltraBacktest.Verification.Portfolio.Equity
import UltraBacktest.Verification.Portfolio.Ledger

/-! The accounts of a backtest. Nothing in a backtest marks a position but its own fills, so
that an open position is carried at the price of its last fill, whatever the market does. -/

namespace UltraBacktest

open Stream

/-! ## One symbol -/

namespace Position

theorem foldl_step_netQty (s : Slot) (steps : List Step) (pos : Position) :
    (steps.foldl (step s) pos).netQty =
      pos.netQty + ((fillsOn s steps).map (fun rpt => rpt.side.sign * (rpt.execQty : ℤ))).sum := by
  induction steps generalizing pos with
  | nil => simp [fillsOn, fills]
  | cons st steps ih =>
      rw [List.foldl_cons, ih, fillsOn_cons, List.map_append, List.sum_append, ← add_assoc]
      congr 1
      obtain ⟨hnone, hstep | ⟨lastPrice, hstep⟩⟩ | ⟨rpt, hsome, -, -, hstep⟩ :=
        step_cases s pos st
      · simp [hstep, hnone]
      · simp [hstep, hnone]
      · simp [hstep, hsome]

theorem foldl_step_totalTraded (s : Slot) (steps : List Step) (pos : Position) :
    (steps.foldl (step s) pos).totalTraded =
      pos.totalTraded + ((fillsOn s steps).map ExecutionReport.execQty).sum := by
  induction steps generalizing pos with
  | nil => simp [fillsOn, fills]
  | cons st steps ih =>
      rw [List.foldl_cons, ih, fillsOn_cons, List.map_append, List.sum_append, ← add_assoc]
      congr 1
      obtain ⟨hnone, hstep | ⟨lastPrice, hstep⟩⟩ | ⟨rpt, hsome, -, -, hstep⟩ :=
        step_cases s pos st
      · simp [hstep, hnone]
      · simp [hstep, hnone]
      · simp [hstep, hsome]

/-- Without marks the last price is that of the last fill. -/
theorem foldl_step_lastPrice (s : Slot) (rpts : List ExecutionReport) (pos : Position) :
    ((rpts.map Step.report).foldl (step s) pos).lastPrice =
      (fillsOn s (rpts.map Step.report)).getLast?.elim pos.lastPrice
        ExecutionReport.execPrice := by
  induction rpts generalizing pos with
  | nil => rfl
  | cons rpt rpts ih =>
      rw [List.map_cons, List.foldl_cons, ih, fillsOn_cons, List.getLast?_append]
      -- A later fill on the symbol hides this step.
      cases (fillsOn s (rpts.map Step.report)).getLast? with
      | some last => rfl
      | none =>
          by_cases hfill : rpt.isFill ∧ rpt.symbol = s
          · simp [step, hfill, Step.fill?, Option.filter]
          · have hnone : (Step.report rpt).fill?.filter (fun rpt => rpt.symbol = s) = none := by
              rw [Step.fill?]
              split_ifs with h
              · simpa [Option.filter, h] using hfill
              · rfl
            rw [step, if_neg hfill, hnone]
            rfl

end Position

/-! ## All symbols -/

/-- What the books of a portfolio say about the steps that it has gone through. -/
structure Accounts (config : BacktestConfig) (steps : List Step) (p : Portfolio) : Prop where
  netQty_eq : ∀ s, (p.positions s).netQty =
    ((fillsOn s steps).map (fun rpt => rpt.side.sign * (rpt.execQty : ℤ))).sum
  totalTraded_eq : ∀ s, (p.positions s).totalTraded =
    ((fillsOn s steps).map ExecutionReport.execQty).sum
  /-- Every position is valued at its own last fill. -/
  lastPrice_eq : ∀ s, (p.positions s).lastPrice =
    (fillsOn s steps).getLast?.elim 0 ExecutionReport.execPrice
  unrealizedPnl_eq : ∀ s, (p.positions s).Marked
  pnl_eq : ∀ s, (p.positions s).realizedPnl + (p.positions s).unrealizedPnl =
    cashFlowPnl (p.positions s) (fillsOn s steps) +
      rounding (bookings (Portfolio.init config) s steps)
  cash_eq : p.cash =
    config.initialCash - feesCharged config.feeModel steps + ∑ s, (p.positions s).realizedPnl

theorem accounts_of_reports (config : BacktestConfig) (rpts : List ExecutionReport) :
    Accounts config (rpts.map Step.report)
      ((Portfolio.init config).run (rpts.map Step.report)) := by
  constructor
  · intro s
    rw [Portfolio.run_positions, Position.foldl_step_netQty]
    exact zero_add _
  · intro s
    rw [Portfolio.run_positions, Position.foldl_step_totalTraded]
    exact Nat.zero_add _
  · intro s
    rw [Portfolio.run_positions, Position.foldl_step_lastPrice]
    rfl
  · intro s
    exact Position.marked_run (by simp [Position.Marked, Portfolio.init]) _
  · intro s
    exact pnl_eq_cashFlowPnl_add_rounding config s _
  · exact Portfolio.run_init_cash config _

variable {ε τ μ : Type} {ρ σ : Type*} [Source ρ Event]

/-- The portfolio of a backtest accounts for the fills that the engine reported, and for
nothing else. -/
theorem backtest_accounts (lob : MatchingEngine ε τ μ) (config : ExchangeConfig)
    (strategy : ExchangeStrategy ε τ μ σ) (s : σ) {reader : ρ} {es : List Event}
    (hes : Delivers reader es) {fuel : ℕ} (hfuel : es.length < fuel) :
    let start := ExchangeSimulator.new lob config (some (Portfolio.init config.toBacktestConfig))
    ∃ after, recordedBacktest lob config strategy fuel reader s start = some after ∧
      ∀ s' sim' log, after.strategy = some (s', sim', log) → ∃ p, sim'.portfolio = some p ∧
        Accounts config.toBacktestConfig
          ((booked (lob.reports start.engine (backtestCalls config start log))).map Step.report)
          p := by
  intro start
  obtain ⟨after, hrun, -⟩ := recordedBacktest_exchanges lob config strategy s start hes hfuel
  refine ⟨after, hrun, ?_⟩
  intro s' sim' log hafter
  have hsettled := settled_of_recordedBacktest lob config strategy s start hes hfuel hrun hafter
  exact ⟨_, hsettled.portfolio_eq, accounts_of_reports _ _⟩

/-- After the self-trade the position is flat and carried at the price of the trade. -/
theorem backtest_accounts_self_trade :
    ∃ after s' sim' log p, recordedBacktest crossingBook selfTradeConfig selfTrader 2
        (⟨[Event.makeTrade 5 1 100 2 .buy], 0⟩ : MemoryReader) [] selfTradeStart = some after ∧
      after.strategy = some (s', sim', log) ∧ sim'.portfolio = some p ∧
      (p.positions 1).netQty = 0 ∧ (p.positions 1).totalTraded = 4 ∧
      (p.positions 1).lastPrice = 100 := by
  obtain ⟨after, hrun, haccounts⟩ := backtest_accounts crossingBook selfTradeConfig selfTrader []
    (MemoryReader.delivers [Event.makeTrade 5 1 100 2 .buy] 0) (by decide : _ < 2)
  have hdefined : ∃ s' sim' log, after.strategy = some (s', sim', log) ∧
      backtestCalls selfTradeConfig selfTradeStart log =
        [.addSymbol 1, .submit ⟨⟨1, .buy, 2⟩, 7, 1, 100⟩,
          .submit ⟨⟨1, .sell, 2⟩, 12, 2, 100⟩] := by
    obtain rfl := Option.some.inj hrun
    exact ⟨_, _, _, rfl, rfl⟩
  obtain ⟨s', sim', log, hafter, hcalls⟩ := hdefined
  obtain ⟨p, hp, hbooks⟩ := haccounts s' sim' log hafter
  rw [← selfTradeStart, hcalls] at hbooks
  refine ⟨after, s', sim', log, p, hrun, hafter, hp, ?_, ?_, ?_⟩
  · exact (hbooks.netQty_eq 1).trans (by decide)
  · exact (hbooks.totalTraded_eq 1).trans (by decide)
  · exact (hbooks.lastPrice_eq 1).trans (by decide)

end UltraBacktest
