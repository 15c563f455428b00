import UltraBacktest.Model.MachineBacktest
import UltraBacktest.Verification.Exchange.Clock
import UltraBacktest.Verification.Portfolio.Overflow

/-! A backtest in 64 bits against the backtest in exact arithmetic. What the engine fills and
the stamps of the orders decide whether the machine has the range for a backtest; within it
the strategy cannot tell the two apart. -/

namespace UltraBacktest

open Interaction Stream Word64

variable {ε τ μ : Type} {ρ σ : Type*} [Source ρ Event]

/-! ## The range of a backtest -/

/-- The fills of these calls have prices up to `P` and a volume up to `Q`, and the stamps of
the orders fit. -/
structure WithinRange (lob : MatchingEngine ε τ μ) (P Q : ℕ) (e : ε)
    (calls : List (EngineCall τ μ)) : Prop where
  positive : ∀ rpt ∈ booked (lob.reports e calls), 1 ≤ rpt.execQty
  price : ∀ rpt ∈ booked (lob.reports e calls), |rpt.execPrice| ≤ P
  volume : ((booked (lob.reports e calls)).map ExecutionReport.execQty).sum ≤ Q
  times : ∀ t ∈ orderTimes calls, Fits t

theorem WithinRange.of_append {lob : MatchingEngine ε τ μ} {P Q : ℕ} {e : ε}
    {xs ys : List (EngineCall τ μ)} (h : WithinRange lob P Q e (xs ++ ys)) :
    WithinRange lob P Q e xs := by
  obtain ⟨hpositive, hprice, hvolume, htimes⟩ := h
  rw [lob.reports_append, booked_append] at hpositive hprice hvolume
  rw [orderTimes_append] at htimes
  refine ⟨?_, ?_, ?_, ?_⟩
  · intro rpt hrpt
    exact hpositive rpt (List.mem_append_left _ hrpt)
  · intro rpt hrpt
    exact hprice rpt (List.mem_append_left _ hrpt)
  · rw [List.map_append, List.sum_append] at hvolume
    omega
  · intro t ht
    exact htimes t (List.mem_append_left _ ht)

/-- The range of the machine has room for a volume `Q` at prices up to `P`. -/
structure Affords (config : BacktestConfig) (P Q : ℕ) : Prop where
  volume : Q < 2 ^ 63
  balance : |config.initialCash| + config.feeModel.magnitude * Q + 6 * P * Q < 2 ^ 63

/-! ## The portfolio -/

namespace Machine

theorem filledQty_report_le (rpt : ExecutionReport) :
    (Step.report rpt).filledQty ≤ rpt.execQty := by
  rw [Step.filledQty, Step.fill?]
  split
  · exact le_rfl
  · exact Nat.zero_le _

/-- The machine books the fills of calls within the range, and has the range for the totals
that a strategy may then ask for. -/
theorem run_reports {config : BacktestConfig} {P Q : ℕ} (haffords : Affords config P Q)
    {lob : MatchingEngine ε τ μ} {e : ε} {calls : List (EngineCall τ μ)}
    (h : WithinRange lob P Q e calls) :
    let steps := (booked (lob.reports e calls)).map Step.report
    let p := (Portfolio.init config).run steps
    run (Portfolio.init config) steps = some p ∧
      totalPnl p = some p.totalPnl ∧ totalEquity p = some p.totalEquity := by
  intro steps p
  have hpositive : ∀ st ∈ steps, st.Positive := by
    intro st hst rpt hrpt
    obtain ⟨rpt', hmem, rfl⟩ := List.mem_map.mp hst
    rw [Step.fill?] at hrpt
    split at hrpt
    · cases hrpt
      exact h.positive _ hmem
    · cases hrpt
  have hprice : ∀ st ∈ steps, st.PriceWithin P := by
    intro st hst
    obtain ⟨rpt, hmem, rfl⟩ := List.mem_map.mp hst
    exact fun _ => h.price rpt hmem
  have hvolume : (steps.map Step.filledQty).sum ≤ Q := by
    refine le_trans ?_ h.volume
    rw [List.map_map]
    exact List.sum_le_sum (fun rpt _ => filledQty_report_le rpt)
  have hroom : ((Portfolio.init config).volume : ℤ) + (steps.map Step.filledQty).sum ≤ Q := by
    have hzero : (Portfolio.init config).volume = 0 := by simp [Portfolio.init, Portfolio.volume]
    rw [hzero]
    omega
  obtain ⟨hrun, hbounded, hvol⟩ := run_eq
    (Portfolio.bounded_init config (by omega : (0 : ℤ) ≤ P) config.feeModel.magnitude) rfl
    hpositive hprice (by omega) (abs_nonneg _) hroom (by exact_mod_cast haffords.volume)
    haffords.balance
  obtain ⟨hpnl, hequity⟩ := totalEquity_eq hbounded (by omega) (abs_nonneg _)
    (by rw [FeeModel.magnitude]; positivity) hvol haffords.balance
  exact ⟨hrun, hpnl, hequity⟩

/-- Reports that exact arithmetic can book are booked by the machine as the steps they are. -/
theorem foldlM_onReport {p p' p₁ q : Portfolio} {rpts : List LobReport}
    (hexact : rpts.foldlM Portfolio.onReport p' = some p₁)
    (h : run p ((booked rpts).map Step.report) = some q) :
    rpts.foldlM onReport p = some q := by
  induction rpts generalizing p p' with
  | nil => exact h
  | cons rpt rpts ih =>
      rw [List.foldlM_cons] at hexact ⊢
      obtain ⟨p₂, hfirst, hrest⟩ := Option.bind_eq_some_iff.mp hexact
      rw [Portfolio.onReport] at hfirst
      cases hfill : rpt.isFill with
      | false =>
          have hskip : onReport p rpt = some p := by simp [onReport, hfill]
          rw [hskip]
          refine ih hrest ?_
          simpa [booked, hfill] using h
      | true =>
          rw [hfill] at hfirst
          obtain ⟨s, hs, -⟩ := Option.bind_eq_some_iff.mp hfirst
          have hbook : onReport p rpt = onExecution p (rpt.at s) := by simp [onReport, hfill, hs]
          have hcons : booked (rpt :: rpts) = rpt.at s :: booked rpts := by
            simp [booked, hfill, hs]
          rw [hcons, List.map_cons, run, List.foldlM_cons] at h
          obtain ⟨p₃, hstep, hsteps⟩ := Option.bind_eq_some_iff.mp h
          have hreport : onReport p rpt = some p₃ := hbook.trans hstep
          rw [hreport]
          exact ih hrest hsteps

theorem foldlM_handleExecution (sim : ExchangeSimulator ε) {p q : Portfolio}
    {rpts : List LobReport} (h : rpts.foldlM onReport p = some q) :
    rpts.foldlM handleExecution { sim with portfolio := some p } =
      some { sim with portfolio := some q } := by
  induction rpts generalizing p with
  | nil =>
      cases h
      rfl
  | cons rpt rpts ih =>
      rw [List.foldlM_cons] at h ⊢
      obtain ⟨p₁, hfirst, hrest⟩ := Option.bind_eq_some_iff.mp h
      have hhandle : handleExecution { sim with portfolio := some p } rpt =
          some { sim with portfolio := some p₁ } := by
        rw [handleExecution]
        exact congrArg (Option.map _) hfirst
      rw [hhandle]
      exact ih hrest

/-! ## Calls and requests -/

section Calls

variable {config : ExchangeConfig} {P Q : ℕ}
  (haffords : Affords config.toBacktestConfig P Q) {lob : MatchingEngine ε τ μ}
  {start : ExchangeSimulator ε}
  (hstart : start.portfolio = some (Portfolio.init config.toBacktestConfig))

include haffords hstart

/-- A call within the range is the same call on the machine. -/
theorem callEngine_of_settled {sim sim' : ExchangeSimulator ε} {calls : List (EngineCall τ μ)}
    (hsettled : Settled lob start calls sim) {c : EngineCall τ μ}
    (hrange : WithinRange lob P Q start.engine (calls ++ [c])) {b : Bool}
    (h : sim.callEngine lob c = some (b, sim')) : callEngine lob sim c = some (b, sim') := by
  obtain ⟨rfl, hengine, hbook, htime⟩ := ExchangeSimulator.callEngine_cases h
  have hportfolio := hsettled.portfolio_eq
  rw [settledPortfolio, hstart, Option.map_some] at hportfolio
  rw [hportfolio] at hbook
  obtain ⟨p₁, hexact, hp₁⟩ := Option.map_eq_some_iff.mp hbook
  have hbefore := (run_reports haffords hrange.of_append).1
  have hafter := (run_reports haffords hrange).1
  -- The machine has booked the reports before the call, so it runs on with those of the call.
  rw [lob.reports_concat, ← hsettled.engine_eq, booked_append, List.map_append, run_append,
    hbefore, Option.bind_some] at hafter
  have hreports := foldlM_onReport hexact hafter
  have hsame := Portfolio.foldlM_onReport_eq_run hexact
  rw [Portfolio.run_append, ← hsame] at hreports
  have hhandled := foldlM_handleExecution { sim with engine := (lob.call c sim.engine).engine }
    hreports
  obtain ⟨engine, portfolio, currentTime⟩ := sim
  obtain ⟨engine', portfolio', currentTime'⟩ := sim'
  cases hportfolio
  cases hengine
  cases htime
  cases hp₁
  rw [callEngine]
  exact congrArg (Option.map _) hhandled

theorem registers_of_settled {sim sim' : ExchangeSimulator ε} {calls : List (EngineCall τ μ)}
    (hsettled : Settled lob start calls sim) {syms : List Symbol}
    (hrange : WithinRange lob P Q start.engine (calls ++ syms.map .addSymbol))
    (h : syms.foldlM (fun sim sym => (sim.callEngine lob (.addSymbol sym)).map Prod.snd) sim =
      some sim') :
    syms.foldlM (fun sim sym => (callEngine lob sim (.addSymbol sym)).map Prod.snd) sim =
      some sim' := by
  induction syms generalizing calls sim with
  | nil => exact h
  | cons sym syms ih =>
      rw [List.foldlM_cons] at h ⊢
      obtain ⟨sim₁, hfirst, hrest⟩ := Option.bind_eq_some_iff.mp h
      obtain ⟨r, hcall, rfl⟩ := Option.map_eq_some_iff.mp hfirst
      rw [List.map_cons, List.append_cons] at hrange
      rw [callEngine_of_settled haffords hstart hsettled hrange.of_append hcall]
      exact ih (hsettled.callEngine hcall) hrange hrest

/-- A request within the range has the same answer on the machine. -/
theorem answer_of_settled {sim sim' : ExchangeSimulator ε} {calls : List (EngineCall τ μ)}
    (hsettled : Settled lob start calls sim) {c : Request τ μ}
    (hrange : WithinRange lob P Q start.engine
      (calls ++ (c.engineCall? config sim.currentTime).toList))
    {a : (exchangeInterface ε τ μ).Answer c}
    (h : ExchangeSimulator.answer lob config c sim = some (a, sim')) :
    answer lob config c sim = some (a, sim') := by
  cases c with
  | sendOrder req =>
      obtain ⟨sim₁, hsubmit, heq⟩ := Option.map_eq_some_iff.mp h
      obtain ⟨r, hcall, rfl⟩ := Option.map_eq_some_iff.mp hsubmit
      cases heq
      have hfits : Fits (ExchangeSimulator.adjustedReq config sim.currentTime req).timestamp :=
        hrange.times _ (by simp [orderTimes, Request.engineCall?])
      have hstamp : adjustedReq config sim.currentTime req =
          some (ExchangeSimulator.adjustedReq config sim.currentTime req) := by
        rw [adjustedReq, add?_of_fits hfits]
        rfl
      have hmachine := callEngine_of_settled haffords hstart hsettled hrange hcall
      rw [answer, submitOrder, hstamp]
      exact congrArg (Option.map _) (congrArg (Option.bind · _) hmachine)
  | cancelOrder sym id => exact callEngine_of_settled haffords hstart hsettled hrange h
  | modifyOrder sym req => exact callEngine_of_settled haffords hstart hsettled hrange h
  | portfolio => exact h
  | engine => exact h

/-- A history within the range is a history on the machine. -/
theorem exchanges_of_settled {sim sim' : ExchangeSimulator ε} {calls : List (EngineCall τ μ)}
    (hsettled : Settled lob start calls sim) {t : List (exchangeInterface ε τ μ).Event}
    (hrange : WithinRange lob P Q start.engine
      (calls ++ engineCalls config start.currentTime t))
    (h : Program.Exchanges (ExchangeSimulator.answer lob config) sim t sim') :
    Program.Exchanges (answer lob config) sim t sim' := by
  induction h generalizing calls with
  | nil => exact .nil
  | @cons w w' w'' c a t hcall hrest ih =>
      have hnext : Settled lob start
          (calls ++ engineCalls config start.currentTime [⟨c, a⟩]) w' :=
        hsettled.exchanges (.cons hcall .nil)
      have hcalls : engineCalls config start.currentTime (⟨c, a⟩ :: t) =
          engineCalls config start.currentTime [⟨c, a⟩] ++
            engineCalls config start.currentTime t := by
        rw [← List.singleton_append]
        exact List.filterMap_append
      rw [hcalls, ← List.append_assoc] at hrange
      refine .cons (answer_of_settled haffords hstart hsettled ?_ hcall) (ih hnext hrange)
      rw [hsettled.currentTime_eq]
      have hone : engineCalls config start.currentTime [⟨c, a⟩] =
          (c.engineCall? config start.currentTime).toList := by
        rw [engineCalls, List.filterMap_cons, List.filterMap_nil]
        cases c.engineCall? config start.currentTime <;> rfl
      rw [← hone]
      exact hrange.of_append

end Calls

end Machine

/-! ## Backtests -/

section Backtests

variable (lob : MatchingEngine ε τ μ) (config : ExchangeConfig)
  (strategy : ExchangeStrategy ε τ μ σ) (s : σ) {reader : ρ} {es : List Event}
  (hes : Delivers reader es) {fuel : ℕ} (hfuel : es.length < fuel)

include hes hfuel

/-- Within the range the machine runs the backtest of exact arithmetic. -/
theorem machine_recordedBacktest_of_range {P Q : ℕ}
    (haffords : Affords config.toBacktestConfig P Q) :
    let start := ExchangeSimulator.new lob config (some (Portfolio.init config.toBacktestConfig))
    ∃ after after', recordedBacktest lob config strategy fuel reader s start = some after ∧
      Machine.recordedBacktest lob config strategy fuel reader s start = some after' ∧
      ∀ s' sim' log, after.strategy = some (s', sim', log) →
        WithinRange lob P Q start.engine (backtestCalls config start log) →
        after'.strategy = some (s', sim', log) := by
  intro start
  obtain ⟨after, hrun, hcases⟩ := recordedBacktest_cases lob config strategy s start hes hfuel
  obtain ⟨after', hrun', hafter'⟩ := strategy.run_onWorld
    (Program.recorded (Machine.answer lob config)) config.toBacktestConfig
    ((Machine.initializeEngine lob config start).map (fun sim => (s, sim, []))) hes hfuel
  refine ⟨after, after', hrun, hrun', ?_⟩
  intro s' sim' log hafter hrange
  obtain ⟨sim₁, hinit, hsession, rfl⟩ := hcases s' sim' log hafter
  obtain ⟨w, hlog, hlast⟩ := Program.exchanges_trace (ExchangeSimulator.answer lob config)
    (strategy.session (ReplayEngine.dispatched config.toBacktestConfig es) s) sim₁
  cases hlast _ hsession
  have hregistered : Settled lob start (config.symbols.map .addSymbol) sim₁ :=
    (settled_nil lob start).registers hinit
  have hinit' : Machine.initializeEngine lob config start = some sim₁ :=
    Machine.registers_of_settled haffords rfl (settled_nil lob start) hrange.of_append hinit
  have hlog' := Machine.exchanges_of_settled haffords rfl hregistered hrange hlog
  obtain ⟨hsession', htrace⟩ := Program.run_of_exchanges hsession hlog'
  rw [hafter', hinit', Option.map_some, Option.bind_some, Program.run_recorded, hsession', htrace]
  rfl

/-- Within the range no operation of a backtest overflows: the machine runs the backtest of
exact arithmetic, and the totals of every portfolio that the strategy reads can be asked for. -/
theorem machine_backtest_eq_exact {P Q : ℕ} (haffords : Affords config.toBacktestConfig P Q) :
    let start := ExchangeSimulator.new lob config (some (Portfolio.init config.toBacktestConfig))
    ∃ after after', recordedBacktest lob config strategy fuel reader s start = some after ∧
      Machine.recordedBacktest lob config strategy fuel reader s start = some after' ∧
      ∀ s' sim' log, after.strategy = some (s', sim', log) →
        WithinRange lob P Q start.engine (backtestCalls config start log) →
        after'.strategy = some (s', sim', log) ∧
        ∀ p : Portfolio, ⟨.portfolio, some p⟩ ∈ log →
          Machine.totalPnl p = some p.totalPnl ∧ Machine.totalEquity p = some p.totalEquity := by
  intro start
  obtain ⟨after, after', hrun, hrun', hequal⟩ :=
    machine_recordedBacktest_of_range lob config strategy s hes hfuel haffords
  refine ⟨after, after', hrun, hrun', ?_⟩
  intro s' sim' log hafter hrange
  refine ⟨hequal s' sim' log hafter hrange, ?_⟩
  intro p hread
  obtain ⟨again, hagain, hlog⟩ := recordedBacktest_exchanges lob config strategy s start hes hfuel
  cases hrun.symm.trans hagain
  obtain ⟨sim₁, hinit, hexchanges⟩ := hlog s' sim' log hafter
  obtain ⟨front, rest, rfl⟩ := List.append_of_mem hread
  obtain rfl := Option.some.inj (read_of_exchanges hinit hexchanges)
  rw [backtestCalls, engineCalls, List.filterMap_append, ← List.append_assoc] at hrange
  exact (Machine.run_reports haffords hrange.of_append).2

end Backtests

/-- One trade seen, with a volume of four at a price of a hundred. -/
theorem machine_backtest_eq_exact_self_trade :
    ∃ after s' sim' log, Machine.recordedBacktest crossingBook selfTradeConfig selfTrader 2
        (⟨[Event.makeTrade 5 1 100 2 .buy], 0⟩ : MemoryReader) [] selfTradeStart = some after ∧
      after.strategy = some (s', sim', log) ∧ s' = [994] := by
  have haffords : Affords selfTradeConfig.toBacktestConfig 100 4 := ⟨by decide, by decide⟩
  obtain ⟨after, after', hrun, hrun', hequal⟩ := machine_backtest_eq_exact crossingBook
    selfTradeConfig selfTrader [] (MemoryReader.delivers [Event.makeTrade 5 1 100 2 .buy] 0)
    (by decide : _ < 2) haffords
  have hdefined : ∃ sim' log, after.strategy = some ([994], sim', log) ∧
      backtestCalls selfTradeConfig selfTradeStart log =
        [.addSymbol 1, .submit ⟨⟨1, .buy, 2⟩, 7, 1, 100⟩,
          .submit ⟨⟨1, .sell, 2⟩, 12, 2, 100⟩] := by
    obtain rfl := Option.some.inj hrun
    exact ⟨_, _, rfl, rfl⟩
  obtain ⟨sim', log, hafter, hcalls⟩ := hdefined
  have hrange : WithinRange crossingBook 100 4 selfTradeStart.engine
      (backtestCalls selfTradeConfig selfTradeStart log) := by
    rw [hcalls]
    exact ⟨by decide, by decide, by decide, by decide⟩
  exact ⟨after', [994], sim', log, hrun', (hequal [994] sim' log hafter hrange).1, rfl⟩

end UltraBacktest
