import UltraBacktest.Library.Run
import UltraBacktest.Model.Backtest
import UltraBacktest.Verification.Portfolio.Equations
import UltraBacktest.Verification.Replay.Window

/-! Computation rules for the exchange: what a call on the engine and a request of a strategy
do to the simulator, and the program that a whole backtest amounts to. -/

namespace UltraBacktest

open Interaction Stream

variable {ε τ μ : Type} {ρ σ : Type*} [Source ρ Event]

/-! ## Reports -/

/-- The reports that reach the books: fills, each with its slot. -/
def booked (rpts : List LobReport) : List ExecutionReport :=
  rpts.filterMap (fun rpt => if rpt.isFill then (slot? rpt.symbol).map rpt.at else none)

theorem booked_append (xs ys : List LobReport) : booked (xs ++ ys) = booked xs ++ booked ys :=
  List.filterMap_append

theorem Portfolio.positions_onExecution_at (p : Portfolio) {rpt : LobReport} (s : Slot)
    (h : rpt.isFill = true) : (p.onExecution (rpt.at s)).positions =
      Function.update p.positions s ((p.positions s).fill (rpt.at s)) := by
  have hfill : (rpt.at s).isFill = true := h
  rw [onExecution_of_isFill p hfill]
  rfl

theorem Portfolio.onReport_eq_run {p p' : Portfolio} {rpt : LobReport}
    (h : p.onReport rpt = some p') : p' = p.run ((booked [rpt]).map Step.report) := by
  rw [onReport] at h
  cases hfill : rpt.isFill with
  | false =>
      rw [hfill] at h
      simpa [booked, hfill] using h.symm
  | true =>
      rw [hfill] at h
      obtain ⟨s, hs, hbooks⟩ := Option.bind_eq_some_iff.mp h
      split_ifs at hbooks
      simpa [booked, hfill, hs, Portfolio.step] using hbooks.symm

theorem Portfolio.foldlM_onReport_eq_run {p p' : Portfolio} {rpts : List LobReport}
    (h : rpts.foldlM Portfolio.onReport p = some p') :
    p' = p.run ((booked rpts).map Step.report) := by
  induction rpts generalizing p with
  | nil => exact (Option.some.inj h).symm
  | cons rpt rpts ih =>
      rw [List.foldlM_cons] at h
      obtain ⟨q, hq, hrest⟩ := Option.bind_eq_some_iff.mp h
      rw [ih hrest, onReport_eq_run hq, ← run_append, ← List.map_append, ← booked_append]
      rfl

/-! ## The matching engine by itself -/

namespace MatchingEngine

def step (lob : MatchingEngine ε τ μ) (e : ε) (c : EngineCall τ μ) : ε := (lob.call c e).engine

/-- The engine after a sequence of calls. -/
def after (lob : MatchingEngine ε τ μ) (e : ε) (calls : List (EngineCall τ μ)) : ε :=
  calls.foldl lob.step e

/-- All reports of a sequence of calls, in the order in which they are called back. -/
def reports (lob : MatchingEngine ε τ μ) (e : ε) (calls : List (EngineCall τ μ)) :
    List LobReport :=
  (Run.trail lob.step e calls).flatMap (fun q => (lob.call q.2 q.1).reports)

theorem after_concat (lob : MatchingEngine ε τ μ) (e : ε) (calls : List (EngineCall τ μ))
    (c : EngineCall τ μ) :
    lob.after e (calls ++ [c]) = (lob.call c (lob.after e calls)).engine :=
  List.foldl_append

theorem reports_append (lob : MatchingEngine ε τ μ) (e : ε) (xs ys : List (EngineCall τ μ)) :
    lob.reports e (xs ++ ys) = lob.reports e xs ++ lob.reports (lob.after e xs) ys := by
  rw [reports, Run.trail_append, List.flatMap_append]
  rfl

theorem reports_concat (lob : MatchingEngine ε τ μ) (e : ε) (calls : List (EngineCall τ μ))
    (c : EngineCall τ μ) :
    lob.reports e (calls ++ [c]) =
      lob.reports e calls ++ (lob.call c (lob.after e calls)).reports := by
  rw [reports_append]
  simp [reports]

end MatchingEngine

/-! ## Calls on the engine -/

namespace ExchangeSimulator

/-- What handling the reports does to the portfolio behind the pointer. -/
def book (rpts : List LobReport) : Option Portfolio → Option (Option Portfolio)
  | none => some none
  | some p => (rpts.foldlM Portfolio.onReport p).map some

theorem foldlM_handleExecution (rpts : List LobReport) (sim : ExchangeSimulator ε) :
    rpts.foldlM handleExecution sim =
      (book rpts sim.portfolio).map (fun p => { sim with portfolio := p }) := by
  induction rpts generalizing sim with
  | nil =>
      obtain ⟨engine, portfolio, currentTime⟩ := sim
      cases portfolio <;> rfl
  | cons rpt rpts ih =>
      obtain ⟨engine, portfolio, currentTime⟩ := sim
      rw [List.foldlM_cons]
      cases portfolio with
      | none => exact ih ⟨engine, none, currentTime⟩
      | some p =>
          rw [book, List.foldlM_cons]
          cases hp : p.onReport rpt with
          | none => simp [handleExecution, hp]
          | some q =>
              have hrest := ih ⟨engine, some q, currentTime⟩
              simpa [handleExecution, hp, book] using hrest

/-- A call on the engine changes the engine and books its reports. -/
theorem callEngine_eq (lob : MatchingEngine ε τ μ) (sim : ExchangeSimulator ε)
    (c : EngineCall τ μ) :
    sim.callEngine lob c =
      (book (lob.call c sim.engine).reports sim.portfolio).map (fun p =>
        ((lob.call c sim.engine).answer,
          ⟨(lob.call c sim.engine).engine, p, sim.currentTime⟩)) := by
  rw [callEngine, foldlM_handleExecution, Option.map_map]
  rfl

theorem book_eq_run {p : Option Portfolio} {q : Option Portfolio} {rpts : List LobReport}
    (h : book rpts p = some q) :
    q = p.map (fun p => p.run ((booked rpts).map Step.report)) := by
  cases p with
  | none => exact (Option.some.inj h).symm
  | some p =>
      obtain ⟨p', hp', rfl⟩ := Option.map_eq_some_iff.mp h
      exact congrArg some (Portfolio.foldlM_onReport_eq_run hp')

/-- The inversion of a call: every defined call changes these fields so. -/
theorem callEngine_cases {lob : MatchingEngine ε τ μ} {sim sim' : ExchangeSimulator ε}
    {c : EngineCall τ μ} {answer : Bool} (h : sim.callEngine lob c = some (answer, sim')) :
    answer = (lob.call c sim.engine).answer ∧ sim'.engine = (lob.call c sim.engine).engine ∧
      book (lob.call c sim.engine).reports sim.portfolio = some sim'.portfolio ∧
      sim'.currentTime = sim.currentTime := by
  rw [callEngine_eq] at h
  obtain ⟨p, hp, heq⟩ := Option.map_eq_some_iff.mp h
  obtain ⟨rfl, rfl⟩ := Prod.mk.inj heq
  exact ⟨rfl, rfl, hp, rfl⟩

end ExchangeSimulator

/-! ## Requests -/

/-- The call on the engine that a request leads to at a simulated time. -/
def Request.engineCall? (config : ExchangeConfig) (currentTime : ℤ) :
    Request τ μ → Option (EngineCall τ μ)
  | .sendOrder req => some (.submit (ExchangeSimulator.adjustedReq config currentTime req))
  | .cancelOrder sym id => some (.cancel sym id)
  | .modifyOrder sym req => some (.modify sym req)
  | .portfolio => none
  | .engine => none

/-- The inversion of a request: it only reads, or it makes its call on the engine. -/
theorem ExchangeSimulator.answer_cases {lob : MatchingEngine ε τ μ} {config : ExchangeConfig}
    {c : Request τ μ} {sim sim' : ExchangeSimulator ε}
    {answer : (exchangeInterface ε τ μ).Answer c}
    (h : ExchangeSimulator.answer lob config c sim = some (answer, sim')) :
    (c.engineCall? config sim.currentTime = none ∧ sim' = sim) ∨
      ∃ call b, c.engineCall? config sim.currentTime = some call ∧
        sim.callEngine lob call = some (b, sim') := by
  cases c with
  | sendOrder req =>
      obtain ⟨sim₁, hsubmit, heq⟩ := Option.map_eq_some_iff.mp h
      obtain ⟨r, hcall, hr⟩ := Option.map_eq_some_iff.mp hsubmit
      obtain ⟨-, rfl⟩ := Prod.mk.inj heq
      exact Or.inr ⟨_, r.1, rfl, hcall.trans (congrArg some (Prod.ext rfl hr))⟩
  | cancelOrder sym id => exact Or.inr ⟨_, answer, rfl, h⟩
  | modifyOrder sym req => exact Or.inr ⟨_, answer, rfl, h⟩
  | portfolio =>
      obtain ⟨-, rfl⟩ := Prod.mk.inj (Option.some.inj h)
      exact Or.inl ⟨rfl, rfl⟩
  | engine =>
      obtain ⟨-, rfl⟩ := Prod.mk.inj (Option.some.inj h)
      exact Or.inl ⟨rfl, rfl⟩

/-! ## Backtests -/

namespace TradingStrategy

variable {F : Interface.{0}}

/-- The program that the strategy runs for an event. -/
def act (strategy : TradingStrategy F σ) (e : Event) : σ → Program F σ :=
  match e.body with
  | .marketTick tick => strategy.onTick e.timestamp e.symbol tick
  | .trade trade => strategy.onTrade e.timestamp e.symbol trade
  | .quote quote => strategy.onQuote e.timestamp e.symbol quote
  | .orderAdd orderAdd => strategy.onOrderAdd e.timestamp e.symbol orderAdd
  | .orderCancel orderCancel => strategy.onOrderCancel e.timestamp e.symbol orderCancel
  | .orderModify orderModify => strategy.onOrderModify e.timestamp e.symbol orderModify
  | .orderExecution execution => strategy.onOrderExecution e.timestamp e.symbol execution
  | .strategyTimer timer => strategy.onTimer e.timestamp timer
  | .sessionStart => strategy.onSessionStart e.timestamp
  | .sessionEnd => strategy.onSessionEnd e.timestamp
  | .barClose => .done
  | .endOfData => .done
  | .unknown _ => .done

/-- The program that the strategy runs for a sequence of events. -/
def session (strategy : TradingStrategy F σ) (es : List Event) (s : σ) : Program F σ :=
  Program.each strategy.act es s

theorem perform_done {ω : Type*} (handle : Handler F ω) (state : Option (σ × ω)) :
    perform handle .done state = state :=
  Option.bind_fun_some state

theorem onWorld_dispatch {ω : Type*} (strategy : TradingStrategy F σ) (handle : Handler F ω)
    (e : Event) (state : Option (σ × ω)) :
    (strategy.onWorld handle).dispatch e state = perform handle (strategy.act e) state := by
  rw [Strategy.dispatch, act]
  cases e.body with
  | barClose => exact (perform_done handle state).symm
  | endOfData => exact (perform_done handle state).symm
  | unknown code => exact (perform_done handle state).symm
  | _ => rfl

/-- A replay runs the session of its window. -/
theorem run_onWorld {ω : Type*} (strategy : TradingStrategy F σ) (handle : Handler F ω)
    (config : BacktestConfig) (state : Option (σ × ω)) {reader : ρ} {es : List Event}
    (hes : Delivers reader es) {fuel : ℕ} (hfuel : es.length < fuel) :
    ∃ after, ReplayEngine.run config (strategy.onWorld handle).dispatch fuel
        ⟨reader, state, 0⟩ = some after ∧
      after.strategy = state.bind (fun q =>
        (strategy.session (ReplayEngine.dispatched config es) q.1).run handle q.2) := by
  obtain ⟨after, hrun, hafter⟩ := ReplayEngine.run_replayed config
    (strategy.onWorld handle).dispatch ⟨reader, state, 0⟩ hes hfuel
  refine ⟨after, hrun, ?_⟩
  rw [hafter.strategy_eq]
  simp only [onWorld_dispatch, perform]
  exact Program.foldl_run handle strategy.act _ state

/-- The record of a replay is a history of its world, which ends in the last one. -/
theorem run_recorded_exchanges {ω : Type*} (strategy : TradingStrategy F σ)
    (handle : Handler F ω) (config : BacktestConfig) (s : σ) (world : Option ω) {reader : ρ}
    {es : List Event} (hes : Delivers reader es) {fuel : ℕ} (hfuel : es.length < fuel) :
    ∃ after, ReplayEngine.run config (strategy.onWorld (Program.recorded handle)).dispatch fuel
        ⟨reader, world.map (fun w => (s, w, [])), 0⟩ = some after ∧
      ∀ s' w' log, after.strategy = some (s', w', log) →
        ∃ w, world = some w ∧ Program.Exchanges handle w log w' := by
  obtain ⟨after, hrun, hafter⟩ := strategy.run_onWorld (Program.recorded handle) config
    (world.map (fun w => (s, w, []))) hes hfuel
  refine ⟨after, hrun, ?_⟩
  intro s' w' log hdefined
  rw [hafter, Option.bind_map] at hdefined
  obtain ⟨w, hw, hsession⟩ := Option.bind_eq_some_iff.mp hdefined
  rw [Function.comp_apply, Program.run_recorded] at hsession
  obtain ⟨r, hr, heq⟩ := Option.map_eq_some_iff.mp hsession
  cases heq
  obtain ⟨w₁, hlog, hend⟩ := Program.exchanges_trace handle
    (strategy.session (ReplayEngine.dispatched config es) s) w
  cases hend r hr
  exact ⟨w, hw, hlog⟩

end TradingStrategy

/-! ## Recorded backtests -/

/-- A backtest on a simulator that also keeps a record of the requests and their answers. -/
def recordedBacktest (lob : MatchingEngine ε τ μ) (config : ExchangeConfig)
    (strategy : ExchangeStrategy ε τ μ σ) (fuel : ℕ) (reader : ρ) (s : σ)
    (sim : ExchangeSimulator ε) :
    Option (ReplayEngine ρ
      (Option (σ × ExchangeSimulator ε × List (exchangeInterface ε τ μ).Event))) :=
  ReplayEngine.run config.toBacktestConfig
    (strategy.onWorld (Program.recorded (ExchangeSimulator.answer lob config))).dispatch fuel
    ⟨reader, (sim.initializeEngine lob config).map (fun sim => (s, sim, [])), 0⟩

section Recorded

variable (lob : MatchingEngine ε τ μ) (config : ExchangeConfig)
  (strategy : ExchangeStrategy ε τ μ σ) (s : σ) (sim : ExchangeSimulator ε) {reader : ρ}
  {es : List Event} (hes : Delivers reader es) {fuel : ℕ} (hfuel : es.length < fuel)

include hes hfuel

/-- A backtest runs the session of the window on the initialized exchange. -/
theorem backtest_eq_session :
    ∃ after, backtest lob config strategy fuel reader s sim = some after ∧
      after.strategy = (sim.initializeEngine lob config).bind (fun sim =>
        (strategy.session (ReplayEngine.dispatched config.toBacktestConfig es) s).run
          (ExchangeSimulator.answer lob config) sim) := by
  obtain ⟨after, hrun, hafter⟩ := strategy.run_onWorld (ExchangeSimulator.answer lob config)
    config.toBacktestConfig ((sim.initializeEngine lob config).map (fun sim => (s, sim))) hes
    hfuel
  rw [Option.bind_map] at hafter
  exact ⟨after, hrun, hafter⟩

/-- The record is the trace of that session. -/
theorem recordedBacktest_eq_session :
    ∃ after, recordedBacktest lob config strategy fuel reader s sim = some after ∧
      after.strategy = (sim.initializeEngine lob config).bind (fun sim =>
        ((strategy.session (ReplayEngine.dispatched config.toBacktestConfig es) s).run
          (ExchangeSimulator.answer lob config) sim).map (fun r => (r.1, r.2,
            (strategy.session (ReplayEngine.dispatched config.toBacktestConfig es) s).trace
              (ExchangeSimulator.answer lob config) sim))) := by
  obtain ⟨after, hrun, hafter⟩ := strategy.run_onWorld
    (Program.recorded (ExchangeSimulator.answer lob config)) config.toBacktestConfig
    ((sim.initializeEngine lob config).map (fun sim => (s, sim, []))) hes hfuel
  refine ⟨after, hrun, ?_⟩
  rw [hafter, Option.bind_map]
  simp only [Function.comp_def, Program.run_recorded, List.nil_append]

/-- Without its record a recorded backtest is the backtest. -/
theorem backtest_forgets_record :
    ∃ after recorded, backtest lob config strategy fuel reader s sim = some after ∧
      recordedBacktest lob config strategy fuel reader s sim = some recorded ∧
      after.strategy = recorded.strategy.map (fun q => (q.1, q.2.1)) := by
  obtain ⟨after, hrun, hafter⟩ := backtest_eq_session lob config strategy s sim hes hfuel
  obtain ⟨recorded, hrecord, hrecorded⟩ :=
    recordedBacktest_eq_session lob config strategy s sim hes hfuel
  refine ⟨after, recorded, hrun, hrecord, ?_⟩
  rw [hafter, hrecorded, Option.map_bind]
  simp only [Function.comp_def, Option.map_map, Option.map_id']

/-- The inversion of a recorded backtest that stays defined. -/
theorem recordedBacktest_cases :
    ∃ after, recordedBacktest lob config strategy fuel reader s sim = some after ∧
      ∀ s' sim' log, after.strategy = some (s', sim', log) →
        ∃ sim₁, sim.initializeEngine lob config = some sim₁ ∧
          (strategy.session (ReplayEngine.dispatched config.toBacktestConfig es) s).run
            (ExchangeSimulator.answer lob config) sim₁ = some (s', sim') ∧
          (strategy.session (ReplayEngine.dispatched config.toBacktestConfig es) s).trace
            (ExchangeSimulator.answer lob config) sim₁ = log := by
  obtain ⟨after, hrun, hafter⟩ := recordedBacktest_eq_session lob config strategy s sim hes hfuel
  refine ⟨after, hrun, ?_⟩
  intro s' sim' log hdefined
  rw [hafter] at hdefined
  obtain ⟨sim₁, hinit, hsession⟩ := Option.bind_eq_some_iff.mp hdefined
  obtain ⟨r, hr, heq⟩ := Option.map_eq_some_iff.mp hsession
  cases heq
  exact ⟨sim₁, hinit, hr, rfl⟩

end Recorded

end UltraBacktest
