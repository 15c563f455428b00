import UltraBacktest.Verification.Exchange.Equations

/-! A backtest against the matching engine by itself. The engine sees the registrations and
what the strategy asks for, and nothing of the market data; the portfolio is the books of the
engine's reports, each of them entered once and in order. -/

namespace UltraBacktest

open Interaction Stream

variable {ε τ μ : Type} {ρ σ : Type*} [Source ρ Event]

/-! ## Histories of calls -/

/-- The calls on the engine that a history of requests makes. -/
def engineCalls (config : ExchangeConfig) (currentTime : ℤ)
    (t : List (exchangeInterface ε τ μ).Event) : List (EngineCall τ μ) :=
  t.filterMap (fun x => Request.engineCall? config currentTime x.1)

/-- The portfolio after the reports of these calls. -/
def settledPortfolio (lob : MatchingEngine ε τ μ) (start : ExchangeSimulator ε)
    (calls : List (EngineCall τ μ)) : Option Portfolio :=
  start.portfolio.map (fun p => p.run ((booked (lob.reports start.engine calls)).map Step.report))

/-- The simulator has come from `start` through these calls on the engine. -/
structure Settled (lob : MatchingEngine ε τ μ) (start : ExchangeSimulator ε)
    (calls : List (EngineCall τ μ)) (sim : ExchangeSimulator ε) : Prop where
  engine_eq : sim.engine = lob.after start.engine calls
  portfolio_eq : sim.portfolio = settledPortfolio lob start calls
  currentTime_eq : sim.currentTime = start.currentTime

theorem settled_nil (lob : MatchingEngine ε τ μ) (start : ExchangeSimulator ε) :
    Settled lob start [] start := by
  refine ⟨rfl, ?_, rfl⟩
  rw [settledPortfolio]
  cases start.portfolio <;> rfl

theorem Settled.callEngine {lob : MatchingEngine ε τ μ} {start sim sim' : ExchangeSimulator ε}
    {calls : List (EngineCall τ μ)} (h : Settled lob start calls sim) {c : EngineCall τ μ}
    {answer : Bool} (hcall : sim.callEngine lob c = some (answer, sim')) :
    Settled lob start (calls ++ [c]) sim' := by
  obtain ⟨-, hengine, hbook, htime⟩ := ExchangeSimulator.callEngine_cases hcall
  refine ⟨?_, ?_, htime.trans h.currentTime_eq⟩
  · rw [hengine, lob.after_concat, h.engine_eq]
  · rw [ExchangeSimulator.book_eq_run hbook, h.portfolio_eq, h.engine_eq, settledPortfolio,
      settledPortfolio, Option.map_map, lob.reports_concat, booked_append]
    congr 1
    funext p
    rw [List.map_append, Portfolio.run_append]
    rfl

theorem Settled.registers {lob : MatchingEngine ε τ μ} {start sim sim' : ExchangeSimulator ε}
    {calls : List (EngineCall τ μ)} (h : Settled lob start calls sim) {syms : List Symbol}
    (hsyms : syms.foldlM (fun sim sym => (sim.callEngine lob (.addSymbol sym)).map Prod.snd) sim =
      some sim') :
    Settled lob start (calls ++ syms.map .addSymbol) sim' := by
  induction syms generalizing calls sim with
  | nil =>
      cases hsyms
      rwa [List.map_nil, List.append_nil]
  | cons sym syms ih =>
      rw [List.foldlM_cons] at hsyms
      obtain ⟨sim₁, hfirst, hrest⟩ := Option.bind_eq_some_iff.mp hsyms
      obtain ⟨r, hcall, rfl⟩ := Option.map_eq_some_iff.mp hfirst
      rw [List.map_cons, List.append_cons]
      exact ih (h.callEngine hcall) hrest

theorem Settled.exchanges {lob : MatchingEngine ε τ μ} {config : ExchangeConfig}
    {start sim sim' : ExchangeSimulator ε} {calls : List (EngineCall τ μ)}
    (h : Settled lob start calls sim) {t : List (exchangeInterface ε τ μ).Event}
    (ht : Program.Exchanges (ExchangeSimulator.answer lob config) sim t sim') :
    Settled lob start (calls ++ engineCalls config start.currentTime t) sim' := by
  refine ht.history (R := fun t sim =>
    Settled lob start (calls ++ engineCalls config start.currentTime t) sim) ?_
    (s := []) (by rwa [engineCalls, List.filterMap_nil, List.append_nil])
  intro s w c answer w' hs hanswer
  rw [engineCalls, List.filterMap_append, ← List.append_assoc, ← engineCalls]
  obtain ⟨hnone, rfl⟩ | ⟨call, b, hsome, hcall⟩ := ExchangeSimulator.answer_cases hanswer
  · rw [hs.currentTime_eq] at hnone
    simpa [hnone] using hs
  · rw [hs.currentTime_eq] at hsome
    simpa [hsome] using hs.callEngine hcall

/-! ## A small engine -/

/-- A book whose orders carry their identifier and their price. -/
structure CrossingBook where
  symbols : List Symbol := []
  resting : List (LobOrder (ℕ × ℤ)) := []
  deriving DecidableEq, Repr

/-- The oldest order of the other side with the symbol, the price and the quantity. -/
def CrossingBook.opposite? (b : CrossingBook) (req : LobOrder (ℕ × ℤ)) :
    Option (LobOrder (ℕ × ℤ)) :=
  b.resting.find? (fun o => o.symbol = req.symbol ∧ o.side ≠ req.side ∧ o.qty = req.qty ∧
    o.terms.2 = req.terms.2)

/-- An engine that rejects an empty order and one on a symbol that is not registered, trades
an order with its opposite, reporting both sides, and lets it rest if there is none. -/
def crossingBook : MatchingEngine CrossingBook (ℕ × ℤ) Unit where
  new _ := {}
  call c b :=
    match c with
    | .addSymbol sym => ⟨true, [], { b with symbols := sym :: b.symbols }⟩
    | .submit req =>
        if req.symbol ∉ b.symbols ∨ req.qty = 0 then ⟨false, [], b⟩
        else
          match b.opposite? req with
          | some o =>
              ⟨true, [⟨o.symbol, o.side, o.qty, o.terms.2, true⟩,
                ⟨req.symbol, req.side, req.qty, req.terms.2, true⟩],
                { b with resting := b.resting.erase o }⟩
          | none =>
              ⟨true, [⟨req.symbol, req.side, 0, 0, false⟩],
                { b with resting := b.resting ++ [req] }⟩
    | .cancel sym id =>
        match b.resting.find? (fun o => o.symbol = sym ∧ o.terms.1 = id) with
        | some o => ⟨true, [], { b with resting := b.resting.erase o }⟩
        | none => ⟨false, [], b⟩
    | .modify _ _ => ⟨false, [], b⟩
  hasSymbol b sym := decide (sym ∈ b.symbols)

/-- A strategy that buys and sells what it sees traded, the sale stamped by itself, and notes
the cash it finds. -/
def selfTrader : ExchangeStrategy CrossingBook (ℕ × ℤ) Unit (List ℤ) where
  onTrade ts sym trade log :=
    .call (.sendOrder ⟨⟨sym, .buy, trade.qty⟩, 0, 1, trade.price⟩) (fun _ =>
      .call (.sendOrder ⟨⟨sym, .sell, trade.qty⟩, ts, 2, trade.price⟩) (fun _ =>
        .call .portfolio (fun p => .done (log ++ (p.map Portfolio.cash).toList))))

def selfTradeConfig : ExchangeConfig where
  initialCash := 1000
  feeModel := { perTradeFee := 3 }
  symbols := [1]
  simulatedLatency := 7

def selfTradeStart : ExchangeSimulator CrossingBook :=
  .new crossingBook selfTradeConfig (some (Portfolio.init selfTradeConfig.toBacktestConfig))

/-! ## Backtests -/

/-- The calls on the engine of a backtest with this record: the registrations, and then what
the strategy has asked for. -/
def backtestCalls (config : ExchangeConfig) (sim : ExchangeSimulator ε)
    (log : List (exchangeInterface ε τ μ).Event) : List (EngineCall τ μ) :=
  config.symbols.map .addSymbol ++ engineCalls config sim.currentTime log

/-- A history behind the initialization settles with the calls it has made. -/
theorem settled_of_exchanges {lob : MatchingEngine ε τ μ} {config : ExchangeConfig}
    {sim sim₁ sim' : ExchangeSimulator ε} {log : List (exchangeInterface ε τ μ).Event}
    (hinit : sim.initializeEngine lob config = some sim₁)
    (hlog : Program.Exchanges (ExchangeSimulator.answer lob config) sim₁ log sim') :
    Settled lob sim (backtestCalls config sim log) sim' :=
  ((settled_nil lob sim).registers hinit).exchanges hlog

/-- A read of the portfolio in such a history finds the fills of the calls before it. -/
theorem read_of_exchanges {lob : MatchingEngine ε τ μ} {config : ExchangeConfig}
    {sim sim₁ sim' : ExchangeSimulator ε} {front rest : List (exchangeInterface ε τ μ).Event}
    {p : Option Portfolio} (hinit : sim.initializeEngine lob config = some sim₁)
    (hlog : Program.Exchanges (ExchangeSimulator.answer lob config) sim₁
      (front ++ ⟨.portfolio, p⟩ :: rest) sim') :
    p = settledPortfolio lob sim (backtestCalls config sim front) := by
  obtain ⟨sim₂, hfront, hread⟩ := Program.exchanges_append.mp hlog
  cases hread with
  | cons hcall _ =>
      obtain ⟨rfl, -⟩ := Prod.mk.inj (Option.some.inj hcall)
      exact (settled_of_exchanges hinit hfront).portfolio_eq

section Backtests

variable (lob : MatchingEngine ε τ μ) (config : ExchangeConfig)
  (strategy : ExchangeStrategy ε τ μ σ) (s : σ) (sim : ExchangeSimulator ε) {reader : ρ}
  {es : List Event} (hes : Delivers reader es) {fuel : ℕ} (hfuel : es.length < fuel)

include hes hfuel

/-- The record of a backtest is a history of its exchange, which ends in its last state. -/
theorem recordedBacktest_exchanges :
    ∃ after, recordedBacktest lob config strategy fuel reader s sim = some after ∧
      ∀ s' sim' log, after.strategy = some (s', sim', log) →
        ∃ sim₁, sim.initializeEngine lob config = some sim₁ ∧
          Program.Exchanges (ExchangeSimulator.answer lob config) sim₁ log sim' := by
  exact strategy.run_recorded_exchanges (ExchangeSimulator.answer lob config)
    config.toBacktestConfig s (sim.initializeEngine lob config) hes hfuel

theorem settled_of_recordedBacktest
    {after : ReplayEngine ρ
      (Option (σ × ExchangeSimulator ε × List (exchangeInterface ε τ μ).Event))}
    (hrun : recordedBacktest lob config strategy fuel reader s sim = some after) {s' : σ}
    {sim' : ExchangeSimulator ε} {log : List (exchangeInterface ε τ μ).Event}
    (hafter : after.strategy = some (s', sim', log)) :
    Settled lob sim (backtestCalls config sim log) sim' := by
  obtain ⟨again, hagain, hlog⟩ := recordedBacktest_exchanges lob config strategy s sim hes hfuel
  cases hrun.symm.trans hagain
  obtain ⟨sim₁, hinit, hexchanges⟩ := hlog s' sim' log hafter
  exact settled_of_exchanges hinit hexchanges

/-- A backtest that stays defined leaves the engine where the calls of the strategy lead it,
and the portfolio with every fill of its reports booked once and in order. -/
theorem backtest_settles :
    ∃ after recorded, backtest lob config strategy fuel reader s sim = some after ∧
      recordedBacktest lob config strategy fuel reader s sim = some recorded ∧
      after.strategy = recorded.strategy.map (fun q => (q.1, q.2.1)) ∧
      ∀ s' sim' log, recorded.strategy = some (s', sim', log) →
        Settled lob sim (backtestCalls config sim log) sim' := by
  obtain ⟨after, recorded, hrun, hrecord, hforgets⟩ :=
    backtest_forgets_record lob config strategy s sim hes hfuel
  exact ⟨after, recorded, hrun, hrecord, hforgets, fun _ _ _ =>
    settled_of_recordedBacktest lob config strategy s sim hes hfuel hrecord⟩

/-- Every read of the portfolio finds all fills of the calls before it, and no others, also if
the backtest gets undefined after the read. -/
theorem portfolio_reads_current {sim₁ : ExchangeSimulator ε}
    (hinit : sim.initializeEngine lob config = some sim₁) :
    ∃ after, backtest lob config strategy fuel reader s sim = some after ∧
      after.strategy =
        (strategy.session (ReplayEngine.dispatched config.toBacktestConfig es) s).run
          (ExchangeSimulator.answer lob config) sim₁ ∧
      ∀ front answer rest,
        (strategy.session (ReplayEngine.dispatched config.toBacktestConfig es) s).trace
          (ExchangeSimulator.answer lob config) sim₁ = front ++ ⟨.portfolio, answer⟩ :: rest →
        answer = settledPortfolio lob sim (backtestCalls config sim front) := by
  obtain ⟨after, hrun, hafter⟩ := backtest_eq_session lob config strategy s sim hes hfuel
  rw [hinit, Option.bind_some] at hafter
  refine ⟨after, hrun, hafter, ?_⟩
  intro front answer rest htrace
  obtain ⟨sim₂, hexchanges, -⟩ := Program.exchanges_trace (ExchangeSimulator.answer lob config)
    (strategy.session (ReplayEngine.dispatched config.toBacktestConfig es) s) sim₁
  rw [htrace] at hexchanges
  exact read_of_exchanges hinit hexchanges

end Backtests

/-- One trade seen: two orders reach the engine behind the registration, the unstamped one
with the latency alone as its time. -/
theorem backtest_settles_self_trade :
    ∃ after s' sim', backtest crossingBook selfTradeConfig selfTrader 2
        (⟨[Event.makeTrade 5 1 100 2 .buy], 0⟩ : MemoryReader) [] selfTradeStart = some after ∧
      after.strategy = some (s', sim') ∧
      Settled crossingBook selfTradeStart
        [.addSymbol 1, .submit ⟨⟨1, .buy, 2⟩, 7, 1, 100⟩, .submit ⟨⟨1, .sell, 2⟩, 12, 2, 100⟩]
        sim' := by
  obtain ⟨after, recorded, hrun, hrecord, hforgets, hsettles⟩ := backtest_settles crossingBook
    selfTradeConfig selfTrader [] selfTradeStart
    (MemoryReader.delivers [Event.makeTrade 5 1 100 2 .buy] 0) (by decide : _ < 2)
  have hdefined : ∃ s' sim' log, recorded.strategy = some (s', sim', log) ∧
      backtestCalls selfTradeConfig selfTradeStart log =
        [.addSymbol 1, .submit ⟨⟨1, .buy, 2⟩, 7, 1, 100⟩,
          .submit ⟨⟨1, .sell, 2⟩, 12, 2, 100⟩] := by
    obtain rfl := Option.some.inj hrecord
    exact ⟨_, _, _, rfl, rfl⟩
  obtain ⟨s', sim', log, hrecorded, hcalls⟩ := hdefined
  rw [hrecorded] at hforgets
  exact ⟨after, s', sim', hrun, hforgets, hcalls ▸ hsettles s' sim' log hrecorded⟩

/-- The read behind the two orders of a trade finds both fills. -/
theorem portfolio_reads_current_self_trade :
    ∃ sim₁ front answer,
      selfTradeStart.initializeEngine crossingBook selfTradeConfig = some sim₁ ∧
      (selfTrader.session [Event.makeTrade 5 1 100 2 .buy] []).trace
        (ExchangeSimulator.answer crossingBook selfTradeConfig) sim₁ =
          front ++ [⟨.portfolio, answer⟩] ∧
      answer.map Portfolio.cash = some 994 := by
  have hinit : ∃ sim₁,
      selfTradeStart.initializeEngine crossingBook selfTradeConfig = some sim₁ := ⟨_, rfl⟩
  obtain ⟨sim₁, hinit⟩ := hinit
  obtain ⟨after, -, -, hreads⟩ := portfolio_reads_current crossingBook selfTradeConfig selfTrader
    [] selfTradeStart (MemoryReader.delivers [Event.makeTrade 5 1 100 2 .buy] 0)
    (by decide : _ < 2) hinit
  have htrace : ∃ answer, (selfTrader.session [Event.makeTrade 5 1 100 2 .buy] []).trace
      (ExchangeSimulator.answer crossingBook selfTradeConfig) sim₁ =
        [⟨.sendOrder ⟨⟨1, .buy, 2⟩, 0, 1, 100⟩, ()⟩,
          ⟨.sendOrder ⟨⟨1, .sell, 2⟩, 5, 2, 100⟩, ()⟩] ++ [⟨.portfolio, answer⟩] := by
    obtain rfl := Option.some.inj hinit
    exact ⟨_, rfl⟩
  obtain ⟨answer, htrace⟩ := htrace
  refine ⟨sim₁, _, answer, hinit, htrace, ?_⟩
  rw [hreads _ answer [] htrace]
  decide

end UltraBacktest
