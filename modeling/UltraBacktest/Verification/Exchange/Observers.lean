import UltraBacktest.Verification.Exchange.Settlement
import UltraBacktest.Verification.Portfolio.Equity

/-! The portfolio only watches the exchange. A strategy that does not read it trades in the
same way whatever the portfolio holds, what a fill costs, and whether there is a portfolio at
all; so fees and initial cash move the cash and nothing else. -/

namespace UltraBacktest

open Interaction Stream

variable {ε τ μ : Type} {ρ σ : Type*} [Source ρ Event]

/-- No callback reads the portfolio. -/
def TradingStrategy.Blind (strategy : ExchangeStrategy ε τ μ σ) : Prop :=
  ∀ e s, (strategy.act e s).Makes (F := exchangeInterface ε τ μ) (fun c => c ≠ Request.portfolio)

theorem TradingStrategy.Blind.session {strategy : ExchangeStrategy ε τ μ σ}
    (h : strategy.Blind) (es : List Event) (s : σ) :
    (strategy.session es s).Makes (F := exchangeInterface ε τ μ)
      (fun c => c ≠ Request.portfolio) :=
  Program.makes_each h es s

/-- The configuration with other fees and another initial cash. -/
def ExchangeConfig.withCosts (config : ExchangeConfig) (feeModel : FeeModel)
    (initialCash : ℤ) : ExchangeConfig :=
  { config with feeModel := feeModel, initialCash := initialCash }

/-! ## Two simulators with one engine -/

/-- A relation of portfolios that the reports of the engine keep. -/
def BooksAlong (R : Option Portfolio → Option Portfolio → Prop) : Prop :=
  ∀ rpts p p' q, R p p' → ExchangeSimulator.book rpts p = some q →
    ∃ q', ExchangeSimulator.book rpts p' = some q' ∧ R q q'

/-- The simulators differ in their portfolios only. -/
structure Alike (R : Option Portfolio → Option Portfolio → Prop)
    (sim sim' : ExchangeSimulator ε) : Prop where
  engine_eq : sim'.engine = sim.engine
  currentTime_eq : sim'.currentTime = sim.currentTime
  portfolio : R sim.portfolio sim'.portfolio

section Alike

variable {R : Option Portfolio → Option Portfolio → Prop} (hR : BooksAlong R)
  {lob : MatchingEngine ε τ μ} {config : ExchangeConfig} (feeModel : FeeModel)
  (initialCash : ℤ)

include hR

theorem Alike.callEngine {sim sim' sim₁ : ExchangeSimulator ε} (h : Alike R sim sim')
    {c : EngineCall τ μ} {answer : Bool} (hcall : sim.callEngine lob c = some (answer, sim₁)) :
    ∃ sim₁', sim'.callEngine lob c = some (answer, sim₁') ∧ Alike R sim₁ sim₁' := by
  obtain ⟨rfl, hengine, hbook, htime⟩ := ExchangeSimulator.callEngine_cases hcall
  obtain ⟨q', hq', hrel⟩ := hR _ _ _ _ h.portfolio hbook
  refine ⟨⟨sim₁.engine, q', sim'.currentTime⟩, ?_, rfl, ?_, hrel⟩
  · rw [ExchangeSimulator.callEngine_eq, h.engine_eq, hq', hengine]
    rfl
  · exact h.currentTime_eq.trans htime.symm

theorem Alike.initializeEngine {sim sim' sim₁ : ExchangeSimulator ε} (h : Alike R sim sim')
    (hinit : sim.initializeEngine lob config = some sim₁) :
    ∃ sim₁', sim'.initializeEngine lob (config.withCosts feeModel initialCash) = some sim₁' ∧
      Alike R sim₁ sim₁' := by
  have hsymbols : (config.withCosts feeModel initialCash).symbols = config.symbols := rfl
  rw [ExchangeSimulator.initializeEngine] at hinit ⊢
  rw [hsymbols]
  generalize config.symbols = syms at hinit ⊢
  induction syms generalizing sim sim' with
  | nil =>
      cases hinit
      exact ⟨sim', rfl, h⟩
  | cons sym syms ih =>
      rw [List.foldlM_cons] at hinit ⊢
      obtain ⟨sim₂, hfirst, hrest⟩ := Option.bind_eq_some_iff.mp hinit
      obtain ⟨r, hcall, rfl⟩ := Option.map_eq_some_iff.mp hfirst
      obtain ⟨sim₂', hcall', h₂⟩ := h.callEngine hR hcall
      obtain ⟨sim₁', hrest', h₁⟩ := ih h₂ hrest
      refine ⟨sim₁', ?_, h₁⟩
      rw [hcall']
      exact hrest'

theorem Alike.answer {c : Request τ μ} (hc : c ≠ .portfolio) {sim sim' sim₁ : ExchangeSimulator ε}
    (h : Alike R sim sim') {answer : (exchangeInterface ε τ μ).Answer c}
    (hanswer : ExchangeSimulator.answer lob config c sim = some (answer, sim₁)) :
    ∃ sim₁', ExchangeSimulator.answer lob (config.withCosts feeModel initialCash) c sim' =
        some (answer, sim₁') ∧ Alike R sim₁ sim₁' := by
  cases c with
  | sendOrder req =>
      obtain ⟨sim₂, hsubmit, heq⟩ := Option.map_eq_some_iff.mp hanswer
      obtain ⟨-, rfl⟩ := Prod.mk.inj heq
      obtain ⟨r, hcall, rfl⟩ := Option.map_eq_some_iff.mp hsubmit
      obtain ⟨sim₁', hcall', h₁⟩ := h.callEngine hR hcall
      refine ⟨sim₁', ?_, h₁⟩
      rw [ExchangeSimulator.answer, ExchangeSimulator.submitOrder, h.currentTime_eq]
      exact congrArg (fun r => (r.map Prod.snd).map (fun sim => ((), sim))) hcall'
  | cancelOrder sym id => exact h.callEngine hR hanswer
  | modifyOrder sym req => exact h.callEngine hR hanswer
  | portfolio => exact absurd rfl hc
  | engine =>
      obtain ⟨rfl, rfl⟩ := Prod.mk.inj (Option.some.inj hanswer)
      exact ⟨sim', congrArg (fun e => some (e, sim')) h.engine_eq, h⟩

/-- A strategy that does not read the portfolio does the same on both simulators. -/
theorem Alike.recordedBacktest {strategy : ExchangeStrategy ε τ μ σ} (hblind : strategy.Blind)
    {sim sim' : ExchangeSimulator ε} (h : Alike R sim sim') (s : σ) {reader : ρ}
    {es : List Event} (hes : Delivers reader es) {fuel : ℕ} (hfuel : es.length < fuel) :
    ∃ after after', recordedBacktest lob config strategy fuel reader s sim = some after ∧
      UltraBacktest.recordedBacktest lob (config.withCosts feeModel initialCash) strategy fuel
        reader s sim' = some after' ∧
      ∀ s₁ sim₁ log, after.strategy = some (s₁, sim₁, log) →
        ∃ sim₁', after'.strategy = some (s₁, sim₁', log) ∧ Alike R sim₁ sim₁' := by
  obtain ⟨after, hrun, hcases⟩ := recordedBacktest_cases lob config strategy s sim hes hfuel
  obtain ⟨after', hrun', hsession⟩ := recordedBacktest_eq_session lob
    (config.withCosts feeModel initialCash) strategy s sim' hes hfuel
  refine ⟨after, after', hrun, hrun', ?_⟩
  intro s₁ sim₁ log hafter
  obtain ⟨sim₀, hinit, hwhole, rfl⟩ := hcases s₁ sim₁ log hafter
  obtain ⟨sim₀', hinit', h₀⟩ := h.initializeEngine hR feeModel initialCash hinit
  obtain ⟨sim₁', hwhole', h₁, htrace⟩ := (hblind.session _ s).simulates
    (fun c w w' answer w₁ hc hw hanswer => hw.answer hR feeModel initialCash hc hanswer)
    h₀ hwhole
  refine ⟨sim₁', ?_, h₁⟩
  rw [hinit', Option.bind_some] at hsession
  rw [hsession, ← htrace]
  exact congrArg (Option.map _) hwhole'

end Alike

/-! ## Portfolios with the same positions -/

/-- The portfolios may differ in their cash and their configuration. -/
def SamePositions (p p' : Option Portfolio) : Prop :=
  p'.map Portfolio.positions = p.map Portfolio.positions

theorem Portfolio.onReport_samePositions {p p' q : Portfolio} {rpt : LobReport}
    (h : p'.positions = p.positions) (hq : p.onReport rpt = some q) :
    ∃ q', p'.onReport rpt = some q' ∧ q'.positions = q.positions := by
  rw [onReport] at hq ⊢
  cases hfill : rpt.isFill with
  | false =>
      rw [hfill] at hq
      cases hq
      exact ⟨p', rfl, h⟩
  | true =>
      rw [hfill] at hq
      obtain ⟨s, hs, hbooks⟩ := Option.bind_eq_some_iff.mp hq
      split_ifs at hbooks with hzero
      cases hbooks
      refine ⟨p'.onExecution (rpt.at s), ?_, ?_⟩
      · rw [hs, Option.bind_some, h, if_neg hzero]
        rfl
      · rw [positions_onExecution_at p' s hfill, positions_onExecution_at p s hfill, h]

theorem booksAlong_samePositions : BooksAlong SamePositions := by
  have hfold : ∀ (rpts : List LobReport) (p p' q : Portfolio), p'.positions = p.positions →
      rpts.foldlM Portfolio.onReport p = some q →
        ∃ q', rpts.foldlM Portfolio.onReport p' = some q' ∧ q'.positions = q.positions := by
    intro rpts
    induction rpts with
    | nil =>
        rintro p p' q h hq
        cases hq
        exact ⟨p', rfl, h⟩
    | cons rpt rpts ih =>
        intro p p' q h hq
        rw [List.foldlM_cons] at hq
        obtain ⟨p₁, hp₁, hrest⟩ := Option.bind_eq_some_iff.mp hq
        obtain ⟨p₁', hp₁', h₁⟩ := Portfolio.onReport_samePositions h hp₁
        obtain ⟨q', hq', hsame⟩ := ih p₁ p₁' q h₁ hrest
        refine ⟨q', ?_, hsame⟩
        rw [List.foldlM_cons, hp₁']
        exact hq'
  intro rpts p p' q hsame hbook
  cases p with
  | none =>
      cases hbook
      cases Option.map_eq_none_iff.mp hsame
      exact ⟨none, rfl, rfl⟩
  | some p =>
      obtain ⟨p', rfl, hpositions⟩ := Option.map_eq_some_iff.mp hsame
      obtain ⟨p₁, hp₁, rfl⟩ := Option.map_eq_some_iff.mp hbook
      obtain ⟨p₁', hp₁', hsame₁⟩ := hfold rpts p p' p₁ hpositions hp₁
      exact ⟨some p₁', congrArg (Option.map some) hp₁', congrArg some hsame₁⟩

/-! ## Costs -/

section Costs

variable (lob : MatchingEngine ε τ μ) (config : ExchangeConfig)
  {strategy : ExchangeStrategy ε τ μ σ} (hblind : strategy.Blind) (s : σ) {reader : ρ}
  {es : List Event} (hes : Delivers reader es) {fuel : ℕ} (hfuel : es.length < fuel)

include hblind hes hfuel

/-- Under other fees and another initial cash the same orders are sent and filled, the
positions are the same, and the cash differs by the costs of those fills. -/
theorem costs_move_cash_only (feeModel : FeeModel) (initialCash : ℤ) :
    let start := fun config : ExchangeConfig =>
      ExchangeSimulator.new lob config (some (Portfolio.init config.toBacktestConfig))
    let config' := config.withCosts feeModel initialCash
    ∃ after after',
      recordedBacktest lob config strategy fuel reader s (start config) = some after ∧
      recordedBacktest lob config' strategy fuel reader s (start config') = some after' ∧
      ∀ s₁ sim₁ log, after.strategy = some (s₁, sim₁, log) →
        ∃ sim₁' p p', after'.strategy = some (s₁, sim₁', log) ∧ sim₁'.engine = sim₁.engine ∧
          sim₁.portfolio = some p ∧ sim₁'.portfolio = some p' ∧ p'.positions = p.positions ∧
          let steps := (booked (lob.reports (start config).engine
            (backtestCalls config (start config) log))).map Step.report
          p'.cash - p.cash = initialCash - config.initialCash -
            (feesCharged feeModel steps - feesCharged config.feeModel steps) := by
  intro start config'
  have hstart : Alike SamePositions (start config) (start config') := ⟨rfl, rfl, rfl⟩
  obtain ⟨after, after', hrun, hrun', halike⟩ := hstart.recordedBacktest booksAlong_samePositions
    feeModel initialCash hblind s hes hfuel
  refine ⟨after, after', hrun, hrun', ?_⟩
  intro s₁ sim₁ log hafter
  obtain ⟨sim₁', hafter', h₁⟩ := halike s₁ sim₁ log hafter
  have hp := (settled_of_recordedBacktest lob config strategy s (start config) hes hfuel hrun
    hafter).portfolio_eq
  have hp' := (settled_of_recordedBacktest lob config' strategy s (start config') hes hfuel
    hrun' hafter').portfolio_eq
  have hpositions := h₁.portfolio
  rw [SamePositions, hp, hp'] at hpositions
  refine ⟨sim₁', _, _, hafter', h₁.engine_eq, hp, hp', Option.some.inj hpositions, ?_⟩
  intro steps
  have hcash := Portfolio.run_init_cash config.toBacktestConfig steps
  have hcash' := Portfolio.run_init_cash config'.toBacktestConfig steps
  have hrealized : ((Portfolio.init config'.toBacktestConfig).run steps).totalRealized =
      ((Portfolio.init config.toBacktestConfig).run steps).totalRealized := by
    rw [Portfolio.totalRealized, Portfolio.totalRealized]
    exact congrArg (fun f : Slot → Position => ∑ s, (f s).realizedPnl)
      (Option.some.inj hpositions)
  change ((Portfolio.init config'.toBacktestConfig).run steps).cash -
    ((Portfolio.init config.toBacktestConfig).run steps).cash = _
  rw [hcash, hcash', hrealized]
  change initialCash - feesCharged feeModel steps + _ - _ = _
  ring

/-- A null portfolio changes nothing on the exchange. -/
theorem portfolio_only_watches (sim : ExchangeSimulator ε) :
    ∃ after after',
      recordedBacktest lob config strategy fuel reader s sim = some after ∧
      recordedBacktest lob config strategy fuel reader s { sim with portfolio := none } =
        some after' ∧
      ∀ s₁ sim₁ log, after.strategy = some (s₁, sim₁, log) →
        after'.strategy = some (s₁, { sim₁ with portfolio := none }, log) := by
  have hnone : BooksAlong (fun _ p' => p' = none) := by
    rintro rpts p p' q rfl -
    exact ⟨none, rfl, rfl⟩
  have hstart : Alike (fun _ p' => p' = none) sim { sim with portfolio := none } :=
    ⟨rfl, rfl, rfl⟩
  obtain ⟨after, after', hrun, hrun', halike⟩ := hstart.recordedBacktest hnone
    config.feeModel config.initialCash hblind s hes hfuel
  refine ⟨after, after', hrun, hrun', ?_⟩
  intro s₁ sim₁ log hafter
  obtain ⟨⟨engine, portfolio, currentTime⟩, hafter', hengine, htime, hportfolio⟩ :=
    halike s₁ sim₁ log hafter
  cases hengine
  cases htime
  cases hportfolio
  exact hafter'

end Costs

/-- A strategy that buys and sells what it sees traded and reads nothing. -/
def blindTrader : ExchangeStrategy CrossingBook (ℕ × ℤ) Unit ℕ where
  onTrade ts sym trade n :=
    .call (.sendOrder ⟨⟨sym, .buy, trade.qty⟩, ts, n, trade.price⟩) (fun _ =>
      .call (.sendOrder ⟨⟨sym, .sell, trade.qty⟩, ts, n + 1, trade.price⟩) (fun _ =>
        .done (n + 2)))

theorem blind_blindTrader : blindTrader.Blind := by
  intro e n
  obtain ⟨ts, sym, body⟩ := e
  cases body with
  | trade trade =>
      refine ⟨fun h => ?_, fun _ => ⟨fun h => ?_, fun _ => trivial⟩⟩
      · cases h
      · cases h
  | _ => trivial

/-- Two fills at a fee of three, and of five with another initial cash. -/
theorem costs_move_cash_only_self_trade :
    ∃ after' sim₁' p', recordedBacktest crossingBook (selfTradeConfig.withCosts ⟨0, 5, 0, 0⟩ 2000)
        blindTrader 2 (⟨[Event.makeTrade 5 1 100 2 .buy], 0⟩ : MemoryReader) 0
        (.new crossingBook (selfTradeConfig.withCosts ⟨0, 5, 0, 0⟩ 2000)
          (some (Portfolio.init (selfTradeConfig.withCosts ⟨0, 5, 0, 0⟩ 2000).toBacktestConfig))) =
        some after' ∧
      after'.strategy.map (fun q => q.2.1) = some sim₁' ∧ sim₁'.portfolio = some p' ∧
      p'.cash = 1990 := by
  obtain ⟨after, after', hrun, hrun', hcosts⟩ := costs_move_cash_only crossingBook
    selfTradeConfig blind_blindTrader 0
    (MemoryReader.delivers [Event.makeTrade 5 1 100 2 .buy] 0) (by decide : _ < 2) ⟨0, 5, 0, 0⟩
    2000
  have hdefined : ∃ s₁ sim₁ log p, after.strategy = some (s₁, sim₁, log) ∧
      sim₁.portfolio = some p ∧ p.cash = 994 ∧
      booked (crossingBook.reports selfTradeStart.engine
        (backtestCalls selfTradeConfig selfTradeStart log)) =
          [⟨1, .buy, 2, 100, true⟩, ⟨1, .sell, 2, 100, true⟩] := by
    obtain rfl := Option.some.inj hrun
    exact ⟨_, _, _, _, rfl, rfl, by decide, by decide⟩
  obtain ⟨s₁, sim₁, log, p, hafter, hp, hcash, hfills⟩ := hdefined
  obtain ⟨sim₁', q, p', hafter', -, hq, hp', -, hdiff⟩ := hcosts s₁ sim₁ log hafter
  cases hp.symm.trans hq
  refine ⟨after', sim₁', p', hrun', by rw [hafter']; rfl, hp', ?_⟩
  dsimp only at hdiff
  rw [← selfTradeStart, hfills, hcash] at hdiff
  have hfees : feesCharged ⟨0, 5, 0, 0⟩ [.report ⟨1, .buy, 2, 100, true⟩,
      .report ⟨1, .sell, 2, 100, true⟩] - feesCharged selfTradeConfig.feeModel
        [.report ⟨1, .buy, 2, 100, true⟩, .report ⟨1, .sell, 2, 100, true⟩] = 4 := by decide
  have hinitial : selfTradeConfig.initialCash = 1000 := rfl
  rw [List.map_cons, List.map_cons, List.map_nil, hfees, hinitial] at hdiff
  linarith

/-- The same two orders rest and trade without a portfolio. -/
theorem portfolio_only_watches_self_trade :
    ∃ after after' s₁ sim₁ log, recordedBacktest crossingBook selfTradeConfig blindTrader 2
        (⟨[Event.makeTrade 5 1 100 2 .buy], 0⟩ : MemoryReader) 0 selfTradeStart = some after ∧
      recordedBacktest crossingBook selfTradeConfig blindTrader 2
        (⟨[Event.makeTrade 5 1 100 2 .buy], 0⟩ : MemoryReader) 0
        { selfTradeStart with portfolio := none } = some after' ∧
      after.strategy = some (s₁, sim₁, log) ∧
      after'.strategy = some (s₁, { sim₁ with portfolio := none }, log) := by
  obtain ⟨after, after', hrun, hrun', hsame⟩ := portfolio_only_watches crossingBook
    selfTradeConfig blind_blindTrader 0
    (MemoryReader.delivers [Event.makeTrade 5 1 100 2 .buy] 0) (by decide : _ < 2)
    selfTradeStart
  have hdefined : ∃ s₁ sim₁ log, after.strategy = some (s₁, sim₁, log) := by
    obtain rfl := Option.some.inj hrun
    exact ⟨_, _, _, rfl⟩
  obtain ⟨s₁, sim₁, log, hafter⟩ := hdefined
  exact ⟨after, after', s₁, sim₁, log, hrun, hrun', hafter, hsame s₁ sim₁ log hafter⟩

end UltraBacktest
