import UltraBacktest.Model.Python
import UltraBacktest.Verification.Binary.Layout
import UltraBacktest.Verification.Binary.Passes
import UltraBacktest.Verification.Exchange.Settlement
import UltraBacktest.Verification.Portfolio.TotalPnl

/-! Backtests from Python. The bridge hands on trades and ticks and offers no way to send an
order, so a runner shows its strategy the trades and ticks of each file and its portfolio
stays as it was made. -/

namespace UltraBacktest

open Interaction Stream
open EventLayout (twoSides fileOf)

variable {ε τ μ : Type} {π χ : Type*}

/-! ## What Python is to see -/

/-- An event as Python sees it. -/
inductive PyEvent where
  | trade (ts : ℤ) (sym : Symbol) (trade : TradeData)
  | tick (ts : ℤ) (sym : Symbol) (tick : PyTickData)
  deriving DecidableEq, Repr

def Event.toPython? (e : Event) : Option PyEvent :=
  match e.body with
  | .trade trade => some (.trade e.timestamp e.symbol trade)
  | .marketTick tick => some (.tick e.timestamp e.symbol tick.toPython)
  | _ => none

def PyStrategyBase.notify (strat : PyStrategyBase π χ) : PyEvent → π → π × Option χ
  | .trade ts sym trade => strat.onTrade ts sym trade
  | .tick ts sym tick => strat.onTick ts sym tick

/-- The events one after the other, up to the first exception. -/
def PyStrategyBase.deliver (strat : PyStrategyBase π χ) : List PyEvent → π → π × Option χ
  | [], p => (p, none)
  | e :: es, p =>
      match strat.notify e p with
      | (p, none) => strat.deliver es p
      | (p, some x) => (p, some x)

/-- The events of a binary file that Python can see. -/
def pyEvents (sides : SideCode) (content : List UInt8) : List PyEvent :=
  ((Blocks.blocks recordSize content).map (EventLayout.eventOf sides)).filterMap Event.toPython?

/-- The file opens and holds a record. -/
def Opens (dataFile : Option (List UInt8)) : Bool :=
  dataFile.any (fun content => recordSize ≤ content.length)

/-- What a run is to throw and to do to the interpreter. -/
def observed (sides : SideCode) (pyStrat : Option (PyStrategyBase π χ))
    (dataFile : Option (List UInt8)) (p : π) : Option (PyError χ) × π :=
  if Opens dataFile then
    let after := pyStrat.elim (p, none) (fun strat =>
      strat.deliver (pyEvents sides (dataFile.getD [])) p)
    (after.2.map .raised, after.1)
  else (some (.runtimeError "Failed to open data file"), p)

/-! ## The bridge -/

/-- The program that the bridge runs for an event makes no request. -/
theorem cppBridgeStrategy_act (pyStrat : Option (PyStrategyBase π χ)) (e : Event)
    (state : π × Option χ) :
    (cppBridgeStrategy (ε := ε) (τ := τ) (μ := μ) pyStrat).act e state =
      .done (e.toPython?.elim state (fun e => delegate pyStrat (·.notify e) state)) := by
  rw [TradingStrategy.act, Event.toPython?]
  cases e.body <;> rfl

theorem cppBridgeStrategy_session (pyStrat : Option (PyStrategyBase π χ)) (es : List Event)
    (state : π × Option χ) :
    (cppBridgeStrategy (ε := ε) (τ := τ) (μ := μ) pyStrat).session es state =
      .done ((es.filterMap Event.toPython?).foldl
        (fun state e => delegate pyStrat (·.notify e) state) state) := by
  induction es generalizing state with
  | nil => rfl
  | cons e es ih =>
      rw [TradingStrategy.session, Program.each, cppBridgeStrategy_act]
      have hrest := ih (e.toPython?.elim state (fun e => delegate pyStrat (·.notify e) state))
      rw [Program.bind]
      refine hrest.trans ?_
      cases hpython : e.toPython? with
      | none => rw [List.filterMap_cons_none hpython]; rfl
      | some q => rw [List.filterMap_cons_some hpython]; rfl

theorem foldl_delegate_raised (pyStrat : Option (PyStrategyBase π χ)) (es : List PyEvent)
    (p : π) (x : χ) :
    es.foldl (fun state e => delegate pyStrat (·.notify e) state) (p, some x) = (p, some x) := by
  induction es with
  | nil => rfl
  | cons e es ih => exact ih

theorem foldl_delegate_none (es : List PyEvent) (p : π) :
    es.foldl (fun state e => delegate (χ := χ) none (·.notify e) state) (p, none) =
      (p, none) := by
  induction es with
  | nil => rfl
  | cons e es ih => exact ih

theorem foldl_delegate_some (strat : PyStrategyBase π χ) (es : List PyEvent) (p : π) :
    es.foldl (fun state e => delegate (some strat) (·.notify e) state) (p, none) =
      strat.deliver es p := by
  induction es generalizing p with
  | nil => rfl
  | cons e es ih =>
      have hfirst : delegate (some strat) (·.notify e) (p, none) = strat.notify e p := rfl
      rw [List.foldl_cons, hfirst, PyStrategyBase.deliver]
      obtain ⟨p', raised⟩ := strat.notify e p
      cases raised with
      | none => exact ih p'
      | some x => exact foldl_delegate_raised (some strat) es p' x

/-! ## One run -/

theorem ReplayEngine.dispatched_of_unbounded {config : BacktestConfig}
    (hstart : config.startTime = 0) (hend : config.endTime = 0) (es : List Event) :
    dispatched config es = es := by
  have hgoes : ∀ e, stops config e = false := by
    intro e
    simp [stops, afterEnd, hend]
  induction es with
  | nil => rfl
  | cons e es ih =>
      have hafter : beforeStart config e = false := by simp [beforeStart, hstart]
      rw [dispatched_cons_of_not_stops (hgoes e), hafter, ih]
      rfl

/-- Registering a symbol reports nothing: there is no order that could trade. -/
def MatchingEngine.Quiet (lob : MatchingEngine ε τ μ) : Prop :=
  ∀ sym e, (lob.call (.addSymbol sym) e).reports = []

theorem MatchingEngine.after_append (lob : MatchingEngine ε τ μ) (e : ε)
    (xs ys : List (EngineCall τ μ)) :
    lob.after e (xs ++ ys) = lob.after (lob.after e xs) ys := List.foldl_append

theorem MatchingEngine.Quiet.registers {lob : MatchingEngine ε τ μ} (hquiet : lob.Quiet)
    (syms : List Symbol) (sim : ExchangeSimulator ε) :
    syms.foldlM (fun sim sym => (sim.callEngine lob (.addSymbol sym)).map Prod.snd) sim =
      some { sim with engine := lob.after sim.engine (syms.map .addSymbol) } := by
  induction syms generalizing sim with
  | nil => rfl
  | cons sym syms ih =>
      have hcall : sim.callEngine lob (.addSymbol sym) =
          some ((lob.call (.addSymbol sym) sim.engine).answer,
            { sim with engine := lob.step sim.engine (.addSymbol sym) }) := by
        rw [ExchangeSimulator.callEngine_eq, hquiet]
        cases hp : sim.portfolio <;> simp [ExchangeSimulator.book, MatchingEngine.step]
      rw [List.foldlM_cons, hcall]
      exact ih _

/-- The calls on the engine that a run makes. -/
def registrations (live : PyConfig) (dataFile : Option (List UInt8)) :
    List (EngineCall τ μ) :=
  if Opens dataFile then live.symbols.map .addSymbol else []

/-- The replay of the records that a reader holds. -/
theorem replay_bridge (world : Handler (exchangeInterface ε τ μ) (ExchangeSimulator ε))
    (sides : SideCode) (pyStrat : Option (PyStrategyBase π χ)) {config : BacktestConfig}
    (hstart : config.startTime = 0) (hend : config.endTime = 0) {content : List UInt8}
    {fuel : ℕ} (hfuel : content.length / recordSize < fuel) {reader : BinaryReader 65536}
    (hready : reader.Ready (Blocks.blocks recordSize content)) (p : π)
    (sim : ExchangeSimulator ε) :
    ∃ after, ReplayEngine.run config ((cppBridgeStrategy pyStrat).onWorld world).dispatch fuel
        ⟨(⟨reader⟩ : EventReader sides 65536), some ((p, none), sim), 0⟩ = some after ∧
      after.strategy = some ((pyEvents sides content).foldl
        (fun state e => delegate pyStrat (·.notify e) state) (p, none), sim) := by
  have hdelivers := (hready.delivers (fun _ => rfl)
    (fun _ _ => BinaryReader.advance_ready (by decide))).1.mapped (EventLayout.eventOf sides)
  have hlength : ((Blocks.blocks recordSize content).map (EventLayout.eventOf sides)).length <
      fuel := by
    rwa [List.length_map, Blocks.blocks, List.length_map, List.length_range]
  obtain ⟨after, hrun, hafter⟩ := (cppBridgeStrategy pyStrat).run_onWorld world config
    (some ((p, none), sim)) hdelivers hlength
  refine ⟨after, hrun, ?_⟩
  rw [hafter, Option.bind_some, ReplayEngine.dispatched_of_unbounded hstart hend,
    cppBridgeStrategy_session]
  rfl

def PythonBacktestRunner.withEngine (runner : PythonBacktestRunner ε) (engine : ε) :
    PythonBacktestRunner ε :=
  { runner with sim := { runner.sim with engine := engine } }

theorem PythonBacktestRunner.run_eq {lob : MatchingEngine ε τ μ} (hquiet : lob.Quiet)
    (sides : SideCode) (pyStrat : Option (PyStrategyBase π χ)) (live : PyConfig)
    {dataFile : Option (List UInt8)} {fuel : ℕ}
    (hfuel : ∀ content ∈ dataFile, content.length / recordSize < fuel)
    {runner : PythonBacktestRunner ε} (hstart : runner.config.startTime = 0)
    (hend : runner.config.endTime = 0) (p : π) :
    run lob sides pyStrat fuel live dataFile runner p =
      some ((observed sides pyStrat dataFile p).1,
        runner.withEngine (lob.after runner.sim.engine (registrations live dataFile)),
        (observed sides pyStrat dataFile p).2) := by
  cases dataFile with
  | none => rfl
  | some content =>
      obtain ⟨reader, hopen, hready, -⟩ :=
        BinaryReader.doOpen_content (by decide : 1 ≤ 65536) {} content
      have hopens : (!(Blocks.blocks recordSize content).isEmpty) = Opens (some content) := by
        rw [Blocks.isEmpty_blocks (by decide), Bool.not_not]
        rfl
      rw [run, hopen, hopens, Option.bind_some, observed, registrations]
      cases hcase : Opens (some content) with
      | false => rfl
      | true =>
          obtain ⟨after, hrun, hafter⟩ := replay_bridge
            (ExchangeSimulator.answer lob live.toExchangeConfig) sides pyStrat hstart hend
            (hfuel content rfl) hready p
            { runner.sim with
              engine := lob.after runner.sim.engine (live.symbols.map .addSymbol) }
          have hinit : runner.sim.initializeEngine lob live.toExchangeConfig =
              some { runner.sim with
                engine := lob.after runner.sim.engine (live.symbols.map .addSymbol) } :=
            hquiet.registers live.symbols runner.sim
          simp only [Bool.not_true, Bool.false_eq_true, if_false, if_true, hinit,
            Option.bind_some, hrun, hafter, Option.map_some]
          cases pyStrat with
          | none => rw [foldl_delegate_none]; rfl
          | some strat => rw [foldl_delegate_some]; rfl

/-! ## Many runs -/

theorem Portfolio.totalPnl_init (config : BacktestConfig) :
    (Portfolio.init config).totalPnl = 0 := by
  have huntraded : ∀ s, ¬ (((Portfolio.init config).positions s).numTrades > 0 ∨
      ((Portfolio.init config).positions s).netQty ≠ 0) := by
    intro s
    simp [Portfolio.init]
  simp only [totalPnl, if_neg (huntraded _), List.foldl_fixed]

/-- The runs of one runner, each with the configuration and the file that it finds, and what
each of them throws. -/
def PythonBacktestRunner.runs (lob : MatchingEngine ε τ μ) (sides : SideCode)
    (pyStrat : Option (PyStrategyBase π χ)) (fuel : ℕ) :
    List (PyConfig × Option (List UInt8)) → PythonBacktestRunner ε → π →
      Option (List (Option (PyError χ)) × PythonBacktestRunner ε × π)
  | [], runner, p => some ([], runner, p)
  | (live, dataFile) :: calls, runner, p =>
      (runner.run lob sides pyStrat fuel live dataFile p).bind (fun (e, runner, p) =>
        (runs lob sides pyStrat fuel calls runner p).map (fun (es, runner, p) =>
          (e :: es, runner, p)))

def observedRuns (sides : SideCode) (pyStrat : Option (PyStrategyBase π χ)) :
    List (Option (List UInt8)) → π → List (Option (PyError χ)) × π
  | [], p => ([], p)
  | dataFile :: calls, p =>
      let first := observed sides pyStrat dataFile p
      let rest := observedRuns sides pyStrat calls first.2
      (first.1 :: rest.1, rest.2)

theorem PythonBacktestRunner.runs_eq {lob : MatchingEngine ε τ μ} (hquiet : lob.Quiet)
    (sides : SideCode) (pyStrat : Option (PyStrategyBase π χ)) {fuel : ℕ}
    {calls : List (PyConfig × Option (List UInt8))}
    (hfuel : ∀ q ∈ calls, ∀ content ∈ q.2, content.length / recordSize < fuel)
    (runner : PythonBacktestRunner ε) (hstart : runner.config.startTime = 0)
    (hend : runner.config.endTime = 0) (p : π) :
    runs lob sides pyStrat fuel calls runner p =
      some ((observedRuns sides pyStrat (calls.map Prod.snd) p).1,
        runner.withEngine (lob.after runner.sim.engine
          (calls.flatMap (fun q => registrations q.1 q.2))),
        (observedRuns sides pyStrat (calls.map Prod.snd) p).2) := by
  induction calls generalizing runner p with
  | nil => rfl
  | cons q calls ih =>
      obtain ⟨live, dataFile⟩ := q
      obtain ⟨hfirst, hrest⟩ := List.forall_mem_cons.mp hfuel
      rw [runs, run_eq hquiet sides pyStrat live hfirst hstart hend p, Option.bind_some]
      have hlast := ih hrest
        (runner.withEngine (lob.after runner.sim.engine (registrations live dataFile)))
        hstart hend (observed sides pyStrat dataFile p).2
      refine (congrArg (Option.map _) hlast).trans ?_
      rw [Option.map_some, List.flatMap_cons, MatchingEngine.after_append]
      rfl

/-- Whatever files a runner is run on, the strategy is shown the trades and ticks of their
records in order, up to the exception that it raises; the engine only hears of the symbols,
and the portfolio stays as it was made. -/
theorem python_runs_observed {lob : MatchingEngine ε τ μ} (hquiet : lob.Quiet)
    (sides : SideCode) (pyStrat : Option (PyStrategyBase π χ)) (config : PyConfig)
    {calls : List (PyConfig × Option (List UInt8))} {fuel : ℕ}
    (hfuel : ∀ q ∈ calls, ∀ content ∈ q.2, content.length / recordSize < fuel) (p : π) :
    ∃ runner, PythonBacktestRunner.runs lob sides pyStrat fuel calls (.new lob config) p =
        some ((observedRuns sides pyStrat (calls.map Prod.snd) p).1, runner,
          (observedRuns sides pyStrat (calls.map Prod.snd) p).2) ∧
      runner.sim.engine = lob.after (lob.new config.toExchangeConfig.orderPoolCapacity)
        (calls.flatMap (fun q => registrations q.1 q.2)) ∧
      runner.sim.portfolio =
        some (Portfolio.init config.toExchangeConfig.toBacktestConfig) ∧
      ∀ {δ : Type} (toDouble : ℤ → δ), runner.totalPnl toDouble = some (toDouble 0) := by
  refine ⟨_, PythonBacktestRunner.runs_eq hquiet sides pyStrat hfuel _ rfl rfl p, rfl, rfl, ?_⟩
  intro δ toDouble
  exact congrArg (fun total => some (toDouble total)) (Portfolio.totalPnl_init _)

theorem quiet_crossingBook : crossingBook.Quiet := fun _ _ => rfl

/-- A strategy that notes the prices it sees traded and raises at a price of zero. -/
def priceNotes : PyStrategyBase (List ℤ) String where
  onTrade _ _ trade prices :=
    if trade.price = 0 then (prices, some "no price") else (prices ++ [trade.price], none)

/-- A missing file, a file of a trade and a session mark, and a file whose first trade has no
price. -/
def threeFiles : List (PyConfig × Option (List UInt8)) :=
  [(⟨1000, [1]⟩, none),
    (⟨1000, [1]⟩, some (fileOf twoSides
      [Event.makeTrade 5 1 100 2 .buy, ⟨6, 0, .sessionEnd⟩])),
    (⟨1000, [1]⟩, some (fileOf twoSides
      [Event.makeTrade 7 1 0 2 .buy, Event.makeTrade 8 1 101 2 .buy]))]

theorem python_runs_observed_three_files :
    ∃ runner, PythonBacktestRunner.runs crossingBook twoSides (some priceNotes) 3 threeFiles
        (.new crossingBook ⟨1000, [1]⟩) [] =
          some ([some (.runtimeError "Failed to open data file"), none,
            some (.raised "no price")], runner, [100]) ∧
      runner.sim.engine.symbols = [1, 1] ∧
      runner.totalPnl id = some 0 := by
  have hfuel : ∀ q ∈ threeFiles, ∀ content ∈ q.2, content.length / recordSize < 3 := by
    decide +kernel
  have hobserved : observedRuns twoSides (some priceNotes) (threeFiles.map Prod.snd) [] =
      ([some (.runtimeError "Failed to open data file"), none, some (.raised "no price")],
        [100]) := by
    decide +kernel
  obtain ⟨runner, hruns, hengine, -, hpnl⟩ := python_runs_observed quiet_crossingBook twoSides
    (some priceNotes) ⟨1000, [1]⟩ hfuel []
  rw [hobserved] at hruns
  refine ⟨runner, hruns, ?_, hpnl id⟩
  rw [hengine]
  decide +kernel

end UltraBacktest
