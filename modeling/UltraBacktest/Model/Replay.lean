import UltraBacktest.Library.Stream
import UltraBacktest.Model.Event

/-! The replay loop with its two-event lookahead, over any reader and any strategy. -/

namespace UltraBacktest

open Stream

/-- The callbacks of a strategy, acting on its state. -/
structure Strategy (σ : Type*) where
  onTick : ℤ → Symbol → TickData → σ → σ := fun _ _ _ s => s
  onTrade : ℤ → Symbol → TradeData → σ → σ := fun _ _ _ s => s
  onQuote : ℤ → Symbol → QuoteData → σ → σ := fun _ _ _ s => s
  onOrderAdd : ℤ → Symbol → OrderAddData → σ → σ := fun _ _ _ s => s
  onOrderCancel : ℤ → Symbol → OrderCancelData → σ → σ := fun _ _ _ s => s
  onOrderModify : ℤ → Symbol → OrderModifyData → σ → σ := fun _ _ _ s => s
  onOrderExecution : ℤ → Symbol → OrderExecutionData → σ → σ := fun _ _ _ s => s
  onTimer : ℤ → TimerData → σ → σ := fun _ _ s => s
  onSessionStart : ℤ → σ → σ := fun _ s => s
  onSessionEnd : ℤ → σ → σ := fun _ s => s

/-- `EventDispatcher::dispatch`. -/
def Strategy.dispatch {σ : Type*} (strategy : Strategy σ) (e : Event) : σ → σ :=
  match e.body with
  | .marketTick tick => strategy.onTick e.timestamp e.symbol tick
  | .trade trade => strategy.onTrade e.timestamp e.symbol trade
  | .quote quote => strategy.onQuote e.timestamp e.symbol quote
  | .orderAdd orderAdd => strategy.onOrderAdd e.timestamp e.symbol orderAdd
  | .orderCancel orderCancel => strategy.onOrderCancel e.timestamp e.symbol orderCancel
  | .orderModify orderModify => strategy.onOrderModify e.timestamp e.symbol orderModify
  | .orderExecution execution => strategy.onOrderExecution e.timestamp e.symbol execution
  | .strategyTimer timer => strategy.onTimer e.timestamp timer
  | .sessionStart => strategy.onSessionStart e.timestamp
  | .sessionEnd => strategy.onSessionEnd e.timestamp
  | .barClose => id
  | .endOfData => id
  | .unknown _ => id

/-- What a run changes: the reader, the state of the strategy and the counter. -/
structure ReplayEngine (ρ σ : Type*) where
  reader : ρ
  strategy : σ
  eventsProcessed : ℕ

namespace ReplayEngine

variable {ρ σ : Type*} [Source ρ Event]

/-- The engine and the local variables of `run`. -/
structure Loop (ρ σ : Type*) extends ReplayEngine ρ σ where
  currentEvent : Event
  nextEvent : Event
  hasCurrent : Bool
  hasNext : Bool

/-- `read_next(out_event)`: the flag, the variable after the call, and the reader. -/
def readInto (reader : ρ) (outEvent : Event) : Option (Bool × Event × ρ) :=
  (readNext reader).map (fun r => (r.1.isSome, r.1.getD outEvent, r.2))

/-- The part before the loop. -/
def prime (engine : ReplayEngine ρ σ) : Option (Loop ρ σ) :=
  (readInto engine.reader default).bind (fun (hasCurrent, currentEvent, reader) =>
    if hasCurrent then
      (readInto reader default).map (fun (hasNext, nextEvent, reader) =>
        { engine with reader, currentEvent, nextEvent, hasCurrent, hasNext })
    else
      some { engine with
        reader, currentEvent, nextEvent := default, hasCurrent, hasNext := false })

/-- The code at the label `advance`. The copy is made even when it is stale. -/
def advance (l : Loop ρ σ) : Option (Loop ρ σ) :=
  let l := { l with currentEvent := l.nextEvent, hasCurrent := l.hasNext }
  if l.hasNext then
    (readInto l.reader l.nextEvent).map (fun (hasNext, nextEvent, reader) =>
      { l with reader, nextEvent, hasNext })
  else some l

def beforeStart (config : BacktestConfig) (e : Event) : Bool :=
  config.startTime ≠ 0 ∧ e.timestamp < config.startTime

def afterEnd (config : BacktestConfig) (e : Event) : Bool :=
  config.endTime ≠ 0 ∧ e.timestamp > config.endTime

/-- The loop, with fuel for its iterations; `none` when the fuel does not suffice or a
read is undefined. -/
def loop (config : BacktestConfig) (dispatch : Event → σ → σ) :
    ℕ → Loop ρ σ → Option (ReplayEngine ρ σ)
  | 0, _ => none
  | fuel + 1, l =>
      if !l.hasCurrent then some l.toReplayEngine
      else if beforeStart config l.currentEvent then
        (advance l).bind (loop config dispatch fuel)
      else if afterEnd config l.currentEvent then some l.toReplayEngine
      else
        (advance { l with
          strategy := dispatch l.currentEvent l.strategy
          eventsProcessed := l.eventsProcessed + 1 }).bind (loop config dispatch fuel)

/-- `run` for a dispatcher that acts on the state of the strategy. -/
def run (config : BacktestConfig) (dispatch : Event → σ → σ) (fuel : ℕ)
    (engine : ReplayEngine ρ σ) : Option (ReplayEngine ρ σ) :=
  (prime engine).bind (loop config dispatch fuel)

end ReplayEngine

/-- The in-memory reader of the replay benchmark. -/
structure MemoryReader where
  events : List Event
  idx : ℕ := 0

namespace MemoryReader

def doHasNext (r : MemoryReader) : Bool := r.idx < r.events.length

def doReadNext (r : MemoryReader) : Option Event × MemoryReader :=
  match r.events[r.idx]? with
  | none => (none, r)
  | some e => (some e, { r with idx := r.idx + 1 })

instance : Source MemoryReader Event where
  hasNext := doHasNext
  readNext r := some r.doReadNext

end MemoryReader

end UltraBacktest
