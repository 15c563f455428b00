import UltraBacktest.Verification.Replay.Window

/-! The sentinel among the events. The loop ends when the reader has no more events; an
`EndOfData` record in the stream is dispatched to no callback, counted, and passed over. -/

namespace UltraBacktest

open Stream

/-! ## Callbacks -/

/-- A call that the dispatcher makes to a strategy. -/
inductive Callback where
  | onTick (ts : ℤ) (sym : Symbol) (tick : TickData)
  | onTrade (ts : ℤ) (sym : Symbol) (trade : TradeData)
  | onQuote (ts : ℤ) (sym : Symbol) (quote : QuoteData)
  | onOrderAdd (ts : ℤ) (sym : Symbol) (orderAdd : OrderAddData)
  | onOrderCancel (ts : ℤ) (sym : Symbol) (orderCancel : OrderCancelData)
  | onOrderModify (ts : ℤ) (sym : Symbol) (orderModify : OrderModifyData)
  | onOrderExecution (ts : ℤ) (sym : Symbol) (execution : OrderExecutionData)
  | onTimer (ts : ℤ) (timer : TimerData)
  | onSessionStart (ts : ℤ)
  | onSessionEnd (ts : ℤ)
  deriving DecidableEq, Repr

/-- The strategy together with a log of the calls made to it. -/
def Strategy.logged {σ : Type*} (strategy : Strategy σ) : Strategy (σ × List Callback) where
  onTick ts sym tick s := (strategy.onTick ts sym tick s.1, s.2 ++ [.onTick ts sym tick])
  onTrade ts sym trade s := (strategy.onTrade ts sym trade s.1, s.2 ++ [.onTrade ts sym trade])
  onQuote ts sym quote s := (strategy.onQuote ts sym quote s.1, s.2 ++ [.onQuote ts sym quote])
  onOrderAdd ts sym add s :=
    (strategy.onOrderAdd ts sym add s.1, s.2 ++ [.onOrderAdd ts sym add])
  onOrderCancel ts sym cancel s :=
    (strategy.onOrderCancel ts sym cancel s.1, s.2 ++ [.onOrderCancel ts sym cancel])
  onOrderModify ts sym modify s :=
    (strategy.onOrderModify ts sym modify s.1, s.2 ++ [.onOrderModify ts sym modify])
  onOrderExecution ts sym execution s :=
    (strategy.onOrderExecution ts sym execution s.1,
      s.2 ++ [.onOrderExecution ts sym execution])
  onTimer ts timer s := (strategy.onTimer ts timer s.1, s.2 ++ [.onTimer ts timer])
  onSessionStart ts s := (strategy.onSessionStart ts s.1, s.2 ++ [.onSessionStart ts])
  onSessionEnd ts s := (strategy.onSessionEnd ts s.1, s.2 ++ [.onSessionEnd ts])

def Event.isEndOfData (e : Event) : Bool := e.body = .endOfData

namespace ReplayEngine

variable {ρ σ : Type*} [Source ρ Event]

/-- What a run of a new engine makes of a reader: the strategy with the calls made to it, and
the number of events processed. -/
def replay (config : BacktestConfig) (strategy : Strategy σ) (fuel : ℕ) (s : σ) (reader : ρ) :
    Option ((σ × List Callback) × ℕ) :=
  (run config strategy.logged.dispatch fuel ⟨reader, (s, []), 0⟩).map
    (fun after => (after.strategy, after.eventsProcessed))

theorem replay_eq (config : BacktestConfig) (strategy : Strategy σ) (s : σ) {reader : ρ}
    {es : List Event} (hes : Delivers reader es) {fuel : ℕ} (hfuel : es.length < fuel) :
    replay config strategy fuel s reader =
      some ((dispatched config es).foldl (fun s e => strategy.logged.dispatch e s) (s, []),
        (dispatched config es).length) := by
  obtain ⟨after, hrun, hafter⟩ := run_replayed config strategy.logged.dispatch
    ⟨reader, (s, []), 0⟩ hes hfuel
  rw [replay, hrun, Option.map_some, hafter.strategy_eq, hafter.eventsProcessed_eq, Nat.zero_add]

/-! ## Cutting a stream short -/

/-- What the loop dispatches from an index on comes behind what it dispatches of the events
before that index. -/
theorem dispatched_take (config : BacktestConfig) (es : List Event) (k : ℕ) :
    dispatched config es = dispatched config (es.take k) ++
      ((es.take (stopIndex config es)).drop k).filter (fun e => !beforeStart config e) := by
  have hstop : (es.take k).take (stopIndex config (es.take k)) =
      (es.take (stopIndex config es)).take k := by
    rw [stopIndex, List.findIdx_take, ← stopIndex, List.take_take, List.take_take]
    congr 1
    omega
  rw [dispatched, dispatched, hstop, ← List.filter_append, List.take_append_drop]

theorem replay_take_iff (config : BacktestConfig) (strategy : Strategy σ) (s : σ) {r r' : ρ}
    {es : List Event} {k : ℕ} (hes : Delivers r es) (hfront : Delivers r' (es.take k)) {fuel : ℕ}
    (hfuel : es.length < fuel) :
    replay config strategy fuel s r = replay config strategy fuel s r' ↔
      ∀ e ∈ (es.take (stopIndex config es)).drop k, beforeStart config e = true := by
  have hfuel' : (es.take k).length < fuel := (List.length_take_le' k es).trans_lt hfuel
  have hsplit := dispatched_take config es k
  rw [replay_eq config strategy s hes hfuel, replay_eq config strategy s hfront hfuel']
  constructor
  · intro hsame e he
    -- The counters agree, so nothing is dispatched from the index on.
    have hlength := congrArg Prod.snd (Option.some.inj hsame)
    dsimp only at hlength
    rw [hsplit, List.length_append, Nat.add_eq_left, List.length_eq_zero_iff,
      List.filter_eq_nil_iff] at hlength
    simpa using hlength e he
  · intro hbefore
    have hnone : ((es.take (stopIndex config es)).drop k).filter
        (fun e => !beforeStart config e) = [] := by
      rw [List.filter_eq_nil_iff]
      intro e he
      simp [hbefore e he]
    rw [hsplit, hnone, List.append_nil]

/-- Every `EndOfData` event ends the replay exactly when all that the loop visits from the
first one on lies before the window. -/
theorem end_of_data_ends_replay_iff (config : BacktestConfig) (strategy : Strategy σ) (s : σ)
    (source : List Event → ρ) (hsource : ∀ es, Delivers (source es) es) (es : List Event)
    {fuel : ℕ} (hfuel : es.length < fuel) :
    (replay config strategy fuel s (source es)).isSome ∧
      ((∀ k e, es[k]? = some e → e.isEndOfData →
          replay config strategy fuel s (source es) =
            replay config strategy fuel s (source (es.take k))) ↔
        ∀ e ∈ (es.take (stopIndex config es)).drop (es.findIdx Event.isEndOfData),
          beforeStart config e = true) := by
  have hcut := fun k => replay_take_iff config strategy s (hsource es) (hsource (es.take k)) hfuel
  refine ⟨?_, ?_, ?_⟩
  · rw [replay_eq config strategy s (hsource es) hfuel]
    rfl
  · intro hends
    rcases Nat.lt_or_ge (es.findIdx Event.isEndOfData) es.length with hlt | hge
    · have hfirst : (es[es.findIdx Event.isEndOfData]).isEndOfData := List.findIdx_getElem
      exact (hcut _).mp (hends _ _ (List.getElem?_eq_getElem hlt) hfirst)
    · -- No such event in the stream.
      intro e he
      rw [List.drop_eq_nil_of_le (by rw [List.length_take]; omega)] at he
      cases he
  · intro hbefore k e hk he
    obtain ⟨hlt, hget⟩ := List.getElem?_eq_some_iff.mp hk
    have hle : es.findIdx Event.isEndOfData ≤ k := by
      by_contra hless
      have hnot := List.not_of_lt_findIdx (not_le.mp hless)
      rw [hget, he] at hnot
      cases hnot
    rw [hcut]
    intro e' he'
    apply hbefore
    rw [← Nat.add_sub_cancel' hle, ← List.drop_drop] at he'
    exact List.mem_of_mem_drop he'

end ReplayEngine

/-- A sentinel with the time zero behind the last trade is before the window. -/
theorem end_of_data_ends_replay_before_window :
    ReplayEngine.replay { startTime := 10, initialCash := 0 } tradeTimes 3 []
        (⟨[Event.makeTrade 15 1 100 1 .buy, {}], 0⟩ : MemoryReader) =
      ReplayEngine.replay { startTime := 10, initialCash := 0 } tradeTimes 3 []
        (⟨[Event.makeTrade 15 1 100 1 .buy], 0⟩ : MemoryReader) := by
  obtain ⟨-, hiff⟩ := ReplayEngine.end_of_data_ends_replay_iff
    { startTime := 10, initialCash := 0 } tradeTimes []
    (fun es => (⟨es, 0⟩ : MemoryReader)) (fun es => MemoryReader.delivers es 0)
    [Event.makeTrade 15 1 100 1 .buy, {}] (by decide : _ < 3)
  exact hiff.mpr (by decide) 1 {} rfl rfl

/-- A sentinel and a trade behind it: the trade is dispatched, and both are counted. -/
theorem replay_passes_end_of_data :
    Event.isEndOfData {} = true ∧
      ReplayEngine.replay { initialCash := 0 } tradeTimes 3 []
        (⟨[{}, Event.makeTrade 5 1 100 1 .buy], 0⟩ : MemoryReader) =
          some (([5], [.onTrade 5 1 ⟨100, 1, .buy⟩]), 2) ∧
      ReplayEngine.replay { initialCash := 0 } tradeTimes 3 []
        (⟨[{}, Event.makeTrade 5 1 100 1 .buy].take 0, 0⟩ : MemoryReader) =
          some (([], []), 0) :=
  ⟨by decide, by decide, by decide⟩

end UltraBacktest
