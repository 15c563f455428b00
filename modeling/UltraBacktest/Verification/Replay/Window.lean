import UltraBacktest.Model.Replay

/-! The replay loop against the plain reading of its time window. The invariant says that
the two lookahead variables and the reader together hold the rest of the stream. -/

namespace UltraBacktest

open Stream

namespace ReplayEngine

variable {ρ σ : Type*} [Source ρ Event]

/-! ## The plain window -/

/-- The event at which the loop breaks. -/
def stops (config : BacktestConfig) (e : Event) : Bool :=
  !beforeStart config e && afterEnd config e

/-- The index of the first event that stops the loop, or the length of the stream. -/
def stopIndex (config : BacktestConfig) (es : List Event) : ℕ := es.findIdx (stops config)

/-- The events before the stop that are not before the start. -/
def dispatched (config : BacktestConfig) (es : List Event) : List Event :=
  (es.take (stopIndex config es)).filter (fun e => !beforeStart config e)

theorem stopIndex_cons_of_stops {config : BacktestConfig} {e : Event} {es : List Event}
    (h : stops config e = true) : stopIndex config (e :: es) = 0 := by
  simp [stopIndex, List.findIdx_cons, h]

theorem stopIndex_cons_of_not_stops {config : BacktestConfig} {e : Event} {es : List Event}
    (h : stops config e = false) :
    stopIndex config (e :: es) = stopIndex config es + 1 := by
  simp [stopIndex, List.findIdx_cons, h]

theorem dispatched_cons_of_stops {config : BacktestConfig} {e : Event} {es : List Event}
    (h : stops config e = true) : dispatched config (e :: es) = [] := by
  rw [dispatched, stopIndex_cons_of_stops h]
  rfl

theorem dispatched_cons_of_not_stops {config : BacktestConfig} {e : Event} {es : List Event}
    (h : stops config e = false) :
    dispatched config (e :: es) =
      if beforeStart config e then dispatched config es else e :: dispatched config es := by
  rw [dispatched, stopIndex_cons_of_not_stops h, List.take_succ_cons, List.filter_cons]
  cases beforeStart config e <;> rfl

/-! ## The lookahead -/

theorem readInto_of_exhausted {r : ρ} (h : Exhausted r) (outEvent : Event) :
    readInto r outEvent = some (false, outEvent, r) := by
  rw [readInto, h]
  rfl

theorem readInto_of_readNext {r r' : ρ} {e : Event} (h : readNext r = some (some e, r'))
    (outEvent : Event) : readInto r outEvent = some (true, e, r') := by
  rw [readInto, h]
  rfl

/-- The lookahead variables hold the first two events and the reader delivers the rest. -/
structure Ahead (l : Loop ρ σ) (es : List Event) : Prop where
  hasCurrent_eq : l.hasCurrent = !es.isEmpty
  current_eq : ∀ e ∈ es.head?, l.currentEvent = e
  hasNext_eq : l.hasNext = !es.tail.isEmpty
  next_eq : ∀ e ∈ es.tail.head?, l.nextEvent = e
  rest : Delivers l.reader es.tail.tail

/-- One read fills a lookahead variable and takes at most one event from the reader. -/
theorem readInto_delivers {r : ρ} {es : List Event} (h : Delivers r es) (outEvent : Event) :
    ∃ event r', readInto r outEvent = some (!es.isEmpty, event, r') ∧
      (∀ e ∈ es.head?, event = e) ∧ Reads r (es.take 1) r' ∧ Delivers r' es.tail := by
  cases es with
  | nil =>
      have hend := delivers_nil.mp h
      exact ⟨outEvent, r, readInto_of_exhausted hend outEvent, by simp, Reads.nil, h⟩
  | cons e es =>
      obtain ⟨r', hread, hrest⟩ := delivers_cons.mp h
      exact ⟨e, r', readInto_of_readNext hread outEvent, by simp,
        Reads.cons hread Reads.nil, hrest⟩

theorem prime_ahead {engine : ReplayEngine ρ σ} {es : List Event}
    (h : Delivers engine.reader es) :
    ∃ l, prime engine = some l ∧ Ahead l es ∧ Reads engine.reader (es.take 2) l.reader ∧
      l.strategy = engine.strategy ∧ l.eventsProcessed = engine.eventsProcessed := by
  obtain ⟨current, r, hread, hcurrent, hreads, hrest⟩ := readInto_delivers h default
  cases es with
  | nil =>
      have hprime : prime engine = some
          { engine with
            reader := r, currentEvent := current, nextEvent := default
            hasCurrent := false, hasNext := false } := by
        rw [prime, hread]
        rfl
      exact ⟨_, hprime, ⟨rfl, by simp, rfl, by simp, hrest⟩, hreads, rfl, rfl⟩
  | cons e es =>
      obtain ⟨next, r', hread', hnext, hreads', hrest'⟩ := readInto_delivers hrest default
      have hprime : prime engine = some
          { engine with
            reader := r', currentEvent := current, nextEvent := next
            hasCurrent := true, hasNext := !es.isEmpty } := by
        rw [prime, hread, Option.bind_some]
        exact congrArg (Option.map _) hread'
      exact ⟨_, hprime, ⟨rfl, hcurrent, rfl, hnext, hrest'⟩, hreads.append hreads', rfl, rfl⟩

/-- Advancing drops the current event from the lookahead. -/
theorem advance_ahead {l : Loop ρ σ} {e : Event} {es : List Event} (h : Ahead l (e :: es)) :
    ∃ l', advance l = some l' ∧ Ahead l' es ∧ Reads l.reader (es.tail.take 1) l'.reader ∧
      l'.strategy = l.strategy ∧ l'.eventsProcessed = l.eventsProcessed := by
  cases es with
  | nil =>
      have hnext : l.hasNext = false := h.hasNext_eq
      refine ⟨{ l with currentEvent := l.nextEvent, hasCurrent := l.hasNext }, ?_,
        ⟨hnext, by simp, hnext, by simp, h.rest⟩, Reads.nil, rfl, rfl⟩
      simp [advance, hnext]
  | cons e' es =>
      have hnext : l.hasNext = true := h.hasNext_eq
      obtain ⟨event, r, hread, hevent, hreads, hrest⟩ := readInto_delivers h.rest l.nextEvent
      have hadvance : advance l = some
          { l with
            reader := r, currentEvent := l.nextEvent, nextEvent := event
            hasCurrent := l.hasNext, hasNext := !es.isEmpty } :=
        (if_pos hnext).trans (congrArg (Option.map _) hread)
      exact ⟨_, hadvance, ⟨hnext, h.next_eq, rfl, hevent, hrest⟩, hreads, rfl, rfl⟩

/-! ## The loop -/

/-- What a run must have done to the engine, given the events it found ahead. -/
structure Replayed (dispatch : Event → σ → σ) (window taken : List Event)
    (before after : ReplayEngine ρ σ) : Prop where
  strategy_eq : after.strategy = window.foldl (fun s e => dispatch e s) before.strategy
  eventsProcessed_eq : after.eventsProcessed = before.eventsProcessed + window.length
  reader_reads : Reads before.reader taken after.reader

/-- Advancing first only adds the event it reads to those taken from the reader. -/
theorem Replayed.of_advance {dispatch : Event → σ → σ} {window es : List Event} {n : ℕ}
    {l l' : Loop ρ σ} {after : ReplayEngine ρ σ}
    (h : Replayed dispatch window (es.tail.tail.take n) l'.toReplayEngine after)
    (hreads : Reads l.reader (es.tail.take 1) l'.reader) (hstrategy : l'.strategy = l.strategy)
    (hcount : l'.eventsProcessed = l.eventsProcessed) :
    Replayed dispatch window (es.tail.take (n + 1)) l.toReplayEngine after := by
  constructor
  · rw [h.strategy_eq, hstrategy]
  · rw [h.eventsProcessed_eq, hcount]
  · rw [Nat.add_comm, List.take_add, List.drop_one]
    exact hreads.append h.reader_reads

/-- The rest of the loop dispatches the rest of the window. -/
theorem loop_replayed (config : BacktestConfig) (dispatch : Event → σ → σ)
    {es : List Event} {fuel : ℕ} (hfuel : es.length < fuel) {l : Loop ρ σ} (h : Ahead l es) :
    ∃ after, loop config dispatch fuel l = some after ∧
      Replayed dispatch (dispatched config es)
        (es.tail.tail.take (stopIndex config es)) l.toReplayEngine after := by
  induction es generalizing fuel l with
  | nil =>
      obtain ⟨fuel, rfl⟩ := Nat.exists_eq_add_of_lt hfuel
      have hdone : l.hasCurrent = false := h.hasCurrent_eq
      refine ⟨l.toReplayEngine, ?_, rfl, rfl, Reads.nil⟩
      rw [loop, hdone]
      rfl
  | cons e es ih =>
      obtain ⟨fuel, rfl⟩ : ∃ n, fuel = n + 1 := Nat.exists_eq_succ_of_ne_zero (by omega)
      -- Both branches that go on advance a state with the same lookahead.
      have hgo : ∀ l₁ : Loop ρ σ, Ahead l₁ (e :: es) →
          ∃ after, (advance l₁).bind (loop config dispatch fuel) = some after ∧
            Replayed dispatch (dispatched config es)
              (es.tail.take (stopIndex config es + 1)) l₁.toReplayEngine after := by
        intro l₁ h₁
        obtain ⟨l', hadvance, hahead, hreads, hstrategy, hcount⟩ := advance_ahead h₁
        obtain ⟨after, hloop, hafter⟩ := ih (by simpa using hfuel) hahead
        refine ⟨after, ?_, hafter.of_advance hreads hstrategy hcount⟩
        rw [hadvance]
        exact hloop
      have hhas : l.hasCurrent = true := h.hasCurrent_eq
      rw [loop, hhas, h.current_eq e rfl]
      cases hbefore : beforeStart config e with
      | true =>
          have hgoes : stops config e = false := by simp [stops, hbefore]
          rw [dispatched_cons_of_not_stops hgoes, hbefore, stopIndex_cons_of_not_stops hgoes]
          exact hgo l h
      | false =>
          cases hafter : afterEnd config e with
          | true =>
              have hstops : stops config e = true := by simp [stops, hbefore, hafter]
              rw [dispatched_cons_of_stops hstops, stopIndex_cons_of_stops hstops]
              exact ⟨l.toReplayEngine, rfl, rfl, rfl, Reads.nil⟩
          | false =>
              have hgoes : stops config e = false := by simp [stops, hafter]
              rw [dispatched_cons_of_not_stops hgoes, hbefore, stopIndex_cons_of_not_stops hgoes]
              obtain ⟨after, hloop, hreplayed⟩ :=
                hgo { l with
                  strategy := dispatch e l.strategy
                  eventsProcessed := l.eventsProcessed + 1 }
                  ⟨h.hasCurrent_eq, h.current_eq, h.hasNext_eq, h.next_eq, h.rest⟩
              refine ⟨after, hloop, hreplayed.strategy_eq, ?_, hreplayed.reader_reads⟩
              rw [hreplayed.eventsProcessed_eq]
              exact (Nat.add_assoc _ _ _).trans (congrArg _ (Nat.add_comm _ _))

/-- A run dispatches the window and takes the stop and one more event from the reader. -/
theorem run_replayed (config : BacktestConfig) (dispatch : Event → σ → σ)
    (engine : ReplayEngine ρ σ) {es : List Event} (hes : Delivers engine.reader es) {fuel : ℕ}
    (hfuel : es.length < fuel) :
    ∃ after, run config dispatch fuel engine = some after ∧
      Replayed dispatch (dispatched config es) (es.take (stopIndex config es + 2)) engine
        after := by
  obtain ⟨l, hprime, hahead, hreads, hstrategy, hcount⟩ := prime_ahead hes
  obtain ⟨after, hloop, hafter⟩ := loop_replayed config dispatch hfuel hahead
  refine ⟨after, ?_, ?_, ?_, ?_⟩
  · rw [run, hprime]
    exact hloop
  · rw [hafter.strategy_eq, hstrategy]
  · rw [hafter.eventsProcessed_eq, hcount]
  · have htail : es.tail.tail = es.drop 2 := by
      rw [← List.drop_one, ← List.drop_one, List.drop_drop]
    rw [Nat.add_comm, List.take_add, ← htail]
    exact hreads.append hafter.reader_reads

/-! ## Ordered streams -/

/-- The window as the configuration states it, zero being no bound. -/
def inWindow (config : BacktestConfig) (e : Event) : Bool :=
  (config.startTime = 0 ∨ config.startTime ≤ e.timestamp) ∧
    (config.endTime = 0 ∨ e.timestamp ≤ config.endTime)

theorem inWindow_eq (config : BacktestConfig) (e : Event) :
    inWindow config e = (!beforeStart config e && !afterEnd config e) := by
  rw [Bool.eq_iff_iff]
  simp only [inWindow, beforeStart, afterEnd, decide_eq_true_iff, Bool.and_eq_true,
    Bool.not_eq_true', decide_eq_false_iff_not]
  omega

theorem dispatched_of_sorted {config : BacktestConfig} {es : List Event}
    (hsorted : es.Pairwise (fun a b => a.timestamp ≤ b.timestamp)) :
    dispatched config es = es.filter (inWindow config) := by
  induction es with
  | nil => rfl
  | cons e es ih =>
      obtain ⟨hhead, htail⟩ := List.pairwise_cons.mp hsorted
      cases hstops : stops config e with
      | true =>
          rw [dispatched_cons_of_stops hstops]
          have hout : ∀ a ∈ e :: es, ¬ inWindow config a = true := by
            have he : config.endTime ≠ 0 ∧ e.timestamp > config.endTime := by
              simpa [afterEnd] using (Bool.and_eq_true_iff.mp hstops).2
            intro a ha
            have hle : e.timestamp ≤ a.timestamp := by
              rcases List.mem_cons.mp ha with rfl | ha
              · exact Int.le_refl _
              · exact hhead a ha
            rw [inWindow, decide_eq_true_iff]
            omega
          exact (List.filter_eq_nil_iff.mpr hout).symm
      | false =>
          rw [dispatched_cons_of_not_stops hstops, List.filter_cons, ih htail, inWindow_eq]
          cases hbefore : beforeStart config e with
          | true => rfl
          | false =>
              have hafter : afterEnd config e = false := by simpa [stops, hbefore] using hstops
              simp [hafter]

/-- A run over any finite stream dispatches the window, counts it, and leaves the reader
two events behind the stop; on an ordered stream the window is the configured one. The
dispatcher is arbitrary, so that one which records its calls shows each of them. -/
theorem run_replays_window (config : BacktestConfig) (dispatch : Event → σ → σ)
    (engine : ReplayEngine ρ σ) {es : List Event} (hes : Delivers engine.reader es) {fuel : ℕ}
    (hfuel : es.length < fuel) :
    ∃ after, run config dispatch fuel engine = some after ∧
      after.strategy =
        (dispatched config es).foldl (fun s e => dispatch e s) engine.strategy ∧
      after.eventsProcessed = engine.eventsProcessed + (dispatched config es).length ∧
      Reads engine.reader (es.take (min es.length (stopIndex config es + 2))) after.reader ∧
      (es.Pairwise (fun a b => a.timestamp ≤ b.timestamp) →
        dispatched config es = es.filter (inWindow config)) := by
  obtain ⟨after, hrun, hafter⟩ := run_replayed config dispatch engine hes hfuel
  refine ⟨after, hrun, hafter.strategy_eq, hafter.eventsProcessed_eq, ?_, dispatched_of_sorted⟩
  rw [Nat.min_comm, ← List.take_eq_take_min]
  exact hafter.reader_reads

end ReplayEngine

/-! ## The in-memory reader -/

theorem MemoryReader.delivers (events : List Event) (idx : ℕ) :
    Delivers (⟨events, idx⟩ : MemoryReader) (events.drop idx) := by
  induction hn : events.length - idx generalizing idx with
  | zero =>
      have hend : events[idx]? = none := List.getElem?_eq_none (by omega)
      rw [List.drop_eq_nil_of_le (by omega), delivers_nil]
      exact congrArg some (by rw [doReadNext, hend])
  | succ n ih =>
      have hlt : idx < events.length := by omega
      rw [List.drop_eq_getElem_cons hlt, delivers_cons]
      refine ⟨⟨events, idx + 1⟩, ?_, ih (idx + 1) (by omega)⟩
      exact congrArg some (by rw [doReadNext, List.getElem?_eq_getElem hlt])

/-- A strategy that records the times of the trades it sees. -/
def tradeTimes : Strategy (List ℤ) where
  onTrade ts _ _ log := log ++ [ts]

/-- Recording a run over three trades whose window ends before the third. -/
theorem run_replays_window_three_trades :
    ∃ after, ReplayEngine.run { startTime := 10, endTime := 20, initialCash := 0 }
        tradeTimes.dispatch 4
        ⟨(⟨[Event.makeTrade 5 1 100 1 .buy, Event.makeTrade 15 1 100 1 .buy,
          Event.makeTrade 25 1 100 1 .sell], 0⟩ : MemoryReader), [], 0⟩ = some after ∧
      after.strategy = [15] ∧ after.eventsProcessed = 1 := by
  obtain ⟨after, hrun, hstrategy, hcount, -⟩ := ReplayEngine.run_replays_window
    { startTime := 10, endTime := 20, initialCash := 0 } tradeTimes.dispatch
    ⟨(⟨[Event.makeTrade 5 1 100 1 .buy, Event.makeTrade 15 1 100 1 .buy,
      Event.makeTrade 25 1 100 1 .sell], 0⟩ : MemoryReader), [], 0⟩
    (MemoryReader.delivers _ 0) (by decide : _ < 4)
  exact ⟨after, hrun, hstrategy, hcount⟩

end UltraBacktest
