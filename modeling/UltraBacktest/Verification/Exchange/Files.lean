import UltraBacktest.Verification.Binary.Layout
import UltraBacktest.Verification.Binary.Passes
import UltraBacktest.Verification.Csv.Passes
import UltraBacktest.Verification.Exchange.Settlement

/-! Backtests on files. The chunked readers hand the loop what a plain reading of the file
finds, so a backtest on a file is the backtest on those events in memory. -/

namespace UltraBacktest

open Stream EventLayout

/-! ## One stream from two readers -/

section Streams

variable {ρ ρ' σ : Type*} [Source ρ Event] [Source ρ' Event]

/-- What a run makes of a stream does not depend on the reader that delivers it. -/
theorem ReplayEngine.run_congr (config : BacktestConfig) (dispatch : Event → σ → σ) (s : σ)
    (n : ℕ) {reader : ρ} {reader' : ρ'} {es : List Event} (hes : Delivers reader es)
    (hes' : Delivers reader' es) {fuel : ℕ} (hfuel : es.length < fuel) :
    (run config dispatch fuel ⟨reader, s, n⟩).map (fun a => (a.strategy, a.eventsProcessed)) =
      (run config dispatch fuel ⟨reader', s, n⟩).map
        (fun a => (a.strategy, a.eventsProcessed)) := by
  obtain ⟨after, hrun, hafter⟩ := run_replayed config dispatch ⟨reader, s, n⟩ hes hfuel
  obtain ⟨after', hrun', hafter'⟩ := run_replayed config dispatch ⟨reader', s, n⟩ hes' hfuel
  rw [hrun, hrun', Option.map_some, Option.map_some, hafter.strategy_eq, hafter'.strategy_eq,
    hafter.eventsProcessed_eq, hafter'.eventsProcessed_eq]

variable {ε τ μ : Type}

/-- What a backtest leaves besides its reader: the strategy and the exchange with their
record, and the number of events. -/
def backtestResult (lob : MatchingEngine ε τ μ) (config : ExchangeConfig)
    (strategy : ExchangeStrategy ε τ μ σ) (fuel : ℕ) (s : σ) (sim : ExchangeSimulator ε)
    (reader : ρ) :=
  (recordedBacktest lob config strategy fuel reader s sim).map
    (fun a => (a.strategy, a.eventsProcessed))

theorem backtestResult_congr (lob : MatchingEngine ε τ μ) (config : ExchangeConfig)
    (strategy : ExchangeStrategy ε τ μ σ) (s : σ) (sim : ExchangeSimulator ε) {reader : ρ}
    {reader' : ρ'} {es : List Event} (hes : Delivers reader es) (hes' : Delivers reader' es)
    {fuel : ℕ} (hfuel : es.length < fuel) :
    backtestResult lob config strategy fuel s sim reader =
      backtestResult lob config strategy fuel s sim reader' :=
  ReplayEngine.run_congr _ _ _ _ hes hes' hfuel

end Streams

/-! ## Files -/

theorem blocks_fileOf (sides : SideCode) (es : List Event) {rest : List UInt8}
    (hrest : rest.length < recordSize) :
    Blocks.blocks recordSize (fileOf sides es ++ rest) = es.map (recordOf sides) := by
  rw [fileOf, List.flatMap_def]
  apply Blocks.blocks_flatten (by decide) _ hrest
  intro b hb
  obtain ⟨e, -, rfl⟩ := List.mem_map.mp hb
  exact length_recordOf sides e

/-- Reading a written file back gives its events. -/
theorem delivers_fileOf (sides : SideCode) {es : List Event}
    (hes : ∀ e ∈ es, e.Representable) {rest : List UInt8} (hrest : rest.length < recordSize)
    {eventsPerRead : ℕ} (hcap : 1 ≤ eventsPerRead) (r : BinaryReader eventsPerRead) :
    ∃ r', r.doOpen (some (fileOf sides es ++ rest)) = some (!es.isEmpty, r') ∧
      Delivers (⟨r'⟩ : EventReader sides eventsPerRead) es := by
  obtain ⟨r', hopen, hready, -⟩ := BinaryReader.doOpen_content hcap r (fileOf sides es ++ rest)
  have hdelivers := (hready.delivers (fun _ => rfl)
    (fun _ _ => BinaryReader.advance_ready hcap)).1
  rw [blocks_fileOf sides es hrest] at hopen hdelivers
  refine ⟨r', by rw [hopen, List.isEmpty_map], ?_⟩
  have hmapped := hdelivers.mapped (EventLayout.eventOf sides)
  have hback : (es.map (recordOf sides)).map (EventLayout.eventOf sides) = es := by
    rw [List.map_map]
    exact (List.map_congr_left (g := id)
      (fun e he => eventOf_recordOf sides (hes e he))).trans (List.map_id es)
  rwa [hback] at hmapped

section Backtests

variable {ε τ μ : Type} {σ : Type*} (lob : MatchingEngine ε τ μ) (config : ExchangeConfig)
  (strategy : ExchangeStrategy ε τ μ σ) (s : σ) (sim : ExchangeSimulator ε)

/-- A backtest on a binary file is the backtest on the events written to it, for every chunk
capacity and whatever incomplete record ends the file. -/
theorem binary_backtest_eq_memory (sides : SideCode) {es : List Event}
    (hes : ∀ e ∈ es, e.Representable) {rest : List UInt8} (hrest : rest.length < recordSize)
    {eventsPerRead : ℕ} (hcap : 1 ≤ eventsPerRead) (r : BinaryReader eventsPerRead) {fuel : ℕ}
    (hfuel : es.length < fuel) :
    ∃ r', r.doOpen (some (fileOf sides es ++ rest)) = some (!es.isEmpty, r') ∧
      backtestResult lob config strategy fuel s sim (⟨r'⟩ : EventReader sides eventsPerRead) =
        backtestResult lob config strategy fuel s sim (⟨es, 0⟩ : MemoryReader) := by
  obtain ⟨r', hopen, hdelivers⟩ := delivers_fileOf sides hes hrest hcap r
  refine ⟨r', hopen, ?_⟩
  exact backtestResult_congr lob config strategy s sim hdelivers (MemoryReader.delivers es 0) hfuel

/-- A backtest on a CSV file is the backtest on the events of its rows, for every buffer
capacity and every way the reads split the file. -/
theorem csv_backtest_eq_memory {num : Numeric} {io : File.Chunking} {bufferSize : ℕ}
    (hcap : 1 ≤ bufferSize) (r : CsvReader num io bufferSize) (content : List UInt8) {fuel : ℕ}
    (hfuel : (decodeAll num r.decoder (dataRows content)).length < fuel) :
    ∃ opened r', r.doOpen (some content) = some (opened, r') ∧
      backtestResult lob config strategy fuel s sim r' =
        backtestResult lob config strategy fuel s sim
          (⟨decodeAll num r.decoder (dataRows content), 0⟩ : MemoryReader) := by
  obtain ⟨r', hopen, hready⟩ := CsvReader.doOpen_ready hcap r content
  refine ⟨_, r', hopen, ?_⟩
  exact backtestResult_congr lob config strategy s sim hready.delivers.1
    (MemoryReader.delivers _ 0) hfuel

end Backtests

/-- One trade and two bytes more, read one record at a time. -/
theorem binary_backtest_eq_memory_one_trade :
    ∃ r' : BinaryReader 1, ({} : BinaryReader 1).doOpen
        (some (fileOf twoSides [Event.makeTrade 5 1 100 2 .buy] ++ [1, 2])) = some (true, r') ∧
      backtestResult crossingBook selfTradeConfig selfTrader 2 [] selfTradeStart
          (⟨r'⟩ : EventReader twoSides 1) =
        backtestResult crossingBook selfTradeConfig selfTrader 2 [] selfTradeStart
          (⟨[Event.makeTrade 5 1 100 2 .buy], 0⟩ : MemoryReader) := by
  refine binary_backtest_eq_memory crossingBook selfTradeConfig selfTrader [] selfTradeStart
    twoSides ?_ (by decide) (le_refl 1) {} (by decide)
  intro e he
  cases List.mem_singleton.mp he
  exact ⟨by decide, by decide, by decide⟩

/-- A trade on an unterminated last line, read byte by byte into a buffer of one byte. -/
theorem csv_backtest_eq_memory_byte_by_byte :
    ∃ opened, ∃ r' : CsvReader .wholePrices .byteByByte 1,
      ({ decoder := ⟨some {}⟩ } : CsvReader .wholePrices .byteByByte 1).doOpen
        (some (asciiBytes "time,symbol\r\noops\n1,A,T,2,3,B")) = some (opened, r') ∧
      backtestResult crossingBook selfTradeConfig selfTrader 2 [] selfTradeStart r' =
        backtestResult crossingBook selfTradeConfig selfTrader 2 [] selfTradeStart
          (⟨[Event.makeTrade 1 1 200000000 3 .buy], 0⟩ : MemoryReader) := by
  have hevents : decodeAll .wholePrices ⟨some {}⟩
      (dataRows (asciiBytes "time,symbol\r\noops\n1,A,T,2,3,B")) =
        [Event.makeTrade 1 1 200000000 3 .buy] := by
    decide +kernel
  obtain ⟨opened, r', hopen, hresult⟩ := csv_backtest_eq_memory crossingBook selfTradeConfig
    selfTrader [] selfTradeStart (le_refl 1)
    ({ decoder := ⟨some {}⟩ } : CsvReader .wholePrices .byteByByte 1)
    (asciiBytes "time,symbol\r\noops\n1,A,T,2,3,B") (by rw [hevents]; decide : _ < 2)
  rw [hevents] at hresult
  exact ⟨opened, r', hopen, hresult⟩

end UltraBacktest
