import UltraBacktest.Verification.Csv.Columns
import UltraBacktest.Verification.Csv.Numbers
import UltraBacktest.Verification.Exchange.Files

/-! From CSV to binary files. Every event that the decoder accepts can be written as a record,
so a CSV file can be replaced by the binary file of its events in every backtest. -/

namespace UltraBacktest

open Stream EventLayout

/-! ## Decoded events -/

theorem fits_of_fromCharsNanos {s rest : List UInt8} {value : ℤ}
    (h : fromCharsNanos s = some (value, rest)) : Word64.Fits value := by
  obtain ⟨hlo, hhi, -⟩ := fromCharsNanos_eq_some h
  exact ⟨hlo, hhi⟩

theorem isWord_of_fromCharsQty {s rest : List UInt8} {value : ℕ}
    (h : fromCharsQty s = some (value, rest)) : LittleEndian.IsWord value := by
  obtain ⟨-, hrange⟩ := Option.filter_eq_some_iff.mp h
  exact of_decide_eq_true hrange

/-- UltraLOB's prices have 64 bits. -/
def Numeric.FitsPrices (num : Numeric) : Prop := ∀ x, Word64.Fits (num.fromDouble x)

theorem representable_of_decodeCsv {num : Numeric} (hnum : num.FitsPrices) {d : TickDecoder}
    {line : List UInt8} {e : Event} (h : (d.decodeCsv num line).1 = some e) :
    e.Representable := by
  by_cases hcols : 6 ≤ (splitCols 10 line).length
  · rw [decodeCsv_eq_columns num d hcols] at h
    obtain ⟨ts, hts, h⟩ := Option.bind_eq_some_iff.mp h
    obtain ⟨typeChar, -, h⟩ := Option.bind_eq_some_iff.mp h
    obtain ⟨price, -, h⟩ := Option.bind_eq_some_iff.mp h
    obtain ⟨qty, hqty, h⟩ := Option.bind_eq_some_iff.mp h
    have htime := fits_of_fromCharsNanos hts
    have hword := isWord_of_fromCharsQty hqty
    rw [UltraBacktest.eventOf] at h
    split at h
    · cases h
      exact ⟨htime, hnum price.1, hword⟩
    · cases h
      exact ⟨htime, Nat.two_pow_pos 64, hnum price.1, hword⟩
    · cases h
  · rw [decodeCsv_of_few_columns d (not_le.mp hcols)] at h
    cases h

theorem representable_of_mem_decodeAll {num : Numeric} (hnum : num.FitsPrices) {d : TickDecoder}
    {rows : List (List UInt8)} : ∀ e ∈ decodeAll num d rows, e.Representable := by
  induction rows generalizing d with
  | nil => exact fun e he => absurd he List.not_mem_nil
  | cons row rows ih =>
      intro e he
      rw [decodeAll_cons, List.mem_append, Option.mem_toList] at he
      rcases he with he | he
      · exact representable_of_decodeCsv hnum he
      · exact ih e he

/-! ## Backtests -/

section Backtests

variable {ε τ μ : Type} {σ : Type*} (lob : MatchingEngine ε τ μ) (config : ExchangeConfig)
  (strategy : ExchangeStrategy ε τ μ σ) (s : σ) (sim : ExchangeSimulator ε)

/-- Writing the events of a CSV file to a binary file changes no backtest: both files open
alike, and the strategy, the exchange, the record and the count come out the same. -/
theorem csv_converted_to_binary {num : Numeric} (hnum : num.FitsPrices) {io : File.Chunking}
    {bufferSize : ℕ} (hbuffer : 1 ≤ bufferSize) (r : CsvReader num io bufferSize)
    (sides : SideCode) {eventsPerRead : ℕ} (hcap : 1 ≤ eventsPerRead)
    (b : BinaryReader eventsPerRead) (content : List UInt8) {fuel : ℕ}
    (hfuel : (decodeAll num r.decoder (dataRows content)).length < fuel) :
    ∃ opened r' b', r.doOpen (some content) = some (opened, r') ∧
      b.doOpen (some (fileOf sides (decodeAll num r.decoder (dataRows content)))) =
        some (opened, b') ∧
      backtestResult lob config strategy fuel s sim (⟨b'⟩ : EventReader sides eventsPerRead) =
        backtestResult lob config strategy fuel s sim r' := by
  obtain ⟨r', hopen, hready⟩ := CsvReader.doOpen_ready hbuffer r content
  obtain ⟨b', hopen', hdelivers⟩ := delivers_fileOf sides
    (representable_of_mem_decodeAll hnum) (by decide : [].length < recordSize) hcap b
  rw [List.append_nil] at hopen'
  exact ⟨_, r', b', hopen, hopen', backtestResult_congr lob config strategy s sim hdelivers
    hready.delivers.1 hfuel⟩

end Backtests

/-- Prices without a fraction, in 64 bits. -/
@[irreducible] def wordPrice (d : ℕ) : ℤ := Word64.wrap (d * 100000000)

theorem fits_wordPrice (d : ℕ) : Word64.Fits (wordPrice d) := by
  unfold wordPrice
  exact (Word64.exists_wrap_eq _).1

def Numeric.wordPrices : Numeric where
  Double := ℕ
  fromChars := fromCharsDigits
  fromDouble := wordPrice

theorem fitsPrices_wordPrices : Numeric.wordPrices.FitsPrices := fits_wordPrice

/-- Two rows, one of them rejected, and the one record that takes their place. -/
theorem csv_converted_to_binary_one_trade :
    ∃ opened, ∃ r' : CsvReader .wordPrices .byteByByte 1, ∃ b' : BinaryReader 1,
      ({ decoder := ⟨some {}⟩ } : CsvReader .wordPrices .byteByByte 1).doOpen
          (some (asciiBytes "time,symbol\r\noops\n1,A,T,2,3,B")) = some (opened, r') ∧
      ({} : BinaryReader 1).doOpen
          (some (recordOf twoSides (Event.makeTrade 1 1 200000000 3 .buy))) =
        some (opened, b') ∧
      backtestResult crossingBook selfTradeConfig selfTrader 2 [] selfTradeStart
          (⟨b'⟩ : EventReader twoSides 1) =
        backtestResult crossingBook selfTradeConfig selfTrader 2 [] selfTradeStart r' := by
  have hevents : decodeAll .wordPrices ⟨some {}⟩
      (dataRows (asciiBytes "time,symbol\r\noops\n1,A,T,2,3,B")) =
        [Event.makeTrade 1 1 200000000 3 .buy] := by
    decide +kernel
  have hfuel : (decodeAll .wordPrices ⟨some {}⟩
      (dataRows (asciiBytes "time,symbol\r\noops\n1,A,T,2,3,B"))).length < 2 := by
    rw [hevents]
    decide
  obtain ⟨opened, r', b', hopen, hopen', hresult⟩ := csv_converted_to_binary crossingBook
    selfTradeConfig selfTrader [] selfTradeStart fitsPrices_wordPrices (le_refl 1)
    ({ decoder := ⟨some {}⟩ } : CsvReader .wordPrices .byteByByte 1) twoSides (le_refl 1) {}
    (asciiBytes "time,symbol\r\noops\n1,A,T,2,3,B") hfuel
  rw [hevents, fileOf, List.flatMap_singleton] at hopen'
  exact ⟨opened, r', b', hopen, hopen', hresult⟩

end UltraBacktest
