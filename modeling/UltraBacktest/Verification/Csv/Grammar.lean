import UltraBacktest.Verification.Csv.Columns
import UltraBacktest.Verification.Csv.Numbers
import UltraBacktest.Verification.Csv.Refinement

/-! The documented grammar of a row against what the decoder accepts. The decoder asks each
number parser whether it has found a number, not where the number ends. -/

namespace UltraBacktest

/-- The first letter says buy or sell, in one of the spellings the decoder or its column
table mentions. -/
def SideLetter (col : List UInt8) : Prop := ∃ c ∈ col.head?, c = 66 ∨ c = 83 ∨ c = 115 ∨ c = 65

/-- The columns the decoder takes values from are what the column table says. -/
structure WellFormedRow (line : List UInt8) : Prop where
  timestamp : DecimalNanos (column line 0)
  price : DecimalNumber (column line 3)
  qty : DecimalQty (column line 4)
  side : SideLetter (column line 5)

/-- If the row has six columns, a type letter that is decoded, and numbers at the front of
its numeric columns, then nothing stands behind these numbers, the price is finite, and the
side is given. -/
def ReadsWholeColumns (num : Numeric) (line : List UInt8) : Prop :=
  6 ≤ (splitCols 10 line).length → (∃ c ∈ (column line 2).head?, c = 84 ∨ c = 65) →
    ∀ ts price qty, fromCharsNanos (column line 0) = some ts →
      num.fromChars (column line 3) = some price → fromCharsQty (column line 4) = some qty →
        ts.2 = [] ∧ price.2 = [] ∧ qty.2 = [] ∧ ¬ SpecialNumber (column line 3) ∧
          SideLetter (column line 5)

/-- Where the numbers of a row have been read, it is well formed exactly when they end with
their columns. -/
theorem wellFormedRow_iff {num : Numeric} (hnum : num.Standard) {line : List UInt8}
    {ts : ℤ × List UInt8} {price : num.Double × List UInt8} {qty : ℕ × List UInt8}
    (hts : fromCharsNanos (column line 0) = some ts)
    (hprice : num.fromChars (column line 3) = some price)
    (hqty : fromCharsQty (column line 4) = some qty) :
    WellFormedRow line ↔ ts.2 = [] ∧ price.2 = [] ∧ qty.2 = [] ∧
      ¬ SpecialNumber (column line 3) ∧ SideLetter (column line 5) := by
  rw [fromCharsNanos_rest_iff hts, fromCharsQty_rest_iff hqty]
  have hdouble := doubleRest_eq_nil_iff (hnum.doubleRest_eq hprice)
  constructor
  · rintro ⟨htime, hnumber, hquantity, hside⟩
    obtain ⟨hrest, hspecial⟩ := hdouble.mpr hnumber
    exact ⟨htime, hrest, hquantity, hspecial, hside⟩
  · rintro ⟨htime, hrest, hquantity, hspecial, hside⟩
    exact ⟨htime, hdouble.mp ⟨hrest, hspecial⟩, hquantity, hside⟩

theorem accepted_row_well_formed_iff {num : Numeric} (hnum : num.Standard) (d : TickDecoder)
    (line : List UInt8) :
    ((d.decodeCsv num line).1.isSome → WellFormedRow line) ↔ ReadsWholeColumns num line := by
  rw [isSome_decodeCsv_iff]
  constructor
  · intro h hcols htype ts price qty hts hprice hqty
    rw [← wellFormedRow_iff hnum hts hprice hqty]
    apply h
    rw [hts, hprice, hqty]
    exact ⟨hcols, rfl, htype, rfl, rfl⟩
  · rintro h ⟨hcols, hts, htype, hprice, hqty⟩
    obtain ⟨ts, hts⟩ := Option.isSome_iff_exists.mp hts
    obtain ⟨price, hprice⟩ := Option.isSome_iff_exists.mp hprice
    obtain ⟨qty, hqty⟩ := Option.isSome_iff_exists.mp hqty
    rw [wellFormedRow_iff hnum hts hprice hqty]
    exact h hcols htype ts price qty hts hprice hqty

/-! ## Concrete rows -/

/-- Floating-point numbers as their texts, with the fixed-point value of whole ones. -/
def Numeric.texts : Numeric where
  Double := List UInt8
  fromChars s := (doubleRest s).map (fun rest => (s.take (s.length - rest.length), rest))
  fromDouble text := decimalValue (text.takeWhile isDigit) * 100000000

theorem Numeric.standard_texts : Numeric.texts.Standard := by
  constructor
  intro s d rest h
  obtain ⟨rest', hrest, heq⟩ := Option.map_eq_some_iff.mp h
  rw [hrest, (Prod.mk.inj heq).2]

/-- A plain trade. -/
theorem accepted_row_well_formed_trade : WellFormedRow (asciiBytes "1,A,T,2,3,B") := by
  apply (accepted_row_well_formed_iff Numeric.standard_texts ⟨some {}⟩ _).mpr
  · intro _ _ ts price qty hts hprice hqty
    have hts' : fromCharsNanos (column (asciiBytes "1,A,T,2,3,B") 0) = some (1, []) := by decide
    have hprice' : Numeric.texts.fromChars (column (asciiBytes "1,A,T,2,3,B") 3) =
        some (asciiBytes "2", []) := rfl
    have hqty' : fromCharsQty (column (asciiBytes "1,A,T,2,3,B") 4) = some (3, []) := by decide
    cases hts.symm.trans hts'
    cases hprice.symm.trans hprice'
    cases hqty.symm.trans hqty'
    refine ⟨rfl, rfl, rfl, by decide, 66, by decide, Or.inl rfl⟩
  · decide

/-- A calendar date is read as the year it starts with. -/
theorem date_read_as_year :
    Numeric.texts.Standard ∧
      ((TickDecoder.mk (some {})).decodeCsv .texts (asciiBytes "2024-01-02,A,T,2,3,B")).1 =
        some (Event.makeTrade 2024 1 200000000 3 .buy) ∧
      ¬ WellFormedRow (asciiBytes "2024-01-02,A,T,2,3,B") := by
  refine ⟨Numeric.standard_texts, by decide, fun h => ?_⟩
  have hts : fromCharsNanos (column (asciiBytes "2024-01-02,A,T,2,3,B") 0) =
      some (2024, asciiBytes "-01-02") := by
    decide
  cases (fromCharsNanos_rest_iff hts).mpr h.timestamp

end UltraBacktest
