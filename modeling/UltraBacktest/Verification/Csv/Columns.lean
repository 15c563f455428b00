import UltraBacktest.Verification.Csv.Rows

/-! The columns of a row. The splitting loop of the decoder stops at ten columns and drops an
empty last one; below ten it agrees with the plain splitting at commas. -/

namespace UltraBacktest

/-- What stands between two commas of a line, and nothing behind the last column. -/
def column (line : List UInt8) (i : ℕ) : List UInt8 := (line.splitOn 44).getD i []

theorem getD_splitCols {free i : ℕ} (h : i < free) (line : List UInt8) :
    (splitCols free line).getD i [] = column line i := by
  rw [column]
  induction free generalizing line i with
  | zero => cases h
  | succ free ih =>
      cases line with
      | nil =>
          rw [splitCols, List.splitOn_nil]
          cases i <;> rfl
      | cons c p =>
          rw [splitCols]
          cases hcomma : memchr (c :: p) 44 with
          | none =>
              rw [List.splitOn_eq_singleton (memchr_eq_none hcomma)]
          | some j =>
              rw [splitOn_of_memchr hcomma]
              cases i with
              | zero => rfl
              | succ i => exact ih (Nat.lt_of_succ_lt_succ h) _

/-- A column that is not empty is one of those the decoder sees. -/
theorem lt_length_splitCols {free i : ℕ} (h : i < free) {line : List UInt8}
    (hcolumn : column line i ≠ []) : i < (splitCols free line).length := by
  by_contra hge
  apply hcolumn
  rw [← getD_splitCols h, List.getD_eq_getElem?_getD, List.getElem?_eq_none (by omega)]
  rfl

/-- The decoder sees as many columns as there are, but for an empty last one. -/
theorem length_splitCols (free : ℕ) (line : List UInt8) :
    (splitCols free line).length =
      min free ((line.splitOn 44).length -
        if (line.splitOn 44).getLast? = some [] then 1 else 0) := by
  induction free generalizing line with
  | zero => rw [splitCols, Nat.zero_min, List.length_nil]
  | succ free ih =>
      cases line with
      | nil => simp [splitCols]
      | cons c p =>
          rw [splitCols]
          cases hcomma : memchr (c :: p) 44 with
          | none => simp [List.splitOn_eq_singleton (memchr_eq_none hcomma)]
          | some j =>
              have hsplit := splitOn_of_memchr hcomma
              have hne := List.splitOn_ne_nil 44 ((c :: p).drop (j + 1))
              have hpos := List.length_pos_iff.mpr hne
              have hlast : ((c :: p).splitOn 44).getLast? =
                  (((c :: p).drop (j + 1)).splitOn 44).getLast? := by
                rw [hsplit, List.getLast?_cons, List.getLast?_eq_some_getLast hne]
                rfl
              dsimp only
              rw [hlast, hsplit, List.length_cons, List.length_cons, ih]
              split_ifs <;> omega

theorem rowName_eq_column {row name : List UInt8} (h : rowName row = some name) :
    name = column row 1 := by
  obtain ⟨head, hhead, rfl⟩ := Option.map_eq_some_iff.mp h
  rw [rowHead] at hhead
  split_ifs at hhead
  obtain ⟨ts, -, rfl⟩ := Option.map_eq_some_iff.mp hhead
  exact getD_splitCols (by decide) row

/-! ## Decoding by columns -/

/-- The side that a column stands for. -/
def sideOf (col : List UInt8) : Side :=
  if col.head? = some 83 ∨ col.head? = some 115 ∨ col.head? = some 65 then .sell else .buy

/-- The event of a type letter, if the decoder knows it. -/
def eventOf (typeChar : UInt8) (ts : ℤ) (sym : Symbol) (price : ℤ) (qty : ℕ) (side : Side) :
    Option Event :=
  match typeChar.toNat with
  | 84 => some (Event.makeTrade ts sym price qty side)
  | 65 =>
      some { timestamp := ts, symbol := sym,
             body := .orderAdd { orderId := 0, price := price, qty := qty, side := side } }
  | _ => none

theorem isSome_eventOf (typeChar : UInt8) (ts : ℤ) (sym : Symbol) (price : ℤ) (qty : ℕ)
    (side : Side) :
    (eventOf typeChar ts sym price qty side).isSome ↔ typeChar = 84 ∨ typeChar = 65 := by
  rw [← UInt8.toNat_inj, ← UInt8.toNat_inj, eventOf]
  split
  · rename_i h
    simp [h]
  · rename_i h
    simp [h]
  · rename_i hT hA
    simpa using And.intro hT hA

/-- What the decoder makes of a row, column by column. -/
theorem decodeCsv_eq_columns (num : Numeric) (d : TickDecoder) {line : List UInt8}
    (hcols : 6 ≤ (splitCols 10 line).length) :
    (d.decodeCsv num line).1 =
      (fromCharsNanos (column line 0)).bind (fun ts =>
        (column line 2).head?.bind (fun typeChar =>
          (num.fromChars (column line 3)).bind (fun price =>
            (fromCharsQty (column line 4)).bind (fun qty =>
              eventOf typeChar ts.1 (d.idOf (column line 1)) (num.fromDouble price.1) qty.1
                (sideOf (column line 5)))))) := by
  have hcol : ∀ i, i < 10 → (splitCols 10 line).getD i [] = column line i :=
    fun i hi => getD_splitCols hi line
  rw [TickDecoder.decodeCsv, if_neg (not_lt.mpr hcols), hcol 0 (by decide), hcol 1 (by decide)]
  cases fromCharsNanos (column line 0) with
  | none => rfl
  | some ts =>
      rw [Option.bind_some]
      dsimp only
      rw [TickDecoder.decodeFields, hcol 2 (by decide), hcol 3 (by decide), hcol 4 (by decide),
        hcol 5 (by decide)]
      rfl

/-- A row with a time looks up its name, whatever becomes of the row. -/
theorem decodeCsv_snd_of_columns (num : Numeric) (d : TickDecoder) {line : List UInt8}
    (hcols : 6 ≤ (splitCols 10 line).length) {ts : ℤ × List UInt8}
    (hts : fromCharsNanos (column line 0) = some ts) :
    (d.decodeCsv num line).2 = (d.symbolOf (column line 1)).2 := by
  rw [TickDecoder.decodeCsv, if_neg (not_lt.mpr hcols), getD_splitCols (by decide),
    getD_splitCols (by decide), hts]

theorem decodeCsv_of_few_columns {num : Numeric} (d : TickDecoder) {line : List UInt8}
    (h : (splitCols 10 line).length < 6) : (d.decodeCsv num line).1 = none := by
  rw [TickDecoder.decodeCsv, if_pos h]

theorem isSome_decodeCsv_iff (num : Numeric) (d : TickDecoder) (line : List UInt8) :
    (d.decodeCsv num line).1.isSome ↔
      6 ≤ (splitCols 10 line).length ∧ (fromCharsNanos (column line 0)).isSome ∧
        (∃ c ∈ (column line 2).head?, c = 84 ∨ c = 65) ∧
        (num.fromChars (column line 3)).isSome ∧ (fromCharsQty (column line 4)).isSome := by
  by_cases hcols : 6 ≤ (splitCols 10 line).length
  · rw [decodeCsv_eq_columns num d hcols]
    cases fromCharsNanos (column line 0) with
    | none => simp
    | some ts =>
        cases (column line 2).head? with
        | none => simp
        | some typeChar =>
            cases num.fromChars (column line 3) with
            | none => simp
            | some price =>
                cases fromCharsQty (column line 4) with
                | none => simp
                | some qty => simp [isSome_eventOf, hcols]
  · rw [decodeCsv_of_few_columns d (not_le.mp hcols)]
    simp [hcols]

end UltraBacktest
