import UltraBacktest.Verification.Csv.Columns
import UltraBacktest.Verification.Csv.Refinement

/-! The last line of a file with and without its newline. Only the branch that has found a
newline removes a carriage return, so that an unterminated last line keeps it; the decoder
takes it for a column where the row ends behind a comma. -/

namespace UltraBacktest

/-! ## The last line -/

/-- The text behind the last newline, the whole text if there is none. -/
def lastLine (content : List UInt8) : List UInt8 := (content.splitOn 10).getLastD []

/-- The lines of a file that end with a newline. -/
def terminatedLines (content : List UInt8) : List (List UInt8) :=
  (content.splitOn 10).dropLast.map stripCr

theorem splitOn_eq_lastLine (content : List UInt8) :
    content.splitOn 10 = (content.splitOn 10).dropLast ++ [lastLine content] := by
  have hne := List.splitOn_ne_nil 10 content
  rw [lastLine, List.getLastD_eq_getLast?, List.getLast?_eq_some_getLast hne, Option.getD_some,
    List.dropLast_append_getLast]

theorem plainLines_eq_lastLine (content : List UInt8) :
    plainLines content =
      terminatedLines content ++ [lastLine content].filter (fun line => !line.isEmpty) := by
  have hlast : (content.splitOn 10).getLast? = some (lastLine content) := by
    rw [splitOn_eq_lastLine content, List.getLast?_concat]
  rw [plainLines, hlast, terminatedLines, Option.toList_some]

/-- A newline at the end terminates the last line. -/
theorem plainLines_concat_newline (content : List UInt8) :
    plainLines (content ++ [10]) = terminatedLines content ++ [stripCr (lastLine content)] := by
  have hnil : plainLines [] = [] := rfl
  rw [plainLines_append, hnil, List.append_nil, splitOn_eq_lastLine content, List.map_append]
  rfl

theorem terminatedLines_eq_nil_iff (content : List UInt8) :
    terminatedLines content = [] ↔ (10 : UInt8) ∉ content := by
  rw [terminatedLines, List.map_eq_nil_iff]
  constructor
  · intro hnone hmem
    obtain ⟨s, t, rfl⟩ := List.append_of_mem hmem
    rw [List.splitOn_append_cons_self,
      List.dropLast_append_of_ne_nil (List.splitOn_ne_nil 10 t)] at hnone
    exact List.splitOn_ne_nil 10 s (List.append_eq_nil_iff.mp hnone).1
  · intro hnot
    rw [List.splitOn_eq_singleton hnot]
    rfl

/-- A row that may be empty is decoded like any other. -/
theorem decodeAll_filter_singleton (num : Numeric) (d : TickDecoder) (line : List UInt8) :
    decodeAll num d ([line].filter (fun line => !line.isEmpty)) =
      (d.decodeCsv num line).1.toList := by
  cases line with
  | nil => rfl
  | cons c line =>
      rw [List.filter_cons_of_pos rfl, List.filter_nil, decodeAll_cons]
      exact List.append_nil _

/-! ## A carriage return behind a row -/

/-- Five columns that can be read, each followed by a comma, and nothing for the side. -/
structure LacksSide (num : Numeric) (row : List UInt8) : Prop where
  columns : (row.splitOn 44).length = 6
  side : column row 5 = []
  timestamp : (fromCharsNanos (column row 0)).isSome
  type : ∃ c ∈ (column row 2).head?, c = 84 ∨ c = 65
  price : (num.fromChars (column row 3)).isSome
  qty : (fromCharsQty (column row 4)).isSome

/-- A character that does not separate goes to the last part. -/
theorem splitOn_concat {α : Type*} [BEq α] [LawfulBEq α] {sep a : α} (h : a ≠ sep)
    (l : List α) :
    ∃ front last, l.splitOn sep = front ++ [last] ∧
      (l ++ [a]).splitOn sep = front ++ [last ++ [a]] := by
  induction l with
  | nil => exact ⟨[], [], rfl, List.splitOn_eq_singleton (by simpa using h.symm)⟩
  | cons c l ih =>
      obtain ⟨front, last, hl, hla⟩ := ih
      rw [List.cons_append, List.splitOn_cons_eq_if_modifyHead,
        List.splitOn_cons_eq_if_modifyHead, hl, hla]
      split_ifs
      · exact ⟨[] :: front, last, rfl, rfl⟩
      · cases front with
        | nil => exact ⟨[], c :: last, rfl, rfl⟩
        | cons w front => exact ⟨(c :: w) :: front, last, rfl, rfl⟩

/-- The event depends on the first five columns and on the side. -/
theorem decodeCsv_congr (num : Numeric) (d : TickDecoder) {line line' : List UInt8}
    (hcols : 6 ≤ (splitCols 10 line).length) (hcols' : 6 ≤ (splitCols 10 line').length)
    (hsame : ∀ i < 5, column line i = column line' i)
    (hside : sideOf (column line 5) = sideOf (column line' 5)) :
    (d.decodeCsv num line).1 = (d.decodeCsv num line').1 := by
  rw [decodeCsv_eq_columns num d hcols, decodeCsv_eq_columns num d hcols',
    hsame 0 (by decide), hsame 1 (by decide), hsame 2 (by decide), hsame 3 (by decide),
    hsame 4 (by decide), hside]

/-- A row and the row with a carriage return behind it, column by column. -/
structure CrColumns (row : List UInt8) (front : List (List UInt8)) (last : List UInt8) :
    Prop where
  columns : row.splitOn 44 = front ++ [last]
  columns_cr : (row ++ [13]).splitOn 44 = front ++ [last ++ [13]]

namespace CrColumns

variable {row last : List UInt8} {front : List (List UInt8)} (h : CrColumns row front last)

include h

theorem column_eq {i : ℕ} (hi : i < front.length) : column (row ++ [13]) i = column row i := by
  rw [column, column, h.columns, h.columns_cr, List.getD_eq_getElem?_getD,
    List.getD_eq_getElem?_getD, List.getElem?_append_left hi, List.getElem?_append_left hi]

theorem column_last : column row front.length = last := by
  rw [column, h.columns]
  simp

theorem column_cr_last : column (row ++ [13]) front.length = last ++ [13] := by
  rw [column, h.columns_cr]
  simp

theorem length_cr : (splitCols 10 (row ++ [13])).length = min 10 (front.length + 1) := by
  rw [length_splitCols, h.columns_cr]
  simp

theorem length_of_empty (hlast : last = []) :
    (splitCols 10 row).length = min 10 front.length := by
  rw [length_splitCols, h.columns, hlast]
  simp

theorem length_of_ne (hlast : last ≠ []) :
    (splitCols 10 row).length = min 10 (front.length + 1) := by
  rw [length_splitCols, h.columns]
  simp [hlast]

/-- Where the row has six columns of its own, the carriage return is at the end of the sixth or
of a later one, and the side is read from the front of its column. -/
theorem decodeCsv_eq (num : Numeric) (d : TickDecoder)
    (hcols : 6 ≤ (splitCols 10 row).length) :
    (d.decodeCsv num (row ++ [13])).1 = (d.decodeCsv num row).1 := by
  have hcr := h.length_cr
  rcases Nat.lt_or_ge 5 front.length with hmore | hmost
  · refine decodeCsv_congr num d (by omega) hcols (fun i hi => h.column_eq (by omega)) ?_
    rw [h.column_eq hmore]
  · have hlast : last ≠ [] := by
      intro hempty
      have hlength := h.length_of_empty hempty
      omega
    have hlength := h.length_of_ne hlast
    have hfive : front.length = 5 := by omega
    refine decodeCsv_congr num d (by omega) hcols (fun i hi => h.column_eq (by omega)) ?_
    have hside := h.column_last
    have hside_cr := h.column_cr_last
    rw [hfive] at hside hside_cr
    rw [hside, hside_cr, sideOf, sideOf, List.head?_append_of_ne_nil _ hlast]

theorem lacksSide_iff (num : Numeric) (d : TickDecoder) :
    LacksSide num row ↔ (splitCols 10 row).length < 6 ∧
      (d.decodeCsv num (row ++ [13])).1.isSome := by
  have hcr := h.length_cr
  have hlength : (row.splitOn 44).length = front.length + 1 := by
    rw [h.columns, List.length_append, List.length_singleton]
  rw [isSome_decodeCsv_iff]
  constructor
  · intro hlacks
    have hfive : front.length = 5 := by
      have hsix := hlacks.columns
      omega
    have hlast : last = [] := by
      rw [← h.column_last, hfive, hlacks.side]
    have hfew := h.length_of_empty hlast
    refine ⟨by omega, by omega, ?_⟩
    rw [h.column_eq (by omega), h.column_eq (by omega), h.column_eq (by omega),
      h.column_eq (by omega)]
    exact ⟨hlacks.timestamp, hlacks.type, hlacks.price, hlacks.qty⟩
  · rintro ⟨hfew, hsix, hrest⟩
    have hlast : last = [] := by
      by_contra hne
      have hsame := h.length_of_ne hne
      omega
    have hempty := h.length_of_empty hlast
    have hfive : front.length = 5 := by omega
    rw [h.column_eq (by omega), h.column_eq (by omega), h.column_eq (by omega),
      h.column_eq (by omega)] at hrest
    obtain ⟨htimestamp, htype, hprice, hqty⟩ := hrest
    refine ⟨by omega, ?_, htimestamp, htype, hprice, hqty⟩
    rw [← hfive, h.column_last, hlast]

end CrColumns

/-- A carriage return behind a row changes its event exactly when it stands in the place of
the side. -/
theorem decodeCsv_cr_iff (num : Numeric) (d : TickDecoder) (row : List UInt8) :
    (d.decodeCsv num (row ++ [13])).1 = (d.decodeCsv num row).1 ↔ ¬ LacksSide num row := by
  have hne : (13 : UInt8) ≠ 44 := by decide
  obtain ⟨front, last, hrow, hcr⟩ := splitOn_concat hne row
  have hcolumns : CrColumns row front last := ⟨hrow, hcr⟩
  rw [hcolumns.lacksSide_iff num d]
  rcases Nat.lt_or_ge (splitCols 10 row).length 6 with hfew | hcols
  · rw [decodeCsv_of_few_columns d hfew]
    simp [hfew]
  · rw [hcolumns.decodeCsv_eq num d hcols]
    simp [hcols]

/-! ## Whole files -/

/-- The file ends, behind some newline, with a row that lacks its side and a carriage
return. -/
def EndsWithoutSide (num : Numeric) (content : List UInt8) : Prop :=
  (10 : UInt8) ∈ content ∧ ∃ row, lastLine content = row ++ [13] ∧ LacksSide num row

theorem decodeCsv_stripCr_iff (num : Numeric) (d : TickDecoder) (line : List UInt8) :
    (d.decodeCsv num line).1 = (d.decodeCsv num (stripCr line)).1 ↔
      ¬ ∃ row, line = row ++ [13] ∧ LacksSide num row := by
  by_cases hcr : line.getLast? = some 13
  · obtain ⟨row, rfl⟩ := List.getLast?_eq_some_iff.mp hcr
    rw [stripCr, if_pos hcr, List.dropLast_concat, decodeCsv_cr_iff]
    simp
  · rw [stripCr, if_neg hcr]
    refine iff_of_true rfl ?_
    rintro ⟨row, rfl, -⟩
    exact hcr List.getLast?_concat

theorem decodeAll_concat_newline_iff (num : Numeric) (d : TickDecoder) (content : List UInt8) :
    decodeAll num d (dataRows content) = decodeAll num d (dataRows (content ++ [10])) ↔
      ¬ EndsWithoutSide num content := by
  have htoList : ∀ a b : Option Event, a.toList = b.toList ↔ a = b := by
    intro a b
    cases a <;> cases b <;> simp
  rw [EndsWithoutSide]
  by_cases hmem : (10 : UInt8) ∈ content
  · have hfront : terminatedLines content ≠ [] := by
      rw [ne_eq, terminatedLines_eq_nil_iff, not_not]
      exact hmem
    rw [dataRows_of_plainLines hfront (plainLines_eq_lastLine content),
      dataRows_of_plainLines hfront (plainLines_concat_newline content), List.filter_filter,
      decodeAll_append, decodeAll_append, List.append_right_inj]
    simp only [Bool.and_self]
    rw [decodeAll_filter_singleton, decodeAll_filter_singleton, htoList,
      decodeCsv_stripCr_iff]
    simp [hmem]
  · -- The only line is the first one, which is skipped.
    have hnone := (terminatedLines_eq_nil_iff content).mpr hmem
    have hrows : dataRows content = [] := by
      rw [dataRows, plainLines_eq_lastLine, hnone]
      cases lastLine content <;> rfl
    have hrows' : dataRows (content ++ [10]) = [] := by
      rw [dataRows, plainLines_concat_newline, hnone]
      rfl
    rw [hrows, hrows']
    simp [hmem]

/-- A final newline changes nothing exactly when the file does not end with a row whose side is
missing and a carriage return. -/
theorem final_newline_irrelevant_iff {num : Numeric} {io : File.Chunking} {bufferSize : ℕ}
    (hcap : 1 ≤ bufferSize) (r : CsvReader num io bufferSize) (content : List UInt8) :
    (∃ es, r.Opens content es ∧ r.Opens (content ++ [10]) es) ↔
      ¬ EndsWithoutSide num content := by
  rw [← decodeAll_concat_newline_iff num r.decoder]
  simp only [CsvReader.opens_iff hcap]
  constructor
  · rintro ⟨es, hes, hes'⟩
    exact hes.symm.trans hes'
  · intro hsame
    exact ⟨_, rfl, hsame⟩

/-- A trade on a last line that ends with a carriage return only. -/
theorem final_newline_irrelevant_lone_cr :
    ∃ es, ({ decoder := ⟨some {}⟩ } : CsvReader .wholePrices .byteByByte 1).Opens
        (asciiBytes "time,symbol\n1,A,T,2,3,S\r") es ∧
      ({ decoder := ⟨some {}⟩ } : CsvReader .wholePrices .byteByByte 1).Opens
        (asciiBytes "time,symbol\n1,A,T,2,3,S\r" ++ [10]) es := by
  refine (final_newline_irrelevant_iff (le_refl 1) _ _).mpr ?_
  rintro ⟨-, row, hrow, hlacks⟩
  have hline : lastLine (asciiBytes "time,symbol\n1,A,T,2,3,S\r") =
      asciiBytes "1,A,T,2,3,S" ++ [13] := by decide +kernel
  obtain rfl := List.append_cancel_right (hrow.symm.trans hline)
  exact absurd hlacks.side (by decide +kernel)

/-- A row that lacks its side: without the final newline the carriage return is a sixth column,
and a trade is delivered. -/
theorem final_newline_drops_trade :
    ({ decoder := ⟨some {}⟩ } : CsvReader .wholePrices .byteByByte 1).Opens
        (asciiBytes "time,symbol\n1,A,T,2,3,\r") [Event.makeTrade 1 1 200000000 3 .buy] ∧
      ({ decoder := ⟨some {}⟩ } : CsvReader .wholePrices .byteByByte 1).Opens
        (asciiBytes "time,symbol\n1,A,T,2,3,\r" ++ [10]) [] ∧
      ¬ ∃ es, ({ decoder := ⟨some {}⟩ } : CsvReader .wholePrices .byteByByte 1).Opens
          (asciiBytes "time,symbol\n1,A,T,2,3,\r") es ∧
        ({ decoder := ⟨some {}⟩ } : CsvReader .wholePrices .byteByByte 1).Opens
          (asciiBytes "time,symbol\n1,A,T,2,3,\r" ++ [10]) es := by
  simp only [CsvReader.opens_iff (le_refl 1)]
  have hevents : decodeAll .wholePrices ⟨some {}⟩
      (dataRows (asciiBytes "time,symbol\n1,A,T,2,3,\r")) =
        [Event.makeTrade 1 1 200000000 3 .buy] := by
    decide +kernel
  have hnone : decodeAll .wholePrices ⟨some {}⟩
      (dataRows (asciiBytes "time,symbol\n1,A,T,2,3,\r" ++ [10])) = [] := by
    decide +kernel
  refine ⟨hevents.symm, hnone.symm, ?_⟩
  rintro ⟨es, hes, hes'⟩
  rw [hevents] at hes
  rw [hnone, hes] at hes'
  cases hes'

end UltraBacktest
