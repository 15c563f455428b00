import UltraBacktest.Verification.Csv.Grammar

/-! Rendering a row and decoding it again. The columns land in their places whatever they
contain and however many follow, because none of them contains a comma. -/

namespace UltraBacktest

/-! ## Decimals -/

theorem toNat_toUInt8_of_isDigit {c : Char} (h : c.isDigit = true) :
    c.toUInt8.toNat = c.toNat ∧ 48 ≤ c.toNat ∧ c.toNat ≤ 57 := by
  rw [Char.isDigit, Bool.and_eq_true, decide_eq_true_iff, decide_eq_true_iff] at h
  have hlo : 48 ≤ c.toNat := h.1
  have hhi : c.toNat ≤ 57 := h.2
  refine ⟨?_, hlo, hhi⟩
  exact Nat.mod_eq_of_lt (show c.toNat < 2 ^ 8 by omega)

theorem asciiBytes_toString (n : ℕ) :
    asciiBytes (toString n) = (Nat.toDigits 10 n).map Char.toUInt8 := by
  rw [asciiBytes, Nat.toString_eq_repr, Nat.toList_repr]

theorem digits_toString (n : ℕ) : Digits (asciiBytes (toString n)) := by
  rw [asciiBytes_toString]
  intro b hb
  obtain ⟨c, hc, rfl⟩ := List.mem_map.mp hb
  obtain ⟨hnat, hlo, hhi⟩ := toNat_toUInt8_of_isDigit
    (Nat.isDigit_of_mem_toDigits (by decide) (by decide) hc)
  rw [isDigit, Bool.and_eq_true, decide_eq_true_iff, decide_eq_true_iff, UInt8.le_iff_toNat_le,
    UInt8.le_iff_toNat_le, hnat]
  exact ⟨hlo, hhi⟩

theorem toString_ne_nil (n : ℕ) : asciiBytes (toString n) ≠ [] := by
  rw [asciiBytes_toString]
  simp

theorem decimalValue_toString (n : ℕ) : decimalValue (asciiBytes (toString n)) = n := by
  rw [asciiBytes_toString, decimalValue, List.foldl_map]
  refine Eq.trans ?_ (Nat.ofDigitChars_toDigits (b := 10) (n := n) (by decide) (by decide))
  rw [Nat.ofDigitChars_eq_foldl]
  apply List.foldl_ext
  intro value c hc
  rw [(toNat_toUInt8_of_isDigit (Nat.isDigit_of_mem_toDigits (by decide) (by decide) hc)).1]
  rfl

theorem fromCharsQty_toString {q : ℕ} (h : q < 2 ^ 64) :
    fromCharsQty (asciiBytes (toString q)) = some (q, []) := by
  rw [fromCharsQty, fromCharsDigits_of_digits (toString_ne_nil q) (digits_toString q),
    decimalValue_toString]
  exact Option.filter_eq_some_iff.mpr ⟨rfl, decide_eq_true h⟩

theorem asciiBytes_minus (text : String) : asciiBytes ("-" ++ text) = 45 :: asciiBytes text := by
  rw [asciiBytes, String.toList_append]
  rfl

theorem fromCharsNanos_toString {ts : ℤ} (hlo : -2 ^ 63 ≤ ts) (hhi : ts < 2 ^ 63) :
    fromCharsNanos (asciiBytes (toString ts)) = some (ts, []) := by
  cases ts with
  | ofNat n =>
      have hvalue := decimalValue_toString n
      have hrange : decimalValue (asciiBytes (toString n)) < 2 ^ 63 := by
        rw [hvalue]
        have hnat : (n : ℤ) < 2 ^ 63 := hhi
        omega
      refine (fromCharsNanos_of_digits (toString_ne_nil n) (digits_toString n) hrange).trans ?_
      rw [hvalue]
      rfl
  | negSucc n =>
      have hvalue := decimalValue_toString (n + 1)
      have hrange : decimalValue (asciiBytes (toString (n + 1))) ≤ 2 ^ 63 := by
        rw [hvalue]
        omega
      have htext : asciiBytes (toString (Int.negSucc n)) =
          45 :: asciiBytes (toString (n + 1)) := asciiBytes_minus _
      rw [htext, fromCharsNanos_of_minus_digits (toString_ne_nil _) (digits_toString _) hrange,
        hvalue]
      rfl

theorem comma_not_mem_toString (ts : ℤ) : (44 : UInt8) ∉ asciiBytes (toString ts) := by
  cases ts with
  | ofNat n => exact comma_not_digit (digits_toString n)
  | negSucc n =>
      have htext : asciiBytes (toString (Int.negSucc n)) =
          45 :: asciiBytes (toString (n + 1)) := asciiBytes_minus _
      rw [htext]
      simpa using comma_not_digit (digits_toString (n + 1))

/-! ## Rows -/

/-- The types of rows that are decoded. -/
inductive RowType where
  | trade
  | orderAdd
  deriving DecidableEq, Repr

def RowType.letter : RowType → UInt8
  | .trade => 84
  | .orderAdd => 65

def Side.letter : Side → UInt8
  | .buy => 66
  | .sell => 83

/-- The event a row of the given type stands for. -/
def RowType.event (type : RowType) (ts : ℤ) (sym : Symbol) (price : ℤ) (qty : ℕ) (side : Side) :
    Event :=
  match type with
  | .trade => Event.makeTrade ts sym price qty side
  | .orderAdd =>
      { timestamp := ts, symbol := sym,
        body := .orderAdd { orderId := 0, price := price, qty := qty, side := side } }

/-- The columns of a row, with whatever follows the sixth. -/
def rowColumns (ts : ℤ) (name : List UInt8) (type : RowType) (price : List UInt8) (qty : ℕ)
    (side : Side) (more : List (List UInt8)) : List (List UInt8) :=
  [asciiBytes (toString ts), name, [type.letter], price, asciiBytes (toString qty),
    [side.letter]] ++ more

/-- The columns joined by commas. -/
def renderRow (ts : ℤ) (name : List UInt8) (type : RowType) (price : List UInt8) (qty : ℕ)
    (side : Side) (more : List (List UInt8)) : List UInt8 :=
  [44].intercalate (rowColumns ts name type price qty side more)

theorem sideOf_letter (side : Side) : sideOf [side.letter] = side := by
  cases side <;> rfl

theorem eventOf_letter (type : RowType) (ts : ℤ) (sym : Symbol) (price : ℤ) (qty : ℕ)
    (side : Side) :
    eventOf type.letter ts sym price qty side = some (type.event ts sym price qty side) := by
  cases type <;> rfl

/-- Every column of a rendered row is found in its place. -/
theorem column_renderRow (ts : ℤ) {name price : List UInt8} (type : RowType) (qty : ℕ)
    (side : Side) {more : List (List UInt8)} (hname : (44 : UInt8) ∉ name)
    (hprice : (44 : UInt8) ∉ price) (hmore : ∀ col ∈ more, (44 : UInt8) ∉ col) (i : ℕ) :
    column (renderRow ts name type price qty side more) i =
      (rowColumns ts name type price qty side more).getD i [] := by
  have hcols : ∀ col ∈ rowColumns ts name type price qty side more, (44 : UInt8) ∉ col := by
    intro col hcol
    rcases List.mem_append.mp hcol with hcol | hcol
    · simp only [List.mem_cons, List.not_mem_nil, or_false] at hcol
      rcases hcol with rfl | rfl | rfl | rfl | rfl | rfl
      · exact comma_not_mem_toString ts
      · exact hname
      · cases type <;> decide
      · exact hprice
      · exact comma_not_digit (digits_toString qty)
      · cases side <;> decide
    · exact hmore col hcol
  rw [column, renderRow, List.splitOn_intercalate 44 hcols (by simp [rowColumns])]

/-- Decoding a rendered row gives back what was rendered, with the id of the name. -/
theorem decode_undoes_render {num : Numeric} (hnum : num.Standard) (d : TickDecoder) {ts : ℤ}
    (hlo : -2 ^ 63 ≤ ts) (hhi : ts < 2 ^ 63) {name : List UInt8} (hname : (44 : UInt8) ∉ name)
    (type : RowType) {price : List UInt8} {dbl : num.Double}
    (hprice : num.fromChars price = some (dbl, [])) {qty : ℕ} (hqty : qty < 2 ^ 64)
    (side : Side) {more : List (List UInt8)} (hmore : ∀ col ∈ more, (44 : UInt8) ∉ col) :
    d.decodeCsv num (renderRow ts name type price qty side more) =
      (some (type.event ts (d.symbolOf name).1 (num.fromDouble dbl) qty side),
        (d.symbolOf name).2) := by
  have hcolumn := column_renderRow ts type qty side hname
    (comma_not_mem_of_doubleRest (hnum.doubleRest_eq hprice)) hmore
  generalize renderRow ts name type price qty side more = line at hcolumn ⊢
  have hcols : 6 ≤ (splitCols 10 line).length := by
    apply lt_length_splitCols (by decide)
    rw [hcolumn 5]
    exact List.cons_ne_nil _ _
  have hts : fromCharsNanos (column line 0) = some (ts, []) := by
    rw [hcolumn 0]
    exact fromCharsNanos_toString hlo hhi
  have htype : (column line 2).head? = some type.letter := by
    rw [hcolumn 2]
    rfl
  have hdbl : num.fromChars (column line 3) = some (dbl, []) := by
    rw [hcolumn 3]
    exact hprice
  have hquantity : fromCharsQty (column line 4) = some (qty, []) := by
    rw [hcolumn 4]
    exact fromCharsQty_toString hqty
  have hside : sideOf (column line 5) = side := by
    rw [hcolumn 5]
    exact sideOf_letter side
  have hid : column line 1 = name := hcolumn 1
  apply Prod.ext
  · rw [decodeCsv_eq_columns num d hcols, hts, htype, hdbl, hquantity, hside, hid]
    exact eventOf_letter type ts _ _ qty side
  · rw [decodeCsv_snd_of_columns num d hcols hts, hid]

/-- An order with an empty name, a negative time and two more columns, both empty. -/
theorem decode_undoes_render_order_add :
    (TickDecoder.mk (some {})).decodeCsv .texts
        (renderRow (-7) [] .orderAdd (asciiBytes "2") 3 .sell [[], []]) =
      (some (RowType.orderAdd.event (-7) 1 200000000 3 .sell),
        ⟨some { map := [([], 1)], nextId := 2 }⟩) :=
  @decode_undoes_render .texts Numeric.standard_texts ⟨some {}⟩ (-7) (by decide) (by decide) []
    (by decide) .orderAdd (asciiBytes "2") _ rfl 3 (by decide) .sell [[], []] (by decide)

end UltraBacktest
