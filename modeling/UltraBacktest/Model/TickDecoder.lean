import UltraBacktest.Model.Event

/-! The decoder of CSV rows. A row is a byte string; characters are written as their
ASCII codes. -/

namespace UltraBacktest

def memchr (s : List UInt8) (c : UInt8) : Option ℕ := s.findIdx? (· == c)

/-! ## Number parsing -/

def isDigit (c : UInt8) : Bool := 48 ≤ c && c ≤ 57

def decimalValue (digits : List UInt8) : ℕ :=
  digits.foldl (fun value c => 10 * value + (c.toNat - 48)) 0

/-- The longest prefix of digits, with what follows it. -/
def fromCharsDigits (s : List UInt8) : Option (ℕ × List UInt8) :=
  if (s.takeWhile isDigit).isEmpty then none
  else some (decimalValue (s.takeWhile isDigit), s.dropWhile isDigit)

/-- `std::from_chars` for a signed 64-bit integer. -/
def fromCharsNanos (s : List UInt8) : Option (ℤ × List UInt8) :=
  let parsed : Option (ℤ × List UInt8) :=
    if s.head? = some 45 then (fromCharsDigits s.tail).map (fun r => (-(r.1 : ℤ), r.2))
    else (fromCharsDigits s).map (fun r => ((r.1 : ℤ), r.2))
  parsed.filter (fun r => -2 ^ 63 ≤ r.1 ∧ r.1 < 2 ^ 63)

/-- `std::from_chars` for an unsigned 64-bit integer, which knows no minus sign. -/
def fromCharsQty (s : List UInt8) : Option (ℕ × List UInt8) :=
  (fromCharsDigits s).filter (fun r => r.1 < 2 ^ 64)

/-- Floating-point parsing of the standard library and the conversion to fixed point of
UltraLOB, which the decoder only calls. -/
structure Numeric where
  Double : Type
  fromChars : List UInt8 → Option (Double × List UInt8)
  fromDouble : Double → ℤ

/-! ## Symbols -/

structure SymbolMapper where
  map : List (List UInt8 × Symbol) := []
  nextId : Symbol := 1
  deriving DecidableEq, Repr

def SymbolMapper.getOrCreate (m : SymbolMapper) (name : List UInt8) : Symbol × SymbolMapper :=
  match m.map.lookup name with
  | some id => (id, m)
  | none =>
      (m.nextId, { map := (name, m.nextId) :: m.map, nextId := m.nextId + 1 })

/-! ## Rows -/

/-- The splitting loop with the number of free entries of `cols`. The loop ends with the
row, so that nothing follows a trailing comma. -/
def splitCols : ℕ → List UInt8 → List (List UInt8)
  | 0, _ => []
  | _ + 1, [] => []
  | free + 1, c :: p =>
      match memchr (c :: p) 44 with
      | some i => (c :: p).take i :: splitCols free ((c :: p).drop (i + 1))
      | none => [c :: p]

/-- `mapper` is what the decoder's pointer refers to, `none` for a null pointer. -/
structure TickDecoder where
  mapper : Option SymbolMapper
  deriving DecidableEq, Repr

namespace TickDecoder

def symbolOf (d : TickDecoder) (name : List UInt8) : Symbol × TickDecoder :=
  match d.mapper with
  | none => (0, d)
  | some m =>
      let (id, m) := m.getOrCreate name
      (id, { mapper := some m })

/-- Columns 2 to 5, once the time and the symbol are known. -/
def decodeFields (num : Numeric) (ts : ℤ) (sym : Symbol) (cols : List (List UInt8)) :
    Option Event := do
  let typeChar ← (cols.getD 2 []).head?
  let (priceDbl, _) ← num.fromChars (cols.getD 3 [])
  let price := num.fromDouble priceDbl
  let (qty, _) ← fromCharsQty (cols.getD 4 [])
  let sideChar := (cols.getD 5 []).head?
  let side : Side :=
    if sideChar = some 83 ∨ sideChar = some 115 ∨ sideChar = some 65 then .sell else .buy
  match typeChar.toNat with
  | 84 => some (Event.makeTrade ts sym price qty side)
  | 65 =>
      some { timestamp := ts, symbol := sym,
             body := .orderAdd { orderId := 0, price := price, qty := qty, side := side } }
  | _ => none

/-- The event of an accepted row, and the decoder after the row. The symbol is looked up,
and created if new, before the columns after it are looked at. -/
def decodeCsv (num : Numeric) (d : TickDecoder) (line : List UInt8) :
    Option Event × TickDecoder :=
  let cols := splitCols 10 line
  if cols.length < 6 then (none, d)
  else
    match fromCharsNanos (cols.getD 0 []) with
    | none => (none, d)
    | some (ts, _) =>
        let (sym, d) := d.symbolOf (cols.getD 1 [])
        (decodeFields num ts sym cols, d)

end TickDecoder

end UltraBacktest
