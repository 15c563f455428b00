import UltraBacktest.Model.TickDecoder

/-! The pattern of `std::from_chars` for floating-point numbers: the longest prefix of a text
that is a decimal number, an infinity or a NaN. The value of the prefix and its range are
left to the parameters of the decoder. -/

namespace UltraBacktest

/-- The text behind an optional minus sign; a plus sign is not recognized. -/
def signRest (s : List UInt8) : List UInt8 := if s.head? = some 45 then s.tail else s

/-- The text behind an exponent, or the whole text when no digit follows the letter. -/
def exponentRest (s : List UInt8) : List UInt8 :=
  if s.head? = some 101 ∨ s.head? = some 69 then
    let digits := signedRest s.tail
    if (digits.takeWhile isDigit).isEmpty then s else digits.dropWhile isDigit
  else s
where
  /-- The text behind the optional sign of an exponent. -/
  signedRest (s : List UInt8) : List UInt8 :=
    if s.head? = some 43 ∨ s.head? = some 45 then s.tail else s

/-- The text behind digits with an optional point among, before or after them, and an
optional exponent. -/
def decimalRest (s : List UInt8) : Option (List UInt8) :=
  let rest := s.dropWhile isDigit
  if rest.head? = some 46 then
    if (s.takeWhile isDigit).isEmpty ∧ (rest.tail.takeWhile isDigit).isEmpty then none
    else some (exponentRest (rest.tail.dropWhile isDigit))
  else if (s.takeWhile isDigit).isEmpty then none
  else some (exponentRest rest)

def toLower (c : UInt8) : UInt8 := if 65 ≤ c ∧ c ≤ 90 then c + 32 else c

/-- The text behind a word written in either case. -/
def wordRest (word s : List UInt8) : Option (List UInt8) :=
  if (s.take word.length).map toLower = word then some (s.drop word.length) else none

/-- `infinity` before `inf`, since the longer one is matched. -/
def infinityRest (s : List UInt8) : Option (List UInt8) :=
  (wordRest [105, 110, 102, 105, 110, 105, 116, 121] s).or (wordRest [105, 110, 102] s)

/-- A letter, a digit or an underscore. -/
def isWordChar (c : UInt8) : Bool :=
  isDigit c || (65 ≤ c && c ≤ 90) || (97 ≤ c && c ≤ 122) || c == 95

/-- `nan`, with what stands in parentheses behind it. -/
def nanRest (s : List UInt8) : Option (List UInt8) :=
  (wordRest [110, 97, 110] s).map (fun rest =>
    if rest.head? = some 40 ∧ (rest.tail.dropWhile isWordChar).head? = some 41 then
      (rest.tail.dropWhile isWordChar).tail
    else rest)

/-- The text behind the number at the front of a text. -/
def doubleRest (s : List UInt8) : Option (List UInt8) :=
  (infinityRest (signRest s)).or ((nanRest (signRest s)).or (decimalRest (signRest s)))

/-- Where floating-point parsing succeeds it has consumed the longest match. -/
structure Numeric.Standard (num : Numeric) : Prop where
  doubleRest_eq : ∀ {s : List UInt8} {d : num.Double} {rest : List UInt8},
    num.fromChars s = some (d, rest) → doubleRest s = some rest

end UltraBacktest
