import StrategyCanvas.Decimal.Binary

/-!
# Reading decimals

The number syntax of lists of numbers: an optional sign, then `inf`, `infinity` or `nan` in any
case, or digits with an optional point and an optional exponent. A point needs a digit on one of
its sides only, and the result is the nearest 64-bit number.
-/

namespace StrategyCanvas.Decimal

/-- The number `n` with one more digit. -/
def appendDigit (n : Nat) (c : Char) : Nat := 10 * n + (c.toNat - '0'.toNat)

/-- The value of a row of decimal digits. -/
def natOfDigits (cs : List Char) : Nat := cs.foldl appendDigit 0

/-- Splits off an optional sign; `true` stands for minus. -/
def splitSign : List Char → Bool × List Char
  | '-' :: cs => (true, cs)
  | '+' :: cs => (false, cs)
  | cs => (false, cs)

/-- An exponent part: nothing, or an `e` with an optional sign and at least one digit. -/
def exponent? : List Char → Option Int
  | [] => some 0
  | c :: cs =>
    let (negative, ds) := splitSign cs
    if (c = 'e' ∨ c = 'E') ∧ ds ≠ [] ∧ ds.all Char.isDigit then
      some (if negative then -(natOfDigits ds : Int) else natOfDigits ds)
    else none

/-- Splits off a fraction: the digits after a point, if there is a point. -/
def splitFraction : List Char → List Char × List Char
  | '.' :: cs => (cs.takeWhile Char.isDigit, cs.dropWhile Char.isDigit)
  | cs => ([], cs)

/-- The digits before and after the point as one whole number, with the power of ten that belongs
to it. -/
def magnitude? (cs : List Char) : Option (Nat × Int) :=
  let whole := cs.takeWhile Char.isDigit
  let (fraction, rest) := splitFraction (cs.dropWhile Char.isDigit)
  if whole = [] ∧ fraction = [] then none
  else (exponent? rest).map fun e => (natOfDigits (whole ++ fraction), e - fraction.length)

/-- Reads a whole text as a number. -/
def read? (text : String) : Option Float :=
  let (negative, cs) := splitSign text.toList
  let word := String.ofList (cs.map Char.toLower)
  if word = "inf" ∨ word = "infinity" then
    some (Float.ofBits (if negative then 0xfff0000000000000 else 0x7ff0000000000000))
  else if word = "nan" then
    some (Float.ofBits 0x7ff8000000000000)
  else
    (magnitude? cs).map fun (digits, e) => ofDecimal negative digits e

end StrategyCanvas.Decimal
