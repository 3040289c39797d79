/-!
# Natural numbers in decimal

Reading a natural number that has to fit into a number of bits. Leading zeros and one plus sign are
allowed. Of a text that has a wrong character and is too long as well, whatever comes first counts.
-/

namespace StrategyCanvas.Decimal

/-- Why a text is no natural number. -/
inductive NaturalError
  | empty
  | invalidDigit
  | tooLarge
  deriving DecidableEq, Repr

/-- The wording of a refusal. -/
def NaturalError.message : NaturalError → String
  | .empty => "cannot parse integer from empty string"
  | .invalidDigit => "invalid digit found in string"
  | .tooLarge => "number too large to fit in target type"

/-- Puts digits behind the number read so far, which stays below `bound`. -/
def appendDigits (bound : Nat) : List Char → Nat → Except NaturalError Nat
  | [], n => .ok n
  | c :: cs, n =>
    if !c.isDigit then .error .invalidDigit
    else
      let next := 10 * n + (c.toNat - '0'.toNat)
      if next < bound then appendDigits bound cs next else .error .tooLarge

/-- Reads a natural number below `bound`. -/
def readNatural (bound : Nat) (text : String) : Except NaturalError Nat :=
  match text.toList with
  | [] => .error .empty
  | ['+'] => .error .invalidDigit
  | '+' :: cs => appendDigits bound cs 0
  | cs => appendDigits bound cs 0

end StrategyCanvas.Decimal
