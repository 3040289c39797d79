/-!
# Arithmetic on values

The operations that blocks apply to two numbers, chosen by name. Numbers closer to each other than a
tolerance count as equal, and a number closer to zero than the tolerance divides nothing.
-/

namespace StrategyCanvas.Series

/-- The tolerance of comparisons. -/
def tolerance : Float := 1e-9

/-- A quantity that is no number. -/
def notANumber : Float := 0.0 / 0.0

/-- Compares two numbers by the operator of that name. What is no number compares to nothing, and an
unknown operator never holds. -/
def compare (a : Float) (operator : String) (b : Float) : Bool :=
  if a.isNaN || b.isNaN then false
  else match operator with
    | ">" => b < a
    | "<" => a < b
    | ">=" => b ≤ a
    | "<=" => a ≤ b
    | "==" => (a - b).abs < tolerance
    | "!=" => tolerance ≤ (a - b).abs
    | _ => false

/-- The lesser of two numbers; of two equal ones, such as zeros of different signs, the second. What
is no number gives way. -/
def least (a b : Float) : Float :=
  if a.isNaN || b ≤ a then b else a

/-- The greater of two numbers; of two equal ones, such as zeros of different signs, the second.
What is no number gives way. -/
def greatest (a b : Float) : Float :=
  if a.isNaN || a ≤ b then b else a

/-- Applies the operation of that name to two numbers. An unknown operation gives no number. -/
def arithmetic (operation : String) (a b : Float) : Float :=
  match operation with
  | "add" => a + b
  | "subtract" => a - b
  | "multiply" => a * b
  | "divide" => if b.abs < tolerance then notANumber else a / b
  | "min" => least a b
  | "max" => greatest a b
  | _ => notANumber

end StrategyCanvas.Series
