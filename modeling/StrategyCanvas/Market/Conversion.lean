import StrategyCanvas.Decimal.Layout
import StrategyCanvas.Decimal.Reader
import StrategyCanvas.Market.Candle
import StrategyCanvas.Text.Blank

/-!
# Conversions

How a value of one kind is taken for a value of another, where it is more than a copy. A series
stands for its latest value, and is written as its numbers separated by commas.
-/

namespace StrategyCanvas.Market

/-- A candle stands for its closing price. -/
def numberOfCandle (c : Candle) : Float := c.close

/-- A series stands for its latest value; an empty one is no number. -/
def numberOfSeries (xs : List Float) : Float := xs.getLast?.getD (0.0 / 0.0)

/-- A series is true if its latest value is finite and not zero. -/
def booleanOfSeries (xs : List Float) : Bool := xs.getLast?.any fun x => x.isFinite && x != 0

/-- A number as a text. -/
def textOfNumber (x : Float) : String := Decimal.Layout.message.text x

/-- A truth value as a text. -/
def textOfBoolean (b : Bool) : String := if b then "true" else "false"

/-- A series as a text. -/
def textOfSeries (xs : List Float) : String := ",".intercalate (xs.map textOfNumber)

/-- A number is a series of one value. -/
def seriesOfNumber (x : Float) : List Float := [x]

/-- A truth value is a series of one or zero. -/
def seriesOfBoolean (b : Bool) : List Float := [if b then 1 else 0]

/-- The numbers between the commas of a text; what is no number is passed over. -/
def seriesOfText (s : String) : List Float :=
  (s.toList.splitOn ',').filterMap fun piece => Decimal.read? (Text.trim (String.ofList piece))

end StrategyCanvas.Market
