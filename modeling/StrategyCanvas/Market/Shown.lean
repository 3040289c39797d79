import StrategyCanvas.Decimal.Layout
import StrategyCanvas.Market.Conversion
import StrategyCanvas.Market.Signal
import StrategyCanvas.Text.Quoted

/-!
# Values as they are shown

The text of a value for an input that takes values of any kind. It names every part of the value.
-/

namespace StrategyCanvas.Market

/-- A number with its decimal point. -/
def shownNumber (x : Float) : String := Decimal.Layout.code.text x

/-- A truth value. -/
def shownBoolean (b : Bool) : String := textOfBoolean b

/-- A text in quotes. -/
def shownText (s : String) : String := Text.quote s

/-- A series in brackets. -/
def shownSeries (xs : List Float) : String := "[" ++ ", ".intercalate (xs.map shownNumber) ++ "]"

/-- The name of a structure and its parts by name. -/
def shownParts (name : String) (parts : List (String × String)) : String :=
  name ++ " \x7b " ++ ", ".intercalate (parts.map fun (part, value) => part ++ ": " ++ value)
    ++ " \x7d"

/-- A value that may be absent. -/
def shownOption {α : Type} (shown : α → String) : Option α → String
  | none => "None"
  | some a => "Some(" ++ shown a ++ ")"

/-- A candle. -/
def shownCandle (c : Candle) : String :=
  shownParts "Candle" [
    ("open", shownNumber c.opening), ("high", shownNumber c.high), ("low", shownNumber c.low),
    ("close", shownNumber c.close), ("volume", shownNumber c.volume)]

/-- A signal. -/
def shownSignal (s : Signal) : String :=
  shownParts "Signal" [
    ("signal_type", s.kind.name),
    ("block_id", shownText s.blockId),
    ("timestamp", s.timestamp.text),
    ("price", shownOption shownNumber s.price),
    ("amount", shownOption shownNumber s.amount),
    ("order_type", shownOption OrderType.name s.orderType),
    ("reason", shownText s.reason)]

/-- An order, if there is one. -/
def shownOrder (order : Option Signal) : String := shownOption shownSignal order

end StrategyCanvas.Market
