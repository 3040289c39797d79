import StrategyCanvas.Catalog.BlockType
import StrategyCanvas.Code.CompileError
import StrategyCanvas.Code.Sheet

/-!
# Emission rules

What each type of block does on a tick, as data: the state it keeps, the members it reads in the
order in which they are asked for, and its lines of code with places for what is read. Naming,
wiring and bookkeeping belong to the emission of a rule.
-/

namespace StrategyCanvas.Code

/-- A piece of a line of code. -/
inductive Piece
  /-- Text as it stands. -/
  | text (s : String)
  /-- The current value of a property. -/
  | property (name : String)
  /-- What is connected to an input, or the fallback of its kind. -/
  | input (name : String)
  /-- What is connected to an input, or the current value of a property. -/
  | inputOr (name property : String)
  /-- The field of an output. -/
  | output (name : String)
  /-- The field of the state. -/
  | state
  /-- The id of the block, as a literal. -/
  | blockId
  deriving DecidableEq, Repr

instance : Coe String Piece := ⟨Piece.text⟩

/-- A piece of the code that makes a new state. -/
inductive StatePiece
  /-- Text as it stands. -/
  | text (s : String)
  /-- The value of a property. -/
  | property (name : String)
  deriving DecidableEq, Repr

instance : Coe String StatePiece := ⟨StatePiece.text⟩

/-- The state of a type of block: its type in the code, and how it is made. -/
structure StateRule where
  type : String
  make : List StatePiece
  deriving DecidableEq, Repr

/-- What a type of block does on a tick. -/
structure Rule where
  state : Option StateRule
  reads : List Member
  update : List (Stroke (List Piece))
  deriving DecidableEq, Repr

/-- The properties that a state is made from, in order. -/
def StateRule.properties (s : StateRule) : List String :=
  s.make.filterMap fun
    | .property name => some name
    | .text _ => none

/-- Everything that a rule reads, in the order in which it is asked for. -/
def Rule.members (r : Rule) : List Member :=
  (match r.state with
    | some s => s.properties.map .property
    | none => []) ++ r.reads

namespace Rule

/-- An indicator of one number with a single value. -/
def singleValue (type : String) : Rule where
  state := some ⟨type, [type ++ "::new(period_of(", .property "period", "))"]⟩
  reads := [.input "Source", .output "Value"]
  update := [
    .line [.state, ".update(", .input "Source", ");"],
    .line [.output "Value", " = ", .state, ".value_or_nan();"]]

/-- The line that sets an output to one of the values of an indicator. -/
def indicatorLine (output value : String) : Stroke (List Piece) :=
  .line [.output output, " = ", .state, "." ++ value ++ "().unwrap_or(f64::NAN);"]

/-- A connective of two conditions. -/
def connective (operator : String) : Rule where
  state := none
  reads := [.input "A", .input "B", .output "Result"]
  update := [.line [.output "Result", " = ", .input "A", " " ++ operator ++ " ", .input "B", ";"]]

/-- The state that spaces the orders of a block. -/
def cooldown : StateRule where
  type := "Cooldown"
  make := ["Cooldown::new(", .property "cooldown", ")"]

/-- The lines that give an order out when a condition holds and the cooldown is over. -/
def orderLines (signal : List Piece) : List (Stroke (List Piece)) := [
  .line [.output "Order", " = None;"],
  .opening ["if ", .input "Condition", " && ", .state, ".ready(tick.timestamp) \x7b"],
  .line signal,
  .line [.state, ".mark(tick.timestamp);"],
  .line ["signals.push(signal.clone());"],
  .line [.output "Order", " = Some(signal);"],
  .closing ["\x7d"]]

/-- A block that buys or sells. -/
def order (side : String) : Rule where
  state := some cooldown
  reads := [.input "Condition", .input "Price", .property "amount", .property "order_type",
    .output "Order"]
  update := orderLines [
    "let signal = Signal::" ++ side ++ "(", .blockId, ", tick.timestamp, ", .input "Price", ", ",
    .property "amount", ").with_order_type(", .property "order_type", ");"]

/-- A block that closes the position. -/
def closePosition : Rule where
  state := some cooldown
  reads := [.input "Condition", .output "Order"]
  update := orderLines ["let signal = Signal::close(", .blockId, ", tick.timestamp, tick.close);"]

/-- The latest price, volume and candle. -/
def marketData : Rule where
  state := none
  reads := [.output "Price", .output "Volume", .output "Candle"]
  update := [
    .line [.output "Price", " = tick.close;"],
    .line [.output "Volume", " = tick.volume;"],
    .line [.output "Candle", " = tick.candle();"]]

/-- The latest closing prices. -/
def priceHistory : Rule where
  state := some ⟨"Window", ["Window::new(period_of(", .property "length", "))"]⟩
  reads := [.output "Closes"]
  update := [
    .line [.state, ".push(tick.close);"],
    .line [.output "Closes", " = ", .state, ".values();"]]

/-- A fixed number. -/
def constant : Rule where
  state := none
  reads := [.property "value", .output "Value"]
  update := [.line [.output "Value", " = ", .property "value", ";"]]

/-- The convergence and divergence of two moving averages. -/
def macd : Rule where
  state := some ⟨"MACD", ["MACD::new(period_of(", .property "fast", "), period_of(",
    .property "slow", "), period_of(", .property "signal", "))"]⟩
  reads := [.input "Source", .output "MACD", .output "Signal", .output "Histogram"]
  update := [
    .line [.state, ".update(", .input "Source", ");"],
    indicatorLine "MACD" "macd",
    indicatorLine "Signal" "signal",
    indicatorLine "Histogram" "histogram"]

/-- A moving average between two bands. -/
def bollingerBands : Rule where
  state := some ⟨"BollingerBands", ["BollingerBands::new(period_of(", .property "period", "), ",
    .property "std_dev", ")"]⟩
  reads := [.input "Source", .output "Upper", .output "Middle", .output "Lower"]
  update := [
    .line [.state, ".update(", .input "Source", ");"],
    indicatorLine "Upper" "upper",
    indicatorLine "Middle" "middle",
    indicatorLine "Lower" "lower"]

/-- The comparison of two numbers, the second from an input or a property. -/
def compare : Rule where
  state := none
  reads := [.input "A", .property "threshold", .input "B", .property "operator", .output "Result"]
  update := [.line [
    .output "Result", " = compare(", .input "A", ", ", .property "operator", ", ",
    .inputOr "B" "threshold", ");"]]

/-- One number crossing another. -/
def crossover : Rule where
  state := some ⟨"Crossover", ["Crossover::new(", .property "direction", ")"]⟩
  reads := [.input "Fast", .input "Slow", .output "Signal"]
  update := [.line [
    .output "Signal", " = ", .state, ".update(", .input "Fast", ", ", .input "Slow", ");"]]

/-- The opposite of a condition. -/
def not : Rule where
  state := none
  reads := [.input "Value", .output "Result"]
  update := [.line [.output "Result", " = !", .input "Value", ";"]]

/-- Arithmetic on two numbers, the second from an input or a property. -/
def math : Rule where
  state := none
  reads := [.input "A", .property "operand", .input "B", .property "operation", .output "Result"]
  update := [.line [
    .output "Result", " = arithmetic(", .property "operation", ", ", .input "A", ", ",
    .inputOr "B" "operand", ");"]]

/-- A line in the log. -/
def log : Rule where
  state := none
  reads := [.input "Value", .property "level", .property "message"]
  update := [.line [
    "log_value(", .blockId, ", ", .property "level", ", ", .property "message", ", &",
    .input "Value", ");"]]

/-- A message each time a condition turns true. -/
def alert : Rule where
  state := some ⟨"bool", ["false"]⟩
  reads := [.input "Trigger", .property "message"]
  update := [
    .line ["let triggered = ", .input "Trigger", ";"],
    .opening ["if triggered && !", .state, " \x7b"],
    .line ["signals.push(Signal::alert(", .blockId, ", tick.timestamp, ", .property "message",
      "));"],
    .closing ["\x7d"],
    .line [.state, " = triggered;"]]

/-- The rule of a type of block. -/
def ofType : BlockType → Rule
  | .marketData => marketData
  | .priceHistory => priceHistory
  | .constant => constant
  | .sma => singleValue "SMA"
  | .ema => singleValue "EMA"
  | .rsi => singleValue "RSI"
  | .macd => macd
  | .bollingerBands => bollingerBands
  | .compare => compare
  | .crossover => crossover
  | .and => connective "&&"
  | .or => connective "||"
  | .not => not
  | .math => math
  | .buyOrder => order "buy"
  | .sellOrder => order "sell"
  | .closePosition => closePosition
  | .log => log
  | .alert => alert

end Rule

end StrategyCanvas.Code
