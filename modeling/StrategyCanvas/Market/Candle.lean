import StrategyCanvas.Document.Codec

/-!
# Candles and ticks

What the market delivers: a candle has the prices and the volume of one stretch of time, and a tick
is the latest candle of a symbol.
-/

namespace StrategyCanvas.Market

open Json

/-- The prices and the volume of one stretch of time. -/
structure Candle where
  opening : Float
  high : Float
  low : Float
  close : Float
  volume : Float
  deriving BEq, Repr

namespace Candle

/-- The mean of high, low and close. -/
def typicalPrice (c : Candle) : Float := (c.high + c.low + c.close) / 3

/-- Whether the price has risen. -/
def isBullish (c : Candle) : Bool := c.opening < c.close

/-- How far the price has moved. -/
def range (c : Candle) : Float := c.high - c.low

/-- The members of a candle. -/
def members (c : Candle) : List (String × Json) :=
  [("open", .float c.opening), ("high", .float c.high), ("low", .float c.low),
   ("close", .float c.close), ("volume", .float c.volume)]

/-- Writes a candle. -/
def encode (c : Candle) : Json := .object c.members

/-- The fields of a candle. -/
def record : Record Candle where
  name := "struct Candle"
  blank := ⟨0, 0, 0, 0, 0⟩
  fields := [
    .of "open" .required .number fun x c => { c with opening := x },
    .of "high" .required .number fun x c => { c with high := x },
    .of "low" .required .number fun x c => { c with low := x },
    .of "close" .required .number fun x c => { c with close := x },
    .of "volume" .required .number fun x c => { c with volume := x }]

end Candle

/-- The latest candle of a symbol. -/
structure Tick where
  symbol : String
  timestamp : Time.Instant
  candle : Candle
  deriving BEq, Repr

namespace Tick

/-- A tick on which nothing moves and nothing is traded. -/
def atPrice (symbol : String) (timestamp : Time.Instant) (price : Float) : Tick :=
  ⟨symbol, timestamp, ⟨price, price, price, price, 0⟩⟩

/-- Writes a tick; the members of its candle stand next to its own. -/
def encode (t : Tick) : Json :=
  .object ([("symbol", .text t.symbol), ("timestamp", t.timestamp.encode)] ++ t.candle.members)

/-- A field of the candle as a field of the tick. -/
def candleField (f : RecordField Candle) : RecordField Tick where
  name := f.name
  presence := f.presence
  set o v t := (f.set o v t.candle).map fun c => { t with candle := c }

/-- The fields of a tick. -/
def record : Record Tick where
  name := "struct Tick"
  blank := ⟨"", ⟨0, 0⟩, Candle.record.blank⟩
  fields := [
    .of "symbol" .required .text fun s t => { t with symbol := s },
    .of "timestamp" .required .instant fun i t => { t with timestamp := i }]
    ++ Candle.record.fields.map candleField

end Tick

end StrategyCanvas.Market
