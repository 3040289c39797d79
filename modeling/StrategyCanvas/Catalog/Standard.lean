import StrategyCanvas.Catalog.Basic

/-!
# The standard catalog

One template for every block type.
-/

namespace StrategyCanvas

namespace Catalog

/-- The choices of a comparison. -/
def comparisonChoices : List (String × String) :=
  [(">", "Greater than"), ("<", "Less than"), (">=", "Greater or equal"), ("<=", "Less or equal"),
   ("==", "Equal"), ("!=", "Not equal")]

/-- The choices of an order type. -/
def orderTypeChoices : List (String × String) := [("market", "Market"), ("limit", "Limit")]

/-- The choices of a time frame. -/
def timeframeChoices : List (String × String) :=
  [("1m", "1 minute"), ("5m", "5 minutes"), ("15m", "15 minutes"), ("1h", "1 hour"),
   ("4h", "4 hours"), ("1d", "1 day")]

/-- The choices of an arithmetic operation. -/
def operationChoices : List (String × String) :=
  [("add", "Add"), ("subtract", "Subtract"), ("multiply", "Multiply"), ("divide", "Divide"),
   ("min", "Minimum"), ("max", "Maximum")]

/-- The extent of a new block, by category. -/
def defaultSize : Category → Size
  | .data => ⟨200, 120⟩
  | .indicator => ⟨200, 100⟩
  | .logic | .math => ⟨160, 80⟩
  | .action | .output => ⟨180, 100⟩

/-- A template with the extent of its category. -/
def entry (type : BlockType) (category : Category) (name description : String)
    (inputs : List InputSpec) (outputs : List OutputSpec) (properties : List PropertySpec) :
    Template :=
  ⟨type, category, name, description, inputs, outputs, properties, defaultSize category⟩

/-- A moving average of one number. -/
def movingAverage (type : BlockType) (name description : String) : Template :=
  entry type .indicator name description
    [⟨"Source", .number, false⟩]
    [⟨"Value", .indicator⟩]
    [(PropertySpec.number "period" "Period" 20).within 1 500 |>.asRequired]

/-- A block that places an order. -/
def orderAction (type : BlockType) (name description : String) : Template :=
  entry type .action name description
    [⟨"Condition", .boolean, true⟩, ⟨"Price", .number, false⟩]
    [⟨"Order", .order⟩]
    [(PropertySpec.number "amount" "Amount" 1).atLeast 0 |>.asRequired,
     .select "order_type" "Order Type" "market" orderTypeChoices,
     (PropertySpec.number "cooldown" "Cooldown (s)" 0).within 0 86400]

/-- A connective of two conditions. -/
def connective (type : BlockType) (name description : String) : Template :=
  entry type .logic name description
    [⟨"A", .boolean, true⟩, ⟨"B", .boolean, true⟩]
    [⟨"Result", .boolean⟩]
    []

/-- The standard templates. -/
def standardTemplates : List Template := [
  entry .marketData .data "Market Data" "Latest price, volume and candle for a symbol"
    []
    [⟨"Price", .number⟩, ⟨"Volume", .number⟩, ⟨"Candle", .candle⟩]
    [(PropertySpec.text "symbol" "Symbol" "BTC/USDT").asRequired,
     .select "timeframe" "Timeframe" "5m" timeframeChoices],
  entry .priceHistory .data "Price History" "Rolling window of recent closing prices"
    []
    [⟨"Closes", .array⟩]
    [(PropertySpec.number "length" "Length" 20).within 1 500 |>.asRequired],
  entry .constant .data "Constant" "Fixed numeric value"
    []
    [⟨"Value", .number⟩]
    [(PropertySpec.number "value" "Value" 0).asRequired],
  movingAverage .sma "SMA" "Simple moving average",
  movingAverage .ema "EMA" "Exponential moving average",
  entry .rsi .indicator "RSI" "Relative strength index (0-100)"
    [⟨"Source", .number, false⟩]
    [⟨"Value", .indicator⟩]
    [(PropertySpec.number "period" "Period" 14).within 2 100 |>.asRequired],
  entry .macd .indicator "MACD" "Moving average convergence divergence"
    [⟨"Source", .number, false⟩]
    [⟨"MACD", .indicator⟩, ⟨"Signal", .indicator⟩, ⟨"Histogram", .indicator⟩]
    [(PropertySpec.number "fast" "Fast Period" 12).within 1 100 |>.asRequired,
     (PropertySpec.number "slow" "Slow Period" 26).within 1 200 |>.asRequired,
     (PropertySpec.number "signal" "Signal Period" 9).within 1 100 |>.asRequired],
  entry .bollingerBands .indicator "Bollinger Bands" "Moving average with standard deviation bands"
    [⟨"Source", .number, false⟩]
    [⟨"Upper", .indicator⟩, ⟨"Middle", .indicator⟩, ⟨"Lower", .indicator⟩]
    [(PropertySpec.number "period" "Period" 20).within 2 200 |>.asRequired,
     (PropertySpec.number "std_dev" "Std Dev" 2).within 0.1 5 |>.asRequired],
  entry .compare .logic "Compare"
    "Compare A against B, or against the threshold when B is unconnected"
    [⟨"A", .number, true⟩, ⟨"B", .number, false⟩]
    [⟨"Result", .boolean⟩]
    [.select "operator" "Operator" ">" comparisonChoices,
     .number "threshold" "Threshold" 0],
  entry .crossover .logic "Crossover" "Fires on the tick where Fast crosses Slow"
    [⟨"Fast", .number, true⟩, ⟨"Slow", .number, true⟩]
    [⟨"Signal", .signal⟩]
    [.select "direction" "Direction" "above"
      [("above", "Crosses above"), ("below", "Crosses below")]],
  connective .and "AND" "True when both inputs are true",
  connective .or "OR" "True when either input is true",
  entry .not .logic "NOT" "Negates its input"
    [⟨"Value", .boolean, true⟩]
    [⟨"Result", .boolean⟩]
    [],
  entry .math .math "Math" "Arithmetic on A and B, or on A and the operand when B is unconnected"
    [⟨"A", .number, true⟩, ⟨"B", .number, false⟩]
    [⟨"Result", .number⟩]
    [.select "operation" "Operation" "add" operationChoices,
     .number "operand" "Operand" 0],
  orderAction .buyOrder "Buy Order" "Places a buy order when the condition is true",
  orderAction .sellOrder "Sell Order" "Places a sell order when the condition is true",
  entry .closePosition .action "Close Position"
    "Closes the open position when the condition is true"
    [⟨"Condition", .boolean, true⟩]
    [⟨"Order", .order⟩]
    [(PropertySpec.number "cooldown" "Cooldown (s)" 0).within 0 86400],
  entry .log .output "Log" "Writes the incoming value to the strategy log"
    [⟨"Value", .any, true⟩]
    []
    [.text "message" "Message" "value",
     .select "level" "Level" "info" [("debug", "Debug"), ("info", "Info"), ("warn", "Warning")]],
  entry .alert .output "Alert" "Emits an alert signal each time the trigger turns true"
    [⟨"Trigger", .boolean, true⟩]
    []
    [(PropertySpec.text "message" "Message" "Strategy alert").asRequired]]

/-- The catalog of the standard templates. -/
def standard : Catalog := .ofList standardTemplates

end Catalog

end StrategyCanvas
