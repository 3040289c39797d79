/-!
# Block types

The closed set of block types that can be compiled, with the tags that stand for them in documents.
-/

namespace StrategyCanvas

/-- A type of block that can be compiled. -/
inductive BlockType
  | marketData
  | priceHistory
  | constant
  | sma
  | ema
  | rsi
  | macd
  | bollingerBands
  | compare
  | crossover
  | and
  | or
  | not
  | math
  | buyOrder
  | sellOrder
  | closePosition
  | log
  | alert
  deriving DecidableEq, Repr

namespace BlockType

/-- All block types, with their tags. -/
def tags : List (String × BlockType) :=
  [("market_data", .marketData), ("price_history", .priceHistory), ("constant", .constant),
   ("sma", .sma), ("ema", .ema), ("rsi", .rsi), ("macd", .macd),
   ("bollinger_bands", .bollingerBands), ("compare", .compare), ("crossover", .crossover),
   ("and", .and), ("or", .or), ("not", .not), ("math", .math), ("buy_order", .buyOrder),
   ("sell_order", .sellOrder), ("close_position", .closePosition), ("log", .log),
   ("alert", .alert)]

/-- The tag of a block type. -/
def tag : BlockType → String
  | .marketData => "market_data"
  | .priceHistory => "price_history"
  | .constant => "constant"
  | .sma => "sma"
  | .ema => "ema"
  | .rsi => "rsi"
  | .macd => "macd"
  | .bollingerBands => "bollinger_bands"
  | .compare => "compare"
  | .crossover => "crossover"
  | .and => "and"
  | .or => "or"
  | .not => "not"
  | .math => "math"
  | .buyOrder => "buy_order"
  | .sellOrder => "sell_order"
  | .closePosition => "close_position"
  | .log => "log"
  | .alert => "alert"

/-- The block type with that tag. -/
def ofTag? (tag : String) : Option BlockType := tags.lookup tag

/-- The wording for a tag that names no block type. -/
def unknownMessage (tag : String) : String := "unknown block type '" ++ tag ++ "'"

end BlockType

end StrategyCanvas
