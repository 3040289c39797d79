import StrategyCanvas.Document.Codec

/-!
# Signals

What a strategy gives out: orders to buy, sell or close, and alerts.
-/

namespace StrategyCanvas.Market

open Json

/-- What a signal asks for. -/
inductive SignalKind
  | buy
  | sell
  | close
  | alert
  deriving DecidableEq, Repr

/-- All kinds of signal, with their names. -/
def SignalKind.names : List (String × SignalKind) :=
  [("Buy", .buy), ("Sell", .sell), ("Close", .close), ("Alert", .alert)]

/-- The name of a kind of signal. -/
def SignalKind.name : SignalKind → String
  | .buy => "Buy"
  | .sell => "Sell"
  | .close => "Close"
  | .alert => "Alert"

/-- How an order is to be placed. -/
inductive OrderType
  | market
  | limit
  deriving DecidableEq, Repr

namespace OrderType

/-- All types of order, with their names. -/
def names : List (String × OrderType) := [("Market", .market), ("Limit", .limit)]

/-- The name of a type of order. -/
def name : OrderType → String
  | .market => "Market"
  | .limit => "Limit"

/-- The type of order that a choice stands for; whatever is not `limit`, in any case, is a market
order. -/
def ofChoice (choice : String) : OrderType :=
  if Text.sameIgnoringCase choice "limit" then .limit else .market

end OrderType

/-- An order or an alert, with the block that it comes from. -/
structure Signal where
  kind : SignalKind
  blockId : String
  timestamp : Time.Instant
  price : Option Float
  amount : Option Float
  orderType : Option OrderType
  reason : String
  deriving BEq, Repr

namespace Signal

/-- An order to buy. -/
def buy (blockId : String) (timestamp : Time.Instant) (price amount : Float) : Signal :=
  ⟨.buy, blockId, timestamp, some price, some amount, some .market, ""⟩

/-- An order to sell. -/
def sell (blockId : String) (timestamp : Time.Instant) (price amount : Float) : Signal :=
  ⟨.sell, blockId, timestamp, some price, some amount, some .market, ""⟩

/-- An order to close the position. -/
def close (blockId : String) (timestamp : Time.Instant) (price : Float) : Signal :=
  ⟨.close, blockId, timestamp, some price, none, some .market, ""⟩

/-- A message. -/
def alert (blockId : String) (timestamp : Time.Instant) (message : String) : Signal :=
  ⟨.alert, blockId, timestamp, none, none, none, message⟩

/-- The same signal with the type of order that a choice stands for. -/
def withOrderType (s : Signal) (choice : String) : Signal :=
  { s with orderType := some (.ofChoice choice) }

/-- Everything but an alert is an order. -/
def isOrder (s : Signal) : Bool := s.kind ≠ .alert

/-- Writes a signal. -/
def encode (s : Signal) : Json :=
  .object [
    ("signal_type", .text s.kind.name),
    ("block_id", .text s.blockId),
    ("timestamp", s.timestamp.encode),
    ("price", .option .float s.price),
    ("amount", .option .float s.amount),
    ("order_type", .option (fun t => .text t.name) s.orderType),
    ("reason", .text s.reason)]

/-- The fields of a signal. -/
def record : Record Signal where
  name := "struct Signal"
  blank := ⟨.alert, "", ⟨0, 0⟩, none, none, none, ""⟩
  fields := [
    .of "signal_type" .required (.named SignalKind.names) fun k s => { s with kind := k },
    .of "block_id" .required .text fun b s => { s with blockId := b },
    .of "timestamp" .required .instant fun t s => { s with timestamp := t },
    .of "price" .optionalByName (.option .number) fun p s => { s with price := p },
    .of "amount" .optionalByName (.option .number) fun a s => { s with amount := a },
    .of "order_type" .optionalByName (.option (.named OrderType.names))
      fun t s => { s with orderType := t },
    .of "reason" .required .text fun r s => { s with reason := r }]

end Signal

end StrategyCanvas.Market
