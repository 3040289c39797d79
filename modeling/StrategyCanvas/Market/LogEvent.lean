/-!
# Log events

What a block of the type `log` leaves behind for the people who run a strategy.
-/

namespace StrategyCanvas.Market

/-- How much attention an event asks for. -/
inductive LogLevel
  | debug
  | info
  | warn
  deriving DecidableEq, Repr

/-- The level of a choice; whatever is no other level is for information. -/
def LogLevel.ofChoice : String → LogLevel
  | "warn" => .warn
  | "debug" => .debug
  | _ => .info

/-- The name of a level. -/
def LogLevel.name : LogLevel → String
  | .debug => "DEBUG"
  | .info => "INFO"
  | .warn => "WARN"

/-- A value that has reached a block, with the message of the block. -/
structure LogEvent where
  level : LogLevel
  blockId : String
  message : String
  value : String
  deriving DecidableEq, Repr

end StrategyCanvas.Market
