/-!
# Kinds

The closed sets of names in a strategy document: what a port carries, where a block belongs in the
palette, and what a property holds. Each kind comes with the list of all its members and their
names, in the order in which they are named to a reader.
-/

namespace StrategyCanvas

/-- What a port carries. -/
inductive DataKind
  | number
  | boolean
  | string
  | candle
  | indicator
  | signal
  | order
  | array
  | any
  deriving DecidableEq, Repr

namespace DataKind

/-- All kinds, with their names. -/
def names : List (String × DataKind) :=
  [("number", .number), ("boolean", .boolean), ("string", .string), ("candle", .candle),
   ("indicator", .indicator), ("signal", .signal), ("order", .order), ("array", .array),
   ("any", .any)]

/-- The name of a kind. -/
def name : DataKind → String
  | .number => "number"
  | .boolean => "boolean"
  | .string => "string"
  | .candle => "candle"
  | .indicator => "indicator"
  | .signal => "signal"
  | .order => "order"
  | .array => "array"
  | .any => "any"

/-- Numbers, booleans and strings. -/
def isScalar : DataKind → Bool
  | .number | .boolean | .string => true
  | _ => false

end DataKind

/-- Where a block belongs in the palette. -/
inductive Category
  | data
  | indicator
  | logic
  | math
  | action
  | output
  deriving DecidableEq, Repr

namespace Category

/-- All categories, with their names. -/
def names : List (String × Category) :=
  [("data", .data), ("indicator", .indicator), ("logic", .logic), ("math", .math),
   ("action", .action), ("output", .output)]

/-- The name of a category. -/
def name : Category → String
  | .data => "data"
  | .indicator => "indicator"
  | .logic => "logic"
  | .math => "math"
  | .action => "action"
  | .output => "output"

/-- Actions and outputs are the blocks that can be observed from outside. -/
def hasEffect : Category → Bool
  | .action | .output => true
  | _ => false

end Category

/-- What a property holds. -/
inductive PropertyKind
  | number
  | string
  | boolean
  | select
  deriving DecidableEq, Repr

namespace PropertyKind

/-- All property kinds, with their names. -/
def names : List (String × PropertyKind) :=
  [("number", .number), ("string", .string), ("boolean", .boolean), ("select", .select)]

/-- The name of a property kind. -/
def name : PropertyKind → String
  | .number => "number"
  | .string => "string"
  | .boolean => "boolean"
  | .select => "select"

end PropertyKind

end StrategyCanvas
