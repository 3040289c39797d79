/-!
# Source maps

Which lines of generated code come from which block or connection. A source map lists ids in
ascending order, each with its locations in the order in which they were recorded.
-/

namespace StrategyCanvas.Code

/-- The parts of generated code that a location can lie in. -/
inductive Part
  /-- The fields for outputs and state. -/
  | state
  /-- The construction. -/
  | init
  /-- The update for one tick. -/
  | update
  /-- The reset. -/
  | reset
  /-- The fields of parameters and the access to them by key. -/
  | parameter
  deriving DecidableEq, Repr

namespace Part

/-- All parts, with their names. -/
def names : List (String × Part) :=
  [("state", .state), ("init", .init), ("update", .update), ("reset", .reset),
   ("parameter", .parameter)]

/-- The name of a part. -/
def name : Part → String
  | .state => "state"
  | .init => "init"
  | .update => "update"
  | .reset => "reset"
  | .parameter => "parameter"

end Part

/-- A place in generated code; lines and columns are counted from one. -/
structure Location where
  line : Nat
  column : Nat
  part : Part
  deriving DecidableEq, Repr

/-- The locations of blocks and connections by id. -/
structure SourceMap where
  blocks : List (String × List Location)
  connections : List (String × List Location)
  deriving DecidableEq, Repr

namespace SourceMap

/-- Adds an id to ascending ids, unless it is there already. -/
def insertId (id : String) : List String → List String
  | [] => [id]
  | i :: is => if id < i then id :: i :: is else if id = i then i :: is else i :: insertId id is

/-- The ids of a list of marks, each once and ascending. -/
def ids (marks : List (String × Location)) : List String :=
  marks.foldl (fun is m => insertId m.1 is) []

/-- Groups marks by id. -/
def group (marks : List (String × Location)) : List (String × List Location) :=
  (ids marks).map fun id => (id, (marks.filter (·.1 = id)).map (·.2))

/-- The locations of a block. -/
def blockLocations (m : SourceMap) (blockId : String) : List Location :=
  (m.blocks.lookup blockId).getD []

/-- The locations of a connection. -/
def connectionLocations (m : SourceMap) (connectionId : String) : List Location :=
  (m.connections.lookup connectionId).getD []

/-- Whether one of the locations lies on a line. -/
def onLine (line : Nat) (entry : String × List Location) : Bool := entry.2.any (·.line = line)

/-- The first block that a line comes from. -/
def blockAt? (m : SourceMap) (line : Nat) : Option String :=
  (m.blocks.find? (onLine line)).map (·.1)

/-- The connections whose values are read on a line. -/
def connectionsAt (m : SourceMap) (line : Nat) : List String :=
  (m.connections.filter (onLine line)).map (·.1)

/-- The first connection whose value is read on a line. -/
def connectionAt? (m : SourceMap) (line : Nat) : Option String := (m.connectionsAt line).head?

end SourceMap

end StrategyCanvas.Code
