import StrategyCanvas.Document.Block
import StrategyCanvas.Document.FirstMatch
import StrategyCanvas.Time.Instant

/-!
# Strategy definitions

A strategy as it is stored: its blocks, the connections between them, and who made it when. Blocks
and connections are looked up by id, where the first one with an id counts.
-/

namespace StrategyCanvas

/-- Who made a strategy and when. -/
structure Metadata where
  createdAt : Time.Instant
  updatedAt : Time.Instant
  createdBy : String
  tags : List String
  deriving BEq, DecidableEq, Repr

/-- A strategy. -/
structure Definition where
  id : String
  name : String
  description : String
  version : UInt32
  blocks : List Block
  connections : List Connection
  metadata : Metadata
  deriving BEq, Repr

namespace Definition

/-- An empty strategy, at version 1. -/
def new (id name createdBy : String) (now : Time.Instant) : Definition where
  id := id
  name := name
  description := ""
  version := 1
  blocks := []
  connections := []
  metadata := ⟨now, now, createdBy, []⟩

/-- The first block with that id. -/
def block? (d : Definition) (id : String) : Option Block := d.blocks.find? (·.id = id)

/-- The first connection with that id. -/
def connection? (d : Definition) (id : String) : Option Connection :=
  d.connections.find? (·.id = id)

/-- The connections that end at a block. -/
def incoming (d : Definition) (blockId : String) : List Connection :=
  d.connections.filter (·.targetBlockId = blockId)

/-- The connections that start at a block. -/
def outgoing (d : Definition) (blockId : String) : List Connection :=
  d.connections.filter (·.sourceBlockId = blockId)

/-- The connections that end at an input port. -/
def feeding (d : Definition) (inputId : String) : List Connection :=
  d.connections.filter (·.targetInputId = inputId)

/-- The connections that start or end at a block. -/
def touching (d : Definition) (blockId : String) : List Connection :=
  d.connections.filter (·.touches blockId)

/-- Changes the first block with that id. -/
def mapBlock (d : Definition) (id : String) (change : Block → Block) : Definition :=
  { d with blocks := mapFirst (fun b => b.id = id) change d.blocks }

end Definition

end StrategyCanvas
