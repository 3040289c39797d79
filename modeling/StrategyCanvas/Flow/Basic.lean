import StrategyCanvas.Document.Definition

/-!
# The data flow of a strategy

Blocks and connections as a directed graph. A node is a position in the list of blocks, which is
what makes every answer depend on the order of the blocks alone. An id stands for the last block
that carries it, and a connection counts only if both of its ends name a block.
-/

namespace StrategyCanvas

/-- A directed graph on the positions below `n`, with parallel edges and loops. -/
structure Flow (n : Nat) where
  edges : List (Fin n × Fin n)
  deriving DecidableEq, Repr

namespace Flow

/-- The last position of an id. -/
def position? : (ids : List String) → String → Option (Fin ids.length)
  | [], _ => none
  | a :: rest, id =>
    match position? rest id with
    | some i => some i.succ
    | none => if a = id then some ⟨0, Nat.zero_lt_succ _⟩ else none

/-- The edge between two ids, if both are present. -/
def edge? (ids : List String) (ends : String × String) :
    Option (Fin ids.length × Fin ids.length) :=
  match position? ids ends.1, position? ids ends.2 with
  | some s, some t => some (s, t)
  | _, _ => none

/-- The graph on a list of ids with the edges between them. -/
def ofIds (ids : List String) (ends : List (String × String)) : Flow ids.length :=
  ⟨ends.filterMap (edge? ids)⟩

/-- The ends of the edges that start at a node, in the order of the edges. -/
def successors {n : Nat} (g : Flow n) (i : Fin n) : List (Fin n) :=
  (g.edges.filter fun e => e.1 = i).map Prod.snd

end Flow

/-- The ids of the blocks of a strategy. -/
def Definition.blockIds (d : Definition) : List String := d.blocks.map (·.id)

/-- The ids of the blocks that a connection joins. -/
def Connection.ends (c : Connection) : String × String := (c.sourceBlockId, c.targetBlockId)

/-- The data flow of a strategy. -/
def Definition.flow (d : Definition) : Flow d.blockIds.length :=
  .ofIds d.blockIds (d.connections.map (·.ends))

end StrategyCanvas
