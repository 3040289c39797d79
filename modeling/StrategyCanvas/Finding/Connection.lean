import StrategyCanvas.Document.Definition
import StrategyCanvas.Finding.Defect

/-!
# Checking connections

A connection must join an output of one block to an input of another, of kinds that fit, and must
not repeat another connection. A second connection into the same input only draws a warning. A
connection is never compared with itself: those with its own id do not count.

Many connections are checked against one index. It knows the blocks by id and, of the connections
that it has recorded, the ids by the ports that they join and by the input at which they end, so
that no connection is compared with each of the others.
-/

namespace StrategyCanvas

/-! ## Sets of ids -/

/-- Ids, each of them once. -/
structure IdSet where
  ids : List String
  nodup : ids.Nodup

namespace IdSet

/-- No ids. -/
def empty : IdSet := ⟨[], .nil⟩

/-- Adds an id, unless it is there already. -/
def insert (s : IdSet) (id : String) : IdSet :=
  if known : id ∈ s.ids then s else ⟨id :: s.ids, List.nodup_cons.mpr ⟨known, s.nodup⟩⟩

/-- Whether there is an id besides the given one. The number of ids tells. -/
def hasOther (s : IdSet) (id : String) : Bool :=
  1 < s.ids.length || (s.ids.length = 1 && !s.ids.contains id)

end IdSet

/-- Ids by keys. Of entries with the same key the first one counts. -/
abbrev IdTable (κ : Type) := List (κ × IdSet)

namespace IdTable

variable {κ : Type} [BEq κ]

/-- Adds an id to those of a key. -/
def record (table : IdTable κ) (key : κ) (id : String) : IdTable κ :=
  (key, ((table.lookup key).getD .empty).insert id) :: table

/-- Whether a key has an id besides the given one. -/
def hasOther (table : IdTable κ) (key : κ) (id : String) : Bool :=
  (table.lookup key).any (·.hasOther id)

end IdTable

/-! ## The index -/

/-- What connections are checked against. -/
structure ConnectionIndex where
  /-- The blocks by id. -/
  blocks : List (String × Block)
  /-- The ids of the recorded connections by output and input. -/
  endpoints : IdTable (String × String)
  /-- The ids of the recorded connections by input. -/
  inputs : IdTable String

/-- The ports that a connection joins. -/
def Connection.endpoints (c : Connection) : String × String := (c.sourceOutputId, c.targetInputId)

namespace ConnectionIndex

/-- Adds a block, unless there is one with its id. -/
def addBlock (blocks : List (String × Block)) (b : Block) : List (String × Block) :=
  if (blocks.lookup b.id).isSome then blocks else (b.id, b) :: blocks

/-- The index of blocks, with no connection recorded. -/
def ofBlocks (blocks : List Block) : ConnectionIndex := ⟨blocks.foldl addBlock [], [], []⟩

/-- Records a connection. -/
def insert (index : ConnectionIndex) (c : Connection) : ConnectionIndex where
  blocks := index.blocks
  endpoints := index.endpoints.record c.endpoints c.id
  inputs := index.inputs.record c.targetInputId c.id

/-- What is wrong with a connection between two ports that exist. -/
def checkPorts (index : ConnectionIndex) (c : Connection) (source target : Block)
    (output : OutputPort) (input : InputPort) : List Defect :=
  let duplicate := index.endpoints.hasOther c.endpoints c.id
  (if source.id = target.id then [.selfConnection c.id source.id source.name] else [])
  ++ (if duplicate then
    [.duplicateConnection c.id source.name output.name target.name input.name] else [])
  ++ (if !output.dataKind.feeds input.dataKind then
    [.typeMismatch c.id target.id output.name input.name output.dataKind input.dataKind] else [])
  ++ if !duplicate && index.inputs.hasOther c.targetInputId c.id then
    [.multipleInputs c.id target.id target.name input.name] else []

/-- What is wrong with a connection. A missing block hides everything else, and so does a missing
port. -/
def check (index : ConnectionIndex) (c : Connection) : List Defect :=
  match index.blocks.lookup c.sourceBlockId, index.blocks.lookup c.targetBlockId with
  | some source, some target =>
    let output := source.output? c.sourceOutputId
    let input := target.input? c.targetInputId
    let missing :=
      (if output.isNone then [.missingOutput c.id source.id source.name c.sourceOutputId] else [])
      ++ if input.isNone then [.missingInput c.id target.id target.name c.targetInputId] else []
    match output, input with
    | some output, some input => index.checkPorts c source target output input
    | _, _ => missing
  | source, _ =>
    [.missingBlock c.id (if source.isNone then c.sourceBlockId else c.targetBlockId)]

/-- What is wrong with connections, each of which is checked before it is recorded. -/
def checkAll (index : ConnectionIndex) : List Connection → List Defect
  | [] => []
  | c :: rest => index.check c ++ (index.insert c).checkAll rest

end ConnectionIndex

/-- The findings about a connection between the blocks, given the other connections. -/
def Connection.findings (c : Connection) (blocks : List Block) (existing : List Connection) :
    List Finding :=
  ((existing.foldl ConnectionIndex.insert (.ofBlocks blocks)).check c).map (·.finding)

end StrategyCanvas
