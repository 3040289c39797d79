import StrategyCanvas.Document.Kind
import StrategyCanvas.Text.Blank
import StrategyCanvas.Text.LetterCase
import StrategyCanvas.Text.Slug

/-!
# Blocks

The parts of a strategy on the canvas: blocks with typed ports and configured properties, and the
connections between their ports.
-/

namespace StrategyCanvas

/-- A place on the canvas. -/
structure Position where
  x : Float
  y : Float
  deriving BEq, Repr

/-- The origin of the canvas. -/
def Position.origin : Position := ⟨0, 0⟩

/-- An extent on the canvas. -/
structure Size where
  width : Float
  height : Float
  deriving BEq, Repr

/-- The extent of a block that does not say its own. -/
def Size.usual : Size := ⟨200, 100⟩

/-- The value of a property. -/
inductive PropertyValue
  | boolean (b : Bool)
  | number (x : Float)
  | text (s : String)
  deriving BEq, Repr

namespace PropertyValue

/-- The number, if the value is one. -/
def number? : PropertyValue → Option Float
  | .number x => some x
  | _ => none

/-- The truth value, if the value is one. -/
def boolean? : PropertyValue → Option Bool
  | .boolean b => some b
  | _ => none

/-- The text, if the value is one. -/
def text? : PropertyValue → Option String
  | .text s => some s
  | _ => none

/-- Blank text counts as empty; numbers and truth values never do. -/
def isEmpty : PropertyValue → Bool
  | .text s => Text.isBlankText s
  | _ => false

/-- Whether a property of the kind can hold the value. -/
def fits : PropertyValue → PropertyKind → Bool
  | .number _, .number => true
  | .boolean _, .boolean => true
  | .text _, .string => true
  | .text _, .select => true
  | _, _ => false

end PropertyValue

/-- One choice of a select property. -/
structure SelectOption where
  label : String
  value : String
  deriving BEq, DecidableEq, Repr

/-- A port that takes a value in. -/
structure InputPort where
  id : String
  name : String
  dataKind : DataKind
  required : Bool
  deriving BEq, DecidableEq, Repr

/-- A port that gives a value out. -/
structure OutputPort where
  id : String
  name : String
  dataKind : DataKind
  deriving BEq, DecidableEq, Repr

/-- A configured property of a block, with the bounds and choices it was made with. -/
structure Property where
  name : String
  label : String
  kind : PropertyKind
  value : Option PropertyValue
  required : Bool
  min : Option Float
  max : Option Float
  options : List SelectOption
  deriving BEq, Repr

/-- A block on the canvas. The type is kept as the tag that stands in the document, known or not. -/
structure Block where
  id : String
  type : String
  category : Category
  name : String
  description : String
  position : Position
  size : Size
  inputs : List InputPort
  outputs : List OutputPort
  properties : List Property
  deriving BEq, Repr

/-- The id of an input port, from the id of its block and the slug of its name. -/
def inputPortId (blockId portName : String) : String :=
  blockId ++ ":in:" ++ Text.slug portName

/-- The id of an output port, from the id of its block and the slug of its name. -/
def outputPortId (blockId portName : String) : String :=
  blockId ++ ":out:" ++ Text.slug portName

namespace Block

/-- The first input port with that id. -/
def input? (b : Block) (portId : String) : Option InputPort := b.inputs.find? (·.id = portId)

/-- The first output port with that id. -/
def output? (b : Block) (portId : String) : Option OutputPort := b.outputs.find? (·.id = portId)

/-- The first input port with that name, in any case. -/
def inputNamed? (b : Block) (name : String) : Option InputPort :=
  b.inputs.find? fun p => Text.sameIgnoringCase p.name name

/-- The first output port with that name, in any case. -/
def outputNamed? (b : Block) (name : String) : Option OutputPort :=
  b.outputs.find? fun p => Text.sameIgnoringCase p.name name

/-- The first property with that name. -/
def property? (b : Block) (name : String) : Option Property := b.properties.find? (·.name = name)

/-- Blocks without inputs are where data enters. -/
def isEntryPoint (b : Block) : Bool := b.inputs.isEmpty

/-- The ids of all ports, inputs first. -/
def portIds (b : Block) : List String := b.inputs.map (·.id) ++ b.outputs.map (·.id)

end Block

/-- A connection from an output port to an input port, with the kind that the output had when it was
drawn. -/
structure Connection where
  id : String
  sourceBlockId : String
  sourceOutputId : String
  targetBlockId : String
  targetInputId : String
  dataKind : DataKind
  deriving BEq, DecidableEq, Repr

namespace Connection

/-- Whether the connection starts or ends at the block. -/
def touches (c : Connection) (blockId : String) : Bool :=
  c.sourceBlockId = blockId || c.targetBlockId = blockId

/-- Whether two connections join the same two ports. -/
def sameEndpoints (c d : Connection) : Bool :=
  c.sourceOutputId = d.sourceOutputId && c.targetInputId = d.targetInputId

end Connection

end StrategyCanvas
