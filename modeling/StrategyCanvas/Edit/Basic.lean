import StrategyCanvas.Catalog.Basic
import StrategyCanvas.Finding.Report

/-!
# Editing a strategy

An edit is one step of an editor. Applying it gives the next state of the strategy, or the reason
why it is refused; a refused edit leaves no trace.
-/

namespace StrategyCanvas

/-- One step of editing. -/
inductive Edit
  | addBlock (blockId : String) (type : BlockType) (position : Position)
  | moveBlock (blockId : String) (position : Position)
  | resizeBlock (blockId : String) (size : Size)
  | deleteBlock (blockId : String)
  | addConnection (connectionId sourceBlockId sourceOutputId targetBlockId targetInputId : String)
  | deleteConnection (connectionId : String)
  | updateProperty (blockId property : String) (value : PropertyValue)
  | renameStrategy (name : String)
  | setTags (tags : List String)
  deriving Repr

/-- Why an edit is refused. -/
inductive EditError
  | blockNotFound (blockId : String)
  | connectionNotFound (connectionId : String)
  | duplicateBlockId (blockId : String)
  | duplicateConnectionId (connectionId : String)
  | missingTemplate (type : BlockType)
  | unknownProperty (blockId property : String)
  | propertyKindMismatch (blockId property : String) (expected : PropertyKind)
  | invalidSize (width height : Float)
  | connectionRejected (findings : List Finding)
  | wouldCreateCycle (sourceBlockId targetBlockId : String)
  deriving Repr

namespace EditError

/-- A property kind as it is named in a refusal. -/
def kindName : PropertyKind → String
  | .number => "Number"
  | .string => "String"
  | .boolean => "Boolean"
  | .select => "Select"

/-- The wording of a refusal. -/
def message : EditError → String
  | .blockNotFound id => "block '" ++ id ++ "' not found"
  | .connectionNotFound id => "connection '" ++ id ++ "' not found"
  | .duplicateBlockId id => "block id '" ++ id ++ "' already exists"
  | .duplicateConnectionId id => "connection id '" ++ id ++ "' already exists"
  | .missingTemplate type => "no template registered for block type '" ++ type.tag ++ "'"
  | .unknownProperty id property => "block '" ++ id ++ "' has no property '" ++ property ++ "'"
  | .propertyKindMismatch id property expected =>
    "property '" ++ property ++ "' of block '" ++ id ++ "' expects a " ++ kindName expected
      ++ " value"
  | .invalidSize width height =>
    "block size must be positive, got " ++ Decimal.Layout.message.text width ++ "x"
      ++ Decimal.Layout.message.text height
  | .connectionRejected findings =>
    "connection rejected: " ++ "; ".intercalate (findings.map (·.message))
  | .wouldCreateCycle source target =>
    "connecting '" ++ source ++ "' to '" ++ target ++ "' would create a cycle"

end EditError

/-- Whether a side of a block can be drawn. -/
def Size.isDrawableSide (side : Float) : Bool := 0 < side && side.isFinite

/-- Whether both sides can be drawn. -/
def Size.isDrawable (s : Size) : Bool := isDrawableSide s.width && isDrawableSide s.height

namespace Block

/-- Gives the first property with that name a value of its kind. -/
def setProperty (b : Block) (property : String) (value : PropertyValue) :
    Except EditError Block :=
  match b.property? property with
  | none => .error (.unknownProperty b.id property)
  | some p =>
    if value.fits p.kind then
      let set (q : Property) : Property := { q with value := some value }
      .ok { b with properties := mapFirst (·.name = property) set b.properties }
    else .error (.propertyKindMismatch b.id property p.kind)

end Block

namespace Definition

/-- Whether a new edge between two blocks would close a cycle. -/
def wouldCloseCycle (d : Definition) (source target : String) : Bool :=
  StrategyCanvas.wouldCloseCycle d.blockIds d.flow source target

/-- The connection that joins two ports, of the kind of the output; of any kind if there is no such
output. -/
def draw (d : Definition) (connectionId sourceBlockId sourceOutputId targetBlockId targetInputId :
    String) : Connection where
  id := connectionId
  sourceBlockId := sourceBlockId
  sourceOutputId := sourceOutputId
  targetBlockId := targetBlockId
  targetInputId := targetInputId
  dataKind :=
    (((d.block? sourceBlockId).bind (·.output? sourceOutputId)).map (·.dataKind)).getD .any

/-- Adds a connection that breaks no rule and closes no cycle. -/
def connect (d : Definition) (c : Connection) : Except EditError Definition :=
  let errors := (c.findings d.blocks d.connections).filter (·.isError)
  if !errors.isEmpty then .error (.connectionRejected errors)
  else if d.wouldCloseCycle c.sourceBlockId c.targetBlockId then
    .error (.wouldCreateCycle c.sourceBlockId c.targetBlockId)
  else .ok { d with connections := d.connections ++ [c] }

/-- Removes all blocks with that id and all connections that touch it. -/
def removeBlock (d : Definition) (blockId : String) : Definition :=
  { d with
    blocks := d.blocks.filter (·.id ≠ blockId)
    connections := d.connections.filter (!·.touches blockId) }

/-- Applies an edit. -/
def apply (d : Definition) (catalog : Catalog) : Edit → Except EditError Definition
  | .addBlock blockId type position =>
    if (d.block? blockId).isSome then .error (.duplicateBlockId blockId)
    else match catalog.place type blockId position with
      | some b => .ok { d with blocks := d.blocks ++ [b] }
      | none => .error (.missingTemplate type)
  | .moveBlock blockId position =>
    if (d.block? blockId).isSome then
      .ok (d.mapBlock blockId fun b => { b with position := position })
    else .error (.blockNotFound blockId)
  | .resizeBlock blockId size =>
    if !size.isDrawable then .error (.invalidSize size.width size.height)
    else if (d.block? blockId).isSome then
      .ok (d.mapBlock blockId fun b => { b with size := size })
    else .error (.blockNotFound blockId)
  | .deleteBlock blockId =>
    if (d.block? blockId).isSome then .ok (d.removeBlock blockId)
    else .error (.blockNotFound blockId)
  | .addConnection connectionId sourceBlockId sourceOutputId targetBlockId targetInputId =>
    if (d.connection? connectionId).isSome then .error (.duplicateConnectionId connectionId)
    else d.connect (d.draw connectionId sourceBlockId sourceOutputId targetBlockId targetInputId)
  | .deleteConnection connectionId =>
    if (d.connection? connectionId).isSome then
      .ok { d with connections := d.connections.filter (·.id ≠ connectionId) }
    else .error (.connectionNotFound connectionId)
  | .updateProperty blockId property value =>
    match d.block? blockId with
    | none => .error (.blockNotFound blockId)
    | some b => do
      let b ← b.setProperty property value
      .ok (d.mapBlock blockId fun _ => b)
  | .renameStrategy name => .ok { d with name := name }
  | .setTags tags => .ok { d with metadata := { d.metadata with tags := tags } }

/-- The state to be stored: the next version, changed at the given time. -/
def save (d : Definition) (now : Time.Instant) : Definition :=
  { d with version := d.version + 1, metadata := { d.metadata with updatedAt := now } }

end Definition

end StrategyCanvas
