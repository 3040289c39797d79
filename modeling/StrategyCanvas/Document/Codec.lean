import StrategyCanvas.Document.Definition
import StrategyCanvas.Json.Record
import StrategyCanvas.Json.Writer

/-!
# The document format

How each part of a strategy is written as JSON, and the record that reads it back. Members are
written in the order of their declaration; bounds and choices that a property lacks are left out.
-/

namespace StrategyCanvas

open Json

/-! ## Kinds and values -/

/-- The name of a data kind, as a value. -/
def DataKind.encode (k : DataKind) : Json := .text k.name

/-- Reads a data kind. -/
def DataKind.decode : Decoder DataKind := .named DataKind.names

/-- The name of a category, as a value. -/
def Category.encode (c : Category) : Json := .text c.name

/-- Reads a category. -/
def Category.decode : Decoder Category := .named Category.names

/-- The name of a property kind, as a value. -/
def PropertyKind.encode (k : PropertyKind) : Json := .text k.name

/-- Reads a property kind. -/
def PropertyKind.decode : Decoder PropertyKind := .named PropertyKind.names

/-- A property value stands for itself. -/
def PropertyValue.encode : PropertyValue → Json
  | .boolean b => .bool b
  | .number x => .float x
  | .text s => .text s

/-- The truth value, number or text that an outline is, if it is one of them; `type` names what was
asked for. -/
def PropertyValue.choose (type : String) : Outline → Except Problem PropertyValue
  | .bool b => .ok (.boolean b)
  | .int n => .ok (.number (Decimal.ofRatio (n < 0) n.natAbs 1))
  | .float x => .ok (.number x)
  | .text s => .ok (.text s)
  | _ => .error (.mismatch (.noVariant type))

/-- Reads a property value. -/
def PropertyValue.decode : Decoder PropertyValue := .whole (PropertyValue.choose "PropertyValue")

/-- An instant as its text. -/
def Time.Instant.encode (t : Time.Instant) : Json := .text t.text

/-! ## Places and extents -/

/-- Writes a position. -/
def Position.encode (p : Position) : Json := .object [("x", .float p.x), ("y", .float p.y)]

/-- The fields of a position. -/
def Position.record : Record Position where
  name := "struct Position"
  blank := .origin
  fields := [
    .of "x" .required .number fun x p => { p with x := x },
    .of "y" .required .number fun y p => { p with y := y }]

/-- Writes a size. -/
def Size.encode (s : Size) : Json :=
  .object [("width", .float s.width), ("height", .float s.height)]

/-- The fields of a size. -/
def Size.record : Record Size where
  name := "struct Size"
  blank := .usual
  fields := [
    .of "width" .required .number fun x s => { s with width := x },
    .of "height" .required .number fun x s => { s with height := x }]

/-! ## Ports and properties -/

/-- Writes a choice. -/
def SelectOption.encode (o : SelectOption) : Json :=
  .object [("label", .text o.label), ("value", .text o.value)]

/-- The fields of a choice. -/
def SelectOption.record : Record SelectOption where
  name := "struct SelectOption"
  blank := ⟨"", ""⟩
  fields := [
    .of "label" .required .text fun s o => { o with label := s },
    .of "value" .required .text fun s o => { o with value := s }]

/-- Writes an input port. -/
def InputPort.encode (p : InputPort) : Json :=
  .object [("id", .text p.id), ("name", .text p.name), ("dataKind", p.dataKind.encode),
    ("required", .bool p.required)]

/-- The fields of an input port. -/
def InputPort.record : Record InputPort where
  name := "struct InputPort"
  blank := ⟨"", "", .any, false⟩
  fields := [
    .of "id" .required .text fun s p => { p with id := s },
    .of "name" .required .text fun s p => { p with name := s },
    .of "dataKind" .required DataKind.decode fun k p => { p with dataKind := k },
    .of "required" .required .bool fun b p => { p with required := b }]

/-- Writes an output port. -/
def OutputPort.encode (p : OutputPort) : Json :=
  .object [("id", .text p.id), ("name", .text p.name), ("dataKind", p.dataKind.encode)]

/-- The fields of an output port. -/
def OutputPort.record : Record OutputPort where
  name := "struct OutputPort"
  blank := ⟨"", "", .any⟩
  fields := [
    .of "id" .required .text fun s p => { p with id := s },
    .of "name" .required .text fun s p => { p with name := s },
    .of "dataKind" .required DataKind.decode fun k p => { p with dataKind := k }]

/-- Writes a property. -/
def Property.encode (p : Property) : Json :=
  .object <|
    [("name", .text p.name), ("label", .text p.label), ("kind", p.kind.encode),
      ("value", option PropertyValue.encode p.value), ("required", .bool p.required)]
    ++ optionalMember "min" .float p.min ++ optionalMember "max" .float p.max
    ++ if p.options.isEmpty then [] else [("options", .list (p.options.map SelectOption.encode))]

/-- The fields of a property. -/
def Property.record : Record Property where
  name := "struct BlockProperty"
  blank := ⟨"", "", .number, none, false, none, none, []⟩
  fields := [
    .of "name" .required .text fun s p => { p with name := s },
    .of "label" .required .text fun s p => { p with label := s },
    .of "kind" .required PropertyKind.decode fun k p => { p with kind := k },
    .of "value" .optional (.option PropertyValue.decode) fun v p => { p with value := v },
    .of "required" .optional .bool fun b p => { p with required := b },
    .of "min" .optional (.option .number) fun x p => { p with min := x },
    .of "max" .optional (.option .number) fun x p => { p with max := x },
    .of "options" .optional (.list SelectOption.record.decode) fun os p => { p with options := os }]

/-! ## Blocks and connections -/

/-- Writes a block. -/
def Block.encode (b : Block) : Json :=
  .object [("id", .text b.id), ("type", .text b.type), ("category", b.category.encode),
    ("name", .text b.name), ("description", .text b.description),
    ("position", b.position.encode), ("size", b.size.encode),
    ("inputs", .list (b.inputs.map InputPort.encode)),
    ("outputs", .list (b.outputs.map OutputPort.encode)),
    ("properties", .list (b.properties.map Property.encode))]

/-- The fields of a block. -/
def Block.record : Record Block where
  name := "struct StrategyBlock"
  blank := ⟨"", "", .data, "", "", .origin, .usual, [], [], []⟩
  fields := [
    .of "id" .required .text fun s b => { b with id := s },
    .of "type" .required .text fun s b => { b with type := s },
    .of "category" .required Category.decode fun c b => { b with category := c },
    .of "name" .required .text fun s b => { b with name := s },
    .of "description" .optional .text fun s b => { b with description := s },
    .of "position" .optional Position.record.decode fun p b => { b with position := p },
    .of "size" .optional Size.record.decode fun s b => { b with size := s },
    .of "inputs" .optional (.list InputPort.record.decode) fun ps b => { b with inputs := ps },
    .of "outputs" .optional (.list OutputPort.record.decode) fun ps b => { b with outputs := ps },
    .of "properties" .optional (.list Property.record.decode)
      fun ps b => { b with properties := ps }]

/-- Writes a connection. -/
def Connection.encode (c : Connection) : Json :=
  .object [("id", .text c.id), ("sourceBlockId", .text c.sourceBlockId),
    ("sourceOutputId", .text c.sourceOutputId), ("targetBlockId", .text c.targetBlockId),
    ("targetInputId", .text c.targetInputId), ("dataKind", c.dataKind.encode)]

/-- The fields of a connection. -/
def Connection.record : Record Connection where
  name := "struct BlockConnection"
  blank := ⟨"", "", "", "", "", .any⟩
  fields := [
    .of "id" .required .text fun s c => { c with id := s },
    .of "sourceBlockId" .required .text fun s c => { c with sourceBlockId := s },
    .of "sourceOutputId" .required .text fun s c => { c with sourceOutputId := s },
    .of "targetBlockId" .required .text fun s c => { c with targetBlockId := s },
    .of "targetInputId" .required .text fun s c => { c with targetInputId := s },
    .of "dataKind" .required DataKind.decode fun k c => { c with dataKind := k }]

/-! ## Definitions -/

/-- Writes metadata. -/
def Metadata.encode (m : Metadata) : Json :=
  .object [("createdAt", m.createdAt.encode), ("updatedAt", m.updatedAt.encode),
    ("createdBy", .text m.createdBy), ("tags", .list (m.tags.map .text))]

/-- The fields of metadata. -/
def Metadata.record : Record Metadata where
  name := "struct StrategyMetadata"
  blank := ⟨⟨0, 0⟩, ⟨0, 0⟩, "", []⟩
  fields := [
    .of "createdAt" .required .instant fun t m => { m with createdAt := t },
    .of "updatedAt" .required .instant fun t m => { m with updatedAt := t },
    .of "createdBy" .optional .text fun s m => { m with createdBy := s },
    .of "tags" .optional (.list .text) fun ts m => { m with tags := ts }]

/-- Writes a definition. -/
def Definition.encode (d : Definition) : Json :=
  .object [("id", .text d.id), ("name", .text d.name), ("description", .text d.description),
    ("version", .int d.version.toNat), ("blocks", .list (d.blocks.map Block.encode)),
    ("connections", .list (d.connections.map Connection.encode)),
    ("metadata", d.metadata.encode)]

/-- The fields of a definition. -/
def Definition.record : Record Definition where
  name := "struct StrategyDefinition"
  blank := .new "" "" "" ⟨0, 0⟩
  fields := [
    .of "id" .required .text fun s d => { d with id := s },
    .of "name" .required .text fun s d => { d with name := s },
    .of "description" .optional .text fun s d => { d with description := s },
    .of "version" .required .word32 fun n d => { d with version := n },
    .of "blocks" .optional (.list Block.record.decode) fun bs d => { d with blocks := bs },
    .of "connections" .optional (.list Connection.record.decode)
      fun cs d => { d with connections := cs },
    .of "metadata" .required Metadata.record.decode fun m d => { d with metadata := m }]

/-- The document text of a definition. -/
def Definition.write (d : Definition) : String := d.encode.pretty

/-- Reads a definition from its document text. -/
def Definition.read (text : String) : Except Problem Definition :=
  decodeText Definition.record.decode text

end StrategyCanvas
