import StrategyCanvas.Catalog.Codec
import StrategyCanvas.Edit.Basic

/-!
# The format of edits

An edit is an object that names its operation under `op`, or a list that begins with the name. The
name is looked at first; the rest is set aside until then and decoded as the record of that
operation.
-/

namespace StrategyCanvas

open Json

namespace Edit

/-- The operations, with their names. -/
inductive Operation
  | addBlock
  | moveBlock
  | resizeBlock
  | deleteBlock
  | addConnection
  | deleteConnection
  | updateProperty
  | renameStrategy
  | setTags
  deriving DecidableEq, Repr

/-- All operations, with their names. -/
def Operation.names : List (String × Operation) :=
  [("add_block", .addBlock), ("move_block", .moveBlock), ("resize_block", .resizeBlock),
   ("delete_block", .deleteBlock), ("add_connection", .addConnection),
   ("delete_connection", .deleteConnection), ("update_property", .updateProperty),
   ("rename_strategy", .renameStrategy), ("set_tags", .setTags)]

/-- What the operations are made of; each uses some of these parts. -/
structure Parts where
  blockId : String
  type : BlockType
  position : Position
  size : Size
  connectionId : String
  sourceBlockId : String
  sourceOutputId : String
  targetBlockId : String
  targetInputId : String
  property : String
  value : PropertyValue
  name : String
  tags : List String

/-- The parts before any is read. -/
def Parts.blank : Parts where
  blockId := ""
  type := .log
  position := .origin
  size := .usual
  connectionId := ""
  sourceBlockId := ""
  sourceOutputId := ""
  targetBlockId := ""
  targetInputId := ""
  property := ""
  value := .boolean false
  name := ""
  tags := []

/-- The id of the block that an operation is about. -/
def blockIdField : RecordField Parts :=
  .of "block_id" .required .text fun s p => { p with blockId := s }

/-- The id of the connection that an operation is about. -/
def connectionIdField : RecordField Parts :=
  .of "connection_id" .required .text fun s p => { p with connectionId := s }

/-- Where a block is put. -/
def positionField : RecordField Parts :=
  .of "position" .required Position.record.decode fun q p => { p with position := q }

/-- The name of the record of an operation, and its fields. -/
def Operation.shape : Operation → String × List (RecordField Parts)
  | .addBlock =>
    ("AddBlock", [
      blockIdField,
      .of "block_type" .required BlockType.decode fun t p => { p with type := t },
      positionField])
  | .moveBlock => ("MoveBlock", [blockIdField, positionField])
  | .resizeBlock =>
    ("ResizeBlock", [
      blockIdField,
      .of "size" .required Size.record.decode fun s p => { p with size := s }])
  | .deleteBlock => ("DeleteBlock", [blockIdField])
  | .addConnection =>
    ("AddConnection", [
      connectionIdField,
      .of "source_block_id" .required .text fun s p => { p with sourceBlockId := s },
      .of "source_output_id" .required .text fun s p => { p with sourceOutputId := s },
      .of "target_block_id" .required .text fun s p => { p with targetBlockId := s },
      .of "target_input_id" .required .text fun s p => { p with targetInputId := s }])
  | .deleteConnection => ("DeleteConnection", [connectionIdField])
  | .updateProperty =>
    ("UpdateProperty", [
      blockIdField,
      .of "property" .required .text fun s p => { p with property := s },
      .of "value" .required PropertyValue.decode fun v p => { p with value := v }])
  | .renameStrategy =>
    ("RenameStrategy", [.of "name" .required .text fun s p => { p with name := s }])
  | .setTags => ("SetTags", [.of "tags" .required (.list .text) fun ts p => { p with tags := ts }])

/-- The record of an operation. -/
def Operation.record (op : Operation) : Record Parts where
  name := "struct variant GraphOp::" ++ op.shape.1
  blank := .blank
  fields := op.shape.2

/-- The edit that an operation makes of its parts. -/
def Operation.edit (op : Operation) (p : Parts) : Edit :=
  match op with
  | .addBlock => Edit.addBlock p.blockId p.type p.position
  | .moveBlock => Edit.moveBlock p.blockId p.position
  | .resizeBlock => Edit.resizeBlock p.blockId p.size
  | .deleteBlock => Edit.deleteBlock p.blockId
  | .addConnection =>
    Edit.addConnection p.connectionId p.sourceBlockId p.sourceOutputId p.targetBlockId
      p.targetInputId
  | .deleteConnection => Edit.deleteConnection p.connectionId
  | .updateProperty => Edit.updateProperty p.blockId p.property p.value
  | .renameStrategy => Edit.renameStrategy p.name
  | .setTags => Edit.setTags p.tags

/-- The operation that an outline names. -/
def operation : Outline → Except Problem Operation
  | .text s => Decoder.variant Operation.names s
  | v => reject "variant identifier" v

/-- The members with the key `op` and the other ones. -/
def splitTag : List (Key × Outline) → List Outline × List (Key × Outline)
  | [] => ([], [])
  | (key, v) :: rest =>
    let (tags, others) := splitTag rest
    match key with
    | .text "op" => (v :: tags, others)
    | _ => (tags, (key, v) :: others)

/-- Decodes what was set aside as the record of an operation. -/
def decodeParts (op : Operation) (v : Outline) : Except Problem Edit :=
  (op.record.decode .deferred v).map op.edit

/-- Reads an edit out of an embedded value. -/
def decode : Decoder Edit
  | _, .object members _ =>
    match splitTag members with
    | ([], _) => .error (.mismatch (.missingField "op"))
    | (tag :: _, others) => do
      let op ← operation tag
      decodeParts op (.object others none)
  | _, .list [] _ => .error (.mismatch (.missingField "op"))
  | _, .list (tag :: items) _ => do
    let op ← operation tag
    decodeParts op (.list items none)
  | _, v => reject "internally tagged enum GraphOp" v

/-- Writes an edit. -/
def encode : Edit → Json
  | .addBlock blockId type position =>
    .object [("op", .text "add_block"), ("block_id", .text blockId), ("block_type", type.encode),
      ("position", position.encode)]
  | .moveBlock blockId position =>
    .object [("op", .text "move_block"), ("block_id", .text blockId),
      ("position", position.encode)]
  | .resizeBlock blockId size =>
    .object [("op", .text "resize_block"), ("block_id", .text blockId), ("size", size.encode)]
  | .deleteBlock blockId => .object [("op", .text "delete_block"), ("block_id", .text blockId)]
  | .addConnection connectionId sourceBlockId sourceOutputId targetBlockId targetInputId =>
    .object [("op", .text "add_connection"), ("connection_id", .text connectionId),
      ("source_block_id", .text sourceBlockId), ("source_output_id", .text sourceOutputId),
      ("target_block_id", .text targetBlockId), ("target_input_id", .text targetInputId)]
  | .deleteConnection connectionId =>
    .object [("op", .text "delete_connection"), ("connection_id", .text connectionId)]
  | .updateProperty blockId property value =>
    .object [("op", .text "update_property"), ("block_id", .text blockId),
      ("property", .text property), ("value", value.encode)]
  | .renameStrategy name => .object [("op", .text "rename_strategy"), ("name", .text name)]
  | .setTags tags => .object [("op", .text "set_tags"), ("tags", .list (tags.map .text))]

end Edit

end StrategyCanvas
