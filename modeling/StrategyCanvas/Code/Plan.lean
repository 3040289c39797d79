import StrategyCanvas.Catalog.Basic
import StrategyCanvas.Code.CompileError
import StrategyCanvas.Code.Field
import StrategyCanvas.Code.FreshName
import StrategyCanvas.Document.Definition

/-!
# Plans

Before any code is emitted, every block gets its names: a handle, a key and a field for each
property, and a field for each output. Names are claimed in the order of the definition, so that
reordering connections renames nothing. Properties that a stored block lacks are filled in from the
template of its type.
-/

namespace StrategyCanvas.Code

/-- The names and fields of one block. -/
structure BlockPlan where
  block : Block
  type : BlockType
  handle : String
  params : List Param
  outputs : List OutputField
  deriving Repr

/-- The names claimed so far. Handles, fields and keys are told apart. -/
structure Claimed where
  handles : List String
  fields : List String
  keys : List String
  deriving DecidableEq, Repr

/-- A property as far as a parameter is made from it. -/
structure Setting where
  name : String
  kind : ParamKind
  value : Option PropertyValue
  deriving Repr

/-- The properties of a block, and those of the template that the block does not have. -/
def settings (template : Option Template) (b : Block) : List Setting :=
  b.properties.map (fun p => ⟨p.name, .ofProperty p.kind, p.value⟩)
  ++ match template with
    | none => []
    | some t =>
      (t.properties.filter fun p => (b.property? p.name).isNone).map fun p =>
        ⟨p.name, .ofProperty p.kind, p.default⟩

/-- The key that a parameter asks for. -/
def keyBase (b : Block) (s : Setting) : String := b.name ++ "_" ++ s.name

/-- The field that a parameter asks for. -/
def paramFieldBase (handle : String) (s : Setting) : String :=
  "p_" ++ handle ++ "_" ++ Text.slug s.name

/-- The field that an output asks for. -/
def outputFieldBase (handle : String) (p : OutputPort) : String :=
  "o_" ++ handle ++ "_" ++ Text.slug p.name

/-- The parameters of a block, given their keys and fields. -/
def paramsOf (settings : List Setting) (keys fields : List String) : List Param :=
  (settings.zip (keys.zip fields)).map fun (s, key, field) => ⟨key, s.name, field, s.kind, s.value⟩

/-- The output fields of a block, given their names. -/
def outputsOf (ports : List OutputPort) (fields : List String) : List OutputField :=
  (ports.zip fields).map fun (p, field) => ⟨p.id, p.name, field, p.dataKind⟩

/-- The plan of a block, and the names claimed after it. -/
def planBlock (catalog : Catalog) (claimed : Claimed) (b : Block) :
    Except CompileError (BlockPlan × Claimed) :=
  match BlockType.ofTag? b.type with
  | none => .error (.unsupportedBlockType b.id b.type)
  | some type =>
    let handle := freshName claimed.handles (Text.handle b.name)
    let settings := settings (catalog.template? type) b
    let keys := freshNames claimed.keys (settings.map (keyBase b))
    let fields := freshNames claimed.fields
      (settings.map (paramFieldBase handle) ++ b.outputs.map (outputFieldBase handle))
    match b.outputs.find? fun p => (fieldType? p.dataKind).isNone with
    | some p => .error (.unsupportedPortKind b.id p.id p.dataKind)
    | none => .ok (
        { block := b
          type := type
          handle := handle
          params := paramsOf settings keys (fields.take settings.length)
          outputs := outputsOf b.outputs (fields.drop settings.length) },
        { handles := handle :: claimed.handles
          fields := fields.reverse ++ claimed.fields
          keys := keys.reverse ++ claimed.keys })

/-- The plans of blocks, in order. -/
def planBlocks (catalog : Catalog) (claimed : Claimed) :
    List Block → Except CompileError (List BlockPlan)
  | [] => .ok []
  | b :: rest => do
    let (plan, claimed) ← planBlock catalog claimed b
    let plans ← planBlocks catalog claimed rest
    .ok (plan :: plans)

/-- The plans of a definition. -/
def plan (catalog : Catalog) (d : Definition) : Except CompileError (List BlockPlan) :=
  planBlocks catalog ⟨[], [], []⟩ d.blocks

end StrategyCanvas.Code
