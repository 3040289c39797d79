import StrategyCanvas.Catalog.BlockType
import StrategyCanvas.Document.Block

/-!
# Block templates

A template describes the ports, the properties and the extent of a type of block. Placing it on the
canvas gives a block whose port ids are derived from the id of the block.
-/

namespace StrategyCanvas

/-- An input port of a template. -/
structure InputSpec where
  name : String
  dataKind : DataKind
  required : Bool
  deriving BEq, DecidableEq, Repr

/-- An output port of a template. -/
structure OutputSpec where
  name : String
  dataKind : DataKind
  deriving BEq, DecidableEq, Repr

/-- A property of a template. -/
structure PropertySpec where
  name : String
  label : String
  kind : PropertyKind
  default : Option PropertyValue
  required : Bool
  min : Option Float
  max : Option Float
  options : List SelectOption
  deriving BEq, Repr

namespace PropertySpec

/-- A property with a default value, neither required nor bounded. -/
def plain (name label : String) (kind : PropertyKind) (default : PropertyValue) : PropertySpec :=
  ⟨name, label, kind, some default, false, none, none, []⟩

/-- A number. -/
def number (name label : String) (default : Float) : PropertySpec :=
  plain name label .number (.number default)

/-- A text. -/
def text (name label default : String) : PropertySpec := plain name label .string (.text default)

/-- A truth value. -/
def boolean (name label : String) (default : Bool) : PropertySpec :=
  plain name label .boolean (.boolean default)

/-- A choice among values, each given with its label. -/
def select (name label default : String) (choices : List (String × String)) : PropertySpec :=
  { plain name label .select (.text default) with
    options := choices.map fun (value, label) => ⟨label, value⟩ }

/-- The same property with a lower bound. -/
def atLeast (p : PropertySpec) (min : Float) : PropertySpec := { p with min := some min }

/-- The same property within bounds. -/
def within (p : PropertySpec) (min max : Float) : PropertySpec :=
  { p with min := some min, max := some max }

/-- The same property, required. -/
def asRequired (p : PropertySpec) : PropertySpec := { p with required := true }

/-- The property that a new block starts with. -/
def place (p : PropertySpec) : Property :=
  ⟨p.name, p.label, p.kind, p.default, p.required, p.min, p.max, p.options⟩

end PropertySpec

/-- What all blocks of a type have in common. -/
structure Template where
  type : BlockType
  category : Category
  name : String
  description : String
  inputs : List InputSpec
  outputs : List OutputSpec
  properties : List PropertySpec
  defaultSize : Size
  deriving BEq, Repr

/-- The input port of a new block. -/
def InputSpec.place (p : InputSpec) (blockId : String) : InputPort :=
  ⟨inputPortId blockId p.name, p.name, p.dataKind, p.required⟩

/-- The output port of a new block. -/
def OutputSpec.place (p : OutputSpec) (blockId : String) : OutputPort :=
  ⟨outputPortId blockId p.name, p.name, p.dataKind⟩

/-- A new block of the template's type. -/
def Template.place (t : Template) (blockId : String) (position : Position) : Block where
  id := blockId
  type := t.type.tag
  category := t.category
  name := t.name
  description := t.description
  position := position
  size := t.defaultSize
  inputs := t.inputs.map (·.place blockId)
  outputs := t.outputs.map (·.place blockId)
  properties := t.properties.map (·.place)

end StrategyCanvas
