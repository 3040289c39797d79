import StrategyCanvas.Catalog.Template
import StrategyCanvas.Document.Codec

/-!
# The format of templates

How templates are written as JSON and read back. All members of a template are written, absent ones
as `null`.
-/

namespace StrategyCanvas

open Json

/-- The tag of a block type, as a value. -/
def BlockType.encode (t : BlockType) : Json := .text t.tag

/-- Reads a block type. -/
def BlockType.decode : Decoder BlockType := .named BlockType.tags

/-- Writes an input port of a template. -/
def InputSpec.encode (p : InputSpec) : Json :=
  .object [("name", .text p.name), ("data_kind", p.dataKind.encode), ("required", .bool p.required)]

/-- The fields of an input port of a template. -/
def InputSpec.record : Record InputSpec where
  name := "struct InputSpec"
  blank := ⟨"", .any, false⟩
  fields := [
    .of "name" .required .text fun s p => { p with name := s },
    .of "data_kind" .required DataKind.decode fun k p => { p with dataKind := k },
    .of "required" .required .bool fun b p => { p with required := b }]

/-- Writes an output port of a template. -/
def OutputSpec.encode (p : OutputSpec) : Json :=
  .object [("name", .text p.name), ("data_kind", p.dataKind.encode)]

/-- The fields of an output port of a template. -/
def OutputSpec.record : Record OutputSpec where
  name := "struct OutputSpec"
  blank := ⟨"", .any⟩
  fields := [
    .of "name" .required .text fun s p => { p with name := s },
    .of "data_kind" .required DataKind.decode fun k p => { p with dataKind := k }]

/-- Writes a property of a template. -/
def PropertySpec.encode (p : PropertySpec) : Json :=
  .object [("name", .text p.name), ("label", .text p.label), ("kind", p.kind.encode),
    ("default", option PropertyValue.encode p.default), ("required", .bool p.required),
    ("min", option .float p.min), ("max", option .float p.max),
    ("options", .list (p.options.map SelectOption.encode))]

/-- The fields of a property of a template. -/
def PropertySpec.record : Record PropertySpec where
  name := "struct PropertySpec"
  blank := ⟨"", "", .number, none, false, none, none, []⟩
  fields := [
    .of "name" .required .text fun s p => { p with name := s },
    .of "label" .required .text fun s p => { p with label := s },
    .of "kind" .required PropertyKind.decode fun k p => { p with kind := k },
    .of "default" .optionalByName (.option PropertyValue.decode)
      fun v p => { p with default := v },
    .of "required" .required .bool fun b p => { p with required := b },
    .of "min" .optionalByName (.option .number) fun x p => { p with min := x },
    .of "max" .optionalByName (.option .number) fun x p => { p with max := x },
    .of "options" .required (.list SelectOption.record.decode) fun os p => { p with options := os }]

/-- Writes a template. -/
def Template.encode (t : Template) : Json :=
  .object [("block_type", t.type.encode), ("category", t.category.encode), ("name", .text t.name),
    ("description", .text t.description), ("inputs", .list (t.inputs.map InputSpec.encode)),
    ("outputs", .list (t.outputs.map OutputSpec.encode)),
    ("properties", .list (t.properties.map PropertySpec.encode)),
    ("default_size", t.defaultSize.encode)]

/-- The fields of a template. -/
def Template.record : Record Template where
  name := "struct BlockTemplate"
  blank := ⟨.log, .data, "", "", [], [], [], .usual⟩
  fields := [
    .of "block_type" .required BlockType.decode fun t r => { r with type := t },
    .of "category" .required Category.decode fun c r => { r with category := c },
    .of "name" .required .text fun s r => { r with name := s },
    .of "description" .required .text fun s r => { r with description := s },
    .of "inputs" .required (.list InputSpec.record.decode) fun ps r => { r with inputs := ps },
    .of "outputs" .required (.list OutputSpec.record.decode) fun ps r => { r with outputs := ps },
    .of "properties" .required (.list PropertySpec.record.decode)
      fun ps r => { r with properties := ps },
    .of "default_size" .required Size.record.decode fun s r => { r with defaultSize := s }]

end StrategyCanvas
