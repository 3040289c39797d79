import Std.Data.HashMap
import StrategyCanvas.Catalog.Standard

/-!
# Catalogs with an index

A catalog that finds a template without looking through all of them. The templates stand in a table,
in the order in which their types were first registered, and an index gives the place of each type
in the table. A type keeps its place when it is registered again.
-/

namespace StrategyCanvas

deriving instance Hashable for BlockType

/-- A table of templates with the places of their types. -/
structure IndexedCatalog where
  templates : Array Template
  places : Std.HashMap BlockType Nat

namespace IndexedCatalog

/-- A catalog without templates. -/
def empty : IndexedCatalog := ⟨#[], ∅⟩

/-- Registers a template: in the place of its type, or in a new one at the end. -/
def register (c : IndexedCatalog) (t : Template) : IndexedCatalog :=
  match c.places[t.type]? with
  | some place => { c with templates := c.templates.setIfInBounds place t }
  | none => ⟨c.templates.push t, c.places.insert t.type c.templates.size⟩

/-- Registers templates one after the other. -/
def ofList (ts : List Template) : IndexedCatalog := ts.foldl register empty

/-- The template of a block type. -/
def template? (c : IndexedCatalog) (type : BlockType) : Option Template :=
  c.places[type]?.bind fun place => c.templates[place]?

/-- Whether there is a template of the type. -/
def hasTemplate (c : IndexedCatalog) (type : BlockType) : Bool := c.places.contains type

/-- The template of the type with that tag. -/
def templateForTag? (c : IndexedCatalog) (tag : String) : Option Template :=
  (BlockType.ofTag? tag).bind c.template?

/-- The templates of a category. -/
def byCategory (c : IndexedCatalog) (category : Category) : List Template :=
  c.templates.toList.filter (·.category = category)

/-- A new block of a type, if there is a template for it. -/
def place (c : IndexedCatalog) (type : BlockType) (blockId : String) (position : Position) :
    Option Block :=
  (c.template? type).map (·.place blockId position)

/-- The catalog of the standard templates. -/
def standard : IndexedCatalog := .ofList Catalog.standardTemplates

end IndexedCatalog

end StrategyCanvas
