import StrategyCanvas.Catalog.Template

/-!
# Catalogs

A catalog holds at most one template for each block type, in the order in which the types were
first registered. Registering a type again puts the new template in the place of the old one.
-/

namespace StrategyCanvas

/-- The templates that blocks are made from. -/
structure Catalog where
  templates : List Template
  deriving BEq, Repr

namespace Catalog

/-- A catalog without templates. -/
def empty : Catalog := ⟨[]⟩

/-- Puts a template in the place of the one of its type, or at the end. -/
def insert (t : Template) : List Template → List Template
  | [] => [t]
  | u :: us => if u.type = t.type then t :: us else u :: insert t us

/-- Registers a template. -/
def register (c : Catalog) (t : Template) : Catalog := ⟨insert t c.templates⟩

/-- Registers templates one after the other. -/
def ofList (ts : List Template) : Catalog := ts.foldl register empty

/-- The template of a block type. -/
def template? (c : Catalog) (type : BlockType) : Option Template :=
  c.templates.find? (·.type = type)

/-- Whether there is a template of the type. -/
def hasTemplate (c : Catalog) (type : BlockType) : Bool := c.templates.any (·.type = type)

/-- The template of the type with that tag. -/
def templateForTag? (c : Catalog) (tag : String) : Option Template :=
  (BlockType.ofTag? tag).bind c.template?

/-- The templates of a category. -/
def byCategory (c : Catalog) (category : Category) : List Template :=
  c.templates.filter (·.category = category)

/-- A new block of a type, if there is a template for it. -/
def place (c : Catalog) (type : BlockType) (blockId : String) (position : Position) :
    Option Block :=
  (c.template? type).map (·.place blockId position)

end Catalog

end StrategyCanvas
