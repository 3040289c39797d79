import StrategyCanvas.Finding.Connection
import StrategyCanvas.Flow.Cycle

/-!
# Rules for a whole strategy

Validation never fails: it returns everything that is wrong, in the order of the document. Blocks
and connections are each looked at in the light of those before them.
-/

namespace StrategyCanvas

/-- Collects what there is to say about each element, given the elements before it. -/
def collectInOrder {α β : Type} (say : List α → α → List β) (before : List α) : List α → List β
  | [] => []
  | a :: as => say before a ++ collectInOrder say (before ++ [a]) as

/-- The elements that have occurred before, among those already seen or earlier in the list. -/
def repeatsOf (seen : List String) : List String → List String
  | [] => []
  | s :: rest => if s ∈ seen then s :: repeatsOf seen rest else repeatsOf (s :: seen) rest

namespace Property

/-- The value, unless there is none or it is blank. -/
def given? (p : Property) : Option PropertyValue :=
  match p.value with
  | some v => if v.isEmpty then none else some v
  | none => none

/-- Whether a number is finite and within the bounds of the property. -/
def admits (p : Property) (x : Float) : Bool :=
  !(p.min.any (x < ·)) && !(p.max.any (· < x)) && x.isFinite

/-- What is wrong with the value of a property. -/
def defect? (p : Property) (b : Block) : Option Defect :=
  match p.given? with
  | none => if p.required then some (.missingProperty b.id b.name p.label) else none
  | some v =>
    if !v.fits p.kind then some (.invalidPropertyType b.id b.name p.label p.kind)
    else match v with
      | .number x =>
        if p.admits x then none else some (.propertyOutOfRange b.id b.name p.label x p.min p.max)
      | .text s =>
        if p.kind = .select && !p.options.isEmpty && !p.options.any (·.value = s) then
          some (.invalidOption b.id b.name p.label s (p.options.map (·.value)))
        else none
      | .boolean _ => none

end Property

/-- What is wrong with a block, given the blocks before it: ids used before, then its
properties. -/
def Block.defects (before : List Block) (b : Block) : List Defect :=
  (if before.any (·.id = b.id) then [.duplicateBlockId b.id] else [])
  ++ (repeatsOf (before.flatMap (·.portIds)) b.portIds).map (.duplicatePortId b.id)
  ++ b.properties.filterMap (·.defect? b)

namespace Definition

/-- Whether a connection ends at that input of that block. -/
def isFed (d : Definition) (blockId inputId : String) : Bool :=
  d.connections.any fun c => c.targetBlockId = blockId && c.targetInputId = inputId

/-- The required inputs of a block that nothing feeds. -/
def unfedInputs (d : Definition) (b : Block) : List Defect :=
  (b.inputs.filter fun p => p.required && !d.isFed b.id p.id).map fun p =>
    .missingConnection b.id b.name p.name

/-- What is wrong with the flow of data through a strategy. -/
def flowDefects (d : Definition) : List Defect :=
  (if d.blocks.any (·.isEntryPoint) then [] else [.noInputBlocks])
  ++ (if d.blocks.any (·.category.hasEffect) then [] else [.noOutputBlocks])
  ++ d.blocks.flatMap d.unfedInputs

/-- Whether a block between others is connected to none of them. -/
def isOrphaned (d : Definition) (b : Block) : Bool :=
  !b.inputs.isEmpty && !b.outputs.isEmpty && !d.connections.any (·.touches b.id)

/-- Whether the data flow runs in a circle. -/
def hasCycle (d : Definition) : Bool := d.flow.hasCycle

/-- What is wrong with a strategy that has blocks. -/
def canvasDefects (d : Definition) : List Defect :=
  collectInOrder Block.defects [] d.blocks
  ++ (ConnectionIndex.ofBlocks d.blocks).checkAll d.connections
  ++ d.flowDefects
  ++ (d.blocks.filter d.isOrphaned).map (fun b => .orphanedBlock b.id b.name)
  ++ if d.hasCycle then [.circularDependency] else []

/-- What is wrong with a strategy. -/
def defects (d : Definition) : List Defect :=
  (if Text.isBlankText d.name then [.missingName] else [])
  ++ if d.blocks.isEmpty then [.emptyStrategy] else d.canvasDefects

/-- The findings about a strategy. -/
def findings (d : Definition) : List Finding := d.defects.map (·.finding)

end Definition

/-- The findings of one validation. -/
structure Report where
  issues : List Finding
  deriving DecidableEq, Repr

/-- Validates a strategy. -/
def Definition.report (d : Definition) : Report := ⟨d.findings⟩

namespace Report

/-- The findings that are errors. -/
def errors (r : Report) : List Finding := r.issues.filter (·.isError)

/-- The findings that are warnings. -/
def warnings (r : Report) : List Finding := r.issues.filter (!·.isError)

/-- Whether there is an error. -/
def hasErrors (r : Report) : Bool := r.issues.any (·.isError)

/-- Whether the strategy may be compiled. -/
def isDeployable (r : Report) : Bool := !r.hasErrors

/-- Whether a finding has the code. -/
def hasCode (r : Report) (code : FindingCode) : Bool := r.issues.any (·.code = code)

/-- Whether a circular dependency has been found. -/
def hasCycle (r : Report) : Bool := r.hasCode .circularDependency

end Report

end StrategyCanvas
