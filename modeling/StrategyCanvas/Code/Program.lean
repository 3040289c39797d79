import StrategyCanvas.Code.Emission
import StrategyCanvas.Code.SourceMap
import StrategyCanvas.Text.Blank
import StrategyCanvas.Text.Identifier

/-!
# Programs

The whole of the generated code as data: one structure with a field for every parameter, state and
output, and the functions on it. A program is a list of entries, each a stroke and, where the stroke
comes from a block, a mark that says so. Laid out, the entries give the text and the source map
together, so that the two cannot disagree about where a line is.
-/

namespace StrategyCanvas.Code

/-! ## What a block contributes -/

/-- A field of the generated structure. -/
structure FieldRow where
  name : String
  type : String
  initializer : String
  /-- The part to which the declaration of the field belongs. -/
  part : Part
  deriving DecidableEq, Repr

/-- A field that gets a value. -/
structure Assignment where
  field : String
  value : String
  deriving DecidableEq, Repr

/-- An assignment in code. -/
def Assignment.text (a : Assignment) : String := "self." ++ a.field ++ " = " ++ a.value ++ ";"

namespace Emission

/-- The id of the block. -/
def blockId (e : Emission) : String := e.plan.block.id

/-- The fields of a block: parameters, state, outputs. -/
def rows (e : Emission) : List FieldRow :=
  e.plan.params.map (fun p => ⟨p.field, p.kind.type, p.initializer, .parameter⟩)
  ++ e.state.toList.map (fun s => ⟨s.field, s.type, s.initializer, .state⟩)
  ++ e.plan.outputs.map (fun o => ⟨o.field, o.type, defaultValue o.kind, .state⟩)

/-- What a reset assigns: the state and the outputs, but no parameter. -/
def resets (e : Emission) : List Assignment :=
  e.state.toList.map (fun s => ⟨s.field, s.reset⟩)
  ++ e.plan.outputs.map (fun o => ⟨o.field, defaultValue o.kind⟩)

/-- How the state is made anew after a parameter has changed, if it is made from that parameter. -/
def rebuild? (e : Emission) (p : Param) : Option Assignment :=
  (e.state.filter (·.dependsOn.contains p.property)).map fun s => ⟨s.field, s.reset⟩

/-- The comment that names a block. Only its type is known to be free of control characters. -/
def comment (e : Emission) : String :=
  "// " ++ Text.oneLine e.plan.block.name ++ " [" ++ Text.oneLine e.blockId ++ "] ("
    ++ e.plan.block.type ++ ")"

end Emission

/-! ## Entries -/

/-- The block that an entry comes from, and the part of the code that the entry is in. -/
structure Mark where
  blockId : String
  part : Part
  /-- Whether the entry is a statement of the update. -/
  isStatement : Bool
  deriving DecidableEq, Repr

/-- A stroke, with a mark if it comes from a block. -/
structure Entry where
  stroke : Stroke String
  mark : Option Mark
  deriving DecidableEq, Repr

namespace Entry

/-- A stroke that comes from no block. -/
def plain (s : Stroke String) : Entry := ⟨s, none⟩

/-- A stroke that comes from a block. -/
def ofBlock (e : Emission) (part : Part) (s : Stroke String) : Entry :=
  ⟨s, some ⟨e.blockId, part, false⟩⟩

/-- A statement of the update of a block. -/
def ofStatement (e : Emission) (s : Statement) : Entry :=
  ⟨.lineAt s.depth s.text, some ⟨e.blockId, .update, true⟩⟩

end Entry

namespace Emission

/-- The declarations of the fields of a block, under its comment. -/
def declarations (e : Emission) : List Entry :=
  .ofBlock e .state (.line e.comment)
    :: e.rows.map fun r => .ofBlock e r.part (.line (r.name ++ ": " ++ r.type ++ ","))

/-- The initial values of the fields of a block. -/
def initializers (e : Emission) : List Entry :=
  e.rows.map fun r => .ofBlock e .init (.line (r.name ++ ": " ++ r.initializer ++ ","))

/-- The update of a block, under its comment. -/
def updates (e : Emission) : List Entry :=
  .plain .blank :: .ofBlock e .update (.line e.comment) :: e.update.map (.ofStatement e)

/-- The reset of a block. -/
def resetLines (e : Emission) : List Entry :=
  e.resets.map fun a => .ofBlock e .reset (.line a.text)

/-- The cases that give parameters out. -/
def getterArms (e : Emission) : List Entry :=
  e.plan.params.map fun p =>
    .ofBlock e .parameter (.line (Text.quote p.key ++ " => Some(" ++ p.getter ++ "),"))

/-- The case that takes a parameter in, and makes the state anew where it depends on it. -/
def setterArm (e : Emission) (p : Param) : List Entry :=
  match e.rebuild? p with
  | none => [.ofBlock e .parameter (.line (Text.quote p.key ++ " => " ++ p.setter ++ ","))]
  | some a => [
    .ofBlock e .parameter (.opening (Text.quote p.key ++ " => \x7b")),
    .ofBlock e .parameter (.line (p.setter ++ ";")),
    .ofBlock e .parameter (.line a.text),
    .plain (.closing "\x7d")]

/-- The cases that take parameters in. -/
def setterArms (e : Emission) : List Entry := e.plan.params.flatMap e.setterArm

/-- The keys of the parameters. -/
def keyLines (e : Emission) : List Entry :=
  e.plan.params.map fun p => .ofBlock e .parameter (.line (Text.quote p.key ++ ","))

end Emission

/-! ## Programs -/

/-- The names that the code carries, and its blocks in the order in which they run. -/
structure Program where
  structName : String
  supportPath : String
  strategyName : String
  strategyId : String
  version : UInt32
  blocks : List Emission
  deriving Repr

namespace Program

/-- The closing of a part in braces. -/
def closingBrace : Entry := .plain (.closing "\x7d")

/-- The lines above the structure. -/
def heading (p : Program) : List Entry :=
  [.line ("// Generated from strategy " ++ Text.quote p.strategyName ++ " ("
      ++ Text.oneLine p.strategyId ++ "), version " ++ toString p.version.toNat ++ "."),
    .line "// Regenerate from the strategy definition instead of editing.",
    .blank,
    .line ("use " ++ p.supportPath ++ "::prelude::*;"),
    .blank].map Entry.plain

/-- The structure. -/
def declaration (p : Program) : List Entry :=
  [.line ("/// Strategy " ++ Text.quote p.strategyName),
    .line "#[derive(Debug, Clone)]",
    .opening ("pub struct " ++ p.structName ++ " \x7b")].map Entry.plain
  ++ p.blocks.flatMap Emission.declarations
  ++ [closingBrace, .plain .blank]

/-- The start of the functions. -/
def functionsOpening (p : Program) : List Entry :=
  [.line "#[allow(unused_mut, unused_variables, unreachable_code, clippy::all)]",
    .opening ("impl " ++ p.structName ++ " \x7b")].map Entry.plain

/-- The function that makes a strategy. -/
def construction (p : Program) : List Entry :=
  [.opening "pub fn new() -> Self \x7b", .opening "Self \x7b"].map Entry.plain
  ++ p.blocks.flatMap Emission.initializers
  ++ [closingBrace, closingBrace, .plain .blank]

/-- The function that runs every block once. -/
def execution (p : Program) : List Entry :=
  [.line "/// Run every block once, in dependency order, for one market update",
    .opening "pub fn execute(&mut self, tick: &Tick) -> Vec<Signal> \x7b",
    .line "let mut signals = Vec::new();"].map Entry.plain
  ++ p.blocks.flatMap Emission.updates
  ++ [.plain .blank, .plain (.line "signals"), closingBrace, .plain .blank]

/-- The function that forgets what was seen. -/
def resetting (p : Program) : List Entry :=
  [.line "/// Clear indicator history and outputs; parameters are kept",
    .opening "pub fn reset(&mut self) \x7b"].map Entry.plain
  ++ p.blocks.flatMap Emission.resetLines
  ++ [closingBrace, .plain .blank]

/-- The function that gives a parameter out. -/
def getter (p : Program) : List Entry :=
  [.opening "pub fn get_parameter(&self, key: &str) -> Option<ParamValue> \x7b",
    .opening "match key \x7b"].map Entry.plain
  ++ p.blocks.flatMap Emission.getterArms
  ++ [.plain (.line "_ => None,"), closingBrace, closingBrace, .plain .blank]

/-- The function that takes a parameter in. -/
def setter (p : Program) : List Entry :=
  [.line "/// Parameters shaping indicator state rebuild that state",
    .opening ("pub fn set_parameter(&mut self, key: &str, value: ParamValue) "
      ++ "-> Result<(), ParamError> \x7b"),
    .opening "match key \x7b"].map Entry.plain
  ++ p.blocks.flatMap Emission.setterArms
  ++ [.plain (.line "_ => return Err(ParamError::Unknown(key.to_string())),"), closingBrace,
    .plain (.line "Ok(())"), closingBrace, .plain .blank]

/-- The function that lists the keys, and the end of the functions. -/
def keyList (p : Program) : List Entry :=
  [.opening "pub fn parameter_keys() -> &'static [&'static str] \x7b",
    .opening "&["].map Entry.plain
  ++ p.blocks.flatMap Emission.keyLines
  ++ [.plain (.closing "]"), closingBrace, closingBrace, .plain .blank]

/-- The default strategy. -/
def defaulting (p : Program) : List Entry :=
  [.opening ("impl Default for " ++ p.structName ++ " \x7b"),
    .opening "fn default() -> Self \x7b",
    .line "Self::new()",
    .closing "\x7d",
    .closing "\x7d"].map Entry.plain

/-- All entries. -/
def entries (p : Program) : List Entry :=
  p.heading ++ p.declaration ++ p.functionsOpening ++ p.construction ++ p.execution ++ p.resetting
    ++ p.getter ++ p.setter ++ p.keyList ++ p.defaulting

/-- The lines of the code, with `unit` spaces a level. -/
def lines (p : Program) (unit : Nat) : List LaidLine :=
  lay unit 0 0 (p.entries.map (·.stroke))

/-- The text of the code. -/
def text (p : Program) (unit : Nat) : String := sheetText (p.lines unit)

/-- The lines that come from blocks, with their marks. -/
def markedLines (p : Program) (unit : Nat) : List (Mark × LaidLine) :=
  (p.entries.zip (p.lines unit)).filterMap fun (entry, line) => entry.mark.map (·, line)

end Program

/-! ## The source map -/

/-- Where a marked line is. -/
def Mark.location (m : Mark) (l : LaidLine) : Location := ⟨l.number, l.column, m.part⟩

/-- The places of marked lines, by block. -/
def blockMarks (marked : List (Mark × LaidLine)) : List (String × Location) :=
  marked.map fun (m, l) => (m.blockId, m.location l)

/-- The lines with the statements of a block. -/
def statementLines (marked : List (Mark × LaidLine)) (blockId : String) : List LaidLine :=
  (marked.filter fun (m, _) => m.isStatement && m.blockId = blockId).map (·.2)

/-- Where the expression of a wire first stands whole in some lines. -/
def Wire.location? (w : Wire) (lines : List LaidLine) : Option Location :=
  lines.findSome? fun l =>
    (Text.wholeOffset? w.expr.toList l.text.toList).map fun offset =>
      ⟨l.number, l.column + offset, .update⟩

/-- The places where a block reads its wires, in the order in which its rule asks for them. -/
def readMarks (marked : List (Mark × LaidLine)) (e : Emission) : List (String × Location) :=
  let lines := statementLines marked e.blockId
  e.reads.filterMap fun w => (w.location? lines).map (w.connectionId, ·)

/-- What stands for a connection that no rule reads: the first line of the update of its target. -/
def anchor? (targetLocations : List Location) : Option Location :=
  ((targetLocations.find? (·.part = .update)).or targetLocations.head?).map fun l =>
    { l with column := 1 }

/-- The anchors of connections whose ids are not known yet. -/
def anchorMarks (locations : String → List Location) (known : List String) :
    List Connection → List (String × Location)
  | [] => []
  | c :: rest =>
    if c.id ∈ known then anchorMarks locations known rest
    else
      match anchor? (locations c.targetBlockId) with
      | some l => (c.id, l) :: anchorMarks locations (c.id :: known) rest
      | none => anchorMarks locations known rest

/-- The source map of a program, given the connections of its strategy. -/
def Program.sourceMap (p : Program) (unit : Nat) (connections : List Connection) : SourceMap :=
  let marked := p.markedLines unit
  let blocks := SourceMap.group (blockMarks marked)
  let reads := p.blocks.flatMap (readMarks marked)
  let locations (id : String) : List Location := (blocks.lookup id).getD []
  let anchors := anchorMarks locations (reads.map (·.1)) connections
  ⟨blocks, SourceMap.group (reads ++ anchors)⟩

end StrategyCanvas.Code
