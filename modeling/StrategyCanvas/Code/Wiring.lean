import StrategyCanvas.Code.Plan
import StrategyCanvas.Document.Definition

/-!
# Wiring

What each input of a block reads. Inputs are told apart by the slugs of their names; of several
connections into an input the last one wins, and a connection reads the field of its own output,
converted to the kind of its own input.
-/

namespace StrategyCanvas.Code

/-- What a connection brings to an input. -/
structure Wire where
  slug : String
  connectionId : String
  expr : String
  deriving DecidableEq, Repr

/-- The field of an output port; the last one counts if several ports have the id. -/
def outputField? (plans : List BlockPlan) (portId : String) : Option OutputField :=
  (plans.flatMap (·.outputs)).reverse.find? (·.portId = portId)

/-- The wire of a connection into a block, nothing if one of its ports does not exist. -/
def wire (plans : List BlockPlan) (b : Block) (c : Connection) :
    Except CompileError (Option Wire) :=
  match b.input? c.targetInputId, outputField? plans c.sourceOutputId with
  | some port, some output =>
    match convert? output.field output.kind port.dataKind with
    | some expr => .ok (some ⟨Text.slug port.name, c.id, expr⟩)
    | none => .error (.unsupportedConversion c.id output.kind port.dataKind)
  | _, _ => .ok none

/-- The wires of the connections into a block, in the order of the definition. -/
def wires (plans : List BlockPlan) (b : Block) :
    List Connection → Except CompileError (List Wire)
  | [] => .ok []
  | c :: rest => do
    let here ← wire plans b c
    let there ← wires plans b rest
    .ok (here.toList ++ there)

/-- An input as an emission rule sees it: its kind, and what is connected to it. -/
structure InputSlot where
  kind : DataKind
  source : Option Wire
  deriving DecidableEq, Repr

/-- The input of a name. The last port with the slug gives the kind, the last wire the source. -/
def inputSlot? (b : Block) (ws : List Wire) (name : String) : Option InputSlot :=
  (b.inputs.reverse.find? fun p => Text.slug p.name = Text.slug name).map fun p =>
    ⟨p.dataKind, ws.reverse.find? (·.slug = Text.slug name)⟩

end StrategyCanvas.Code
