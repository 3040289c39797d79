import StrategyCanvas.Code.Rule
import StrategyCanvas.Code.Wiring

/-!
# Emission

What a rule gives for one block: the state field, the lines of the update, and the connections whose
expressions the lines read. A rule that asks for a member the block does not have gives nothing.
-/

namespace StrategyCanvas.Code

/-- What a rule can see of a block: its plan and its wires. -/
structure BlockView where
  plan : BlockPlan
  wires : List Wire
  deriving Repr

namespace BlockView

/-- The first parameter of a property. -/
def param? (v : BlockView) (name : String) : Option Param :=
  v.plan.params.find? (·.property = name)

/-- The input with the slug of a name. -/
def input? (v : BlockView) (name : String) : Option InputSlot :=
  inputSlot? v.plan.block v.wires name

/-- The first output with the slug of a name. -/
def output? (v : BlockView) (name : String) : Option OutputField :=
  v.plan.outputs.find? fun o => Text.slug o.name = Text.slug name

/-- Whether the block has a member. -/
def has (v : BlockView) : Member → Bool
  | .property name => (v.param? name).isSome
  | .input name => (v.input? name).isSome
  | .output name => (v.output? name).isSome

/-- The name of the field of the state. -/
def stateName (v : BlockView) : String := "s_" ++ v.plan.handle

/-- The current value of a property. -/
def readProperty (v : BlockView) (name : String) : String :=
  ((v.param? name).map (·.read)).getD ""

/-- The configured value of a property. -/
def literal (v : BlockView) (name : String) : String :=
  ((v.param? name).map (·.literal)).getD ""

/-- What is connected to an input, or else something that depends on the kind of the input. -/
def readInput (v : BlockView) (name : String) (otherwise : DataKind → String) : String :=
  match v.input? name with
  | some slot =>
    match slot.source with
    | some wire => wire.expr
    | none => otherwise slot.kind
  | none => ""

/-- The text of a piece. -/
def render (v : BlockView) : Piece → String
  | .text s => s
  | .property name => v.readProperty name
  | .input name => v.readInput name fallback
  | .inputOr name property => v.readInput name fun _ => v.readProperty property
  | .output name => "self." ++ ((v.output? name).map (·.field)).getD ""
  | .state => "self." ++ v.stateName
  | .blockId => Text.quote v.plan.block.id

/-- The text of the code that makes a state, given the values of properties. -/
def renderState (value : String → String) (make : List StatePiece) : String :=
  String.join <| make.map fun
    | .text s => s
    | .property name => value name

/-- The state field that a rule asks for. -/
def stateField (v : BlockView) (s : StateRule) : StateField where
  field := v.stateName
  type := s.type
  initializer := renderState v.literal s.make
  reset := renderState v.readProperty s.make
  dependsOn := s.properties

/-- The wire that a rule reads when it asks for a member. -/
def wireOf? (v : BlockView) : Member → Option Wire
  | .input name => (v.input? name).bind (·.source)
  | _ => none

end BlockView

/-- A line of an update, some levels below the others. -/
structure Statement where
  depth : Nat
  text : String
  deriving DecidableEq, Repr

/-- What a rule gives for a block. -/
structure Emission where
  plan : BlockPlan
  state : Option StateField
  update : List Statement
  reads : List Wire
  deriving Repr

/-- The lines of strokes, with the depths at which they are written. -/
def statements (strokes : List (Stroke String)) : List Statement :=
  (lay 1 0 0 strokes).map fun l => ⟨l.indent, l.text⟩

/-- What a rule gives for a block that has all its members. -/
def BlockView.emission (v : BlockView) (r : Rule) : Emission where
  plan := v.plan
  state := r.state.map v.stateField
  update := statements (r.update.map fun s => s.map fun pieces => String.join (pieces.map v.render))
  reads := r.reads.filterMap v.wireOf?

/-- Emits the code of a block, unless its rule asks for a member that the block does not have; the
first such member is named. -/
def emit (v : BlockView) : Except CompileError Emission :=
  let rule := Rule.ofType v.plan.type
  match rule.members.find? fun m => !v.has m with
  | some m => .error (.incompleteBlock v.plan.block.id m)
  | none => .ok (v.emission rule)

end StrategyCanvas.Code
