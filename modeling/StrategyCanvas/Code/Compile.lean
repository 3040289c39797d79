import StrategyCanvas.Catalog.Standard
import StrategyCanvas.Code.Program
import StrategyCanvas.Finding.Report
import StrategyCanvas.Flow.Order

/-!
# Compilation

From a strategy to its code: the options and the strategy are checked, every name is planned in the
order of the definition, every block is emitted in the order in which it runs, and the program that
results is laid out. The first check that fails decides the refusal.
-/

namespace StrategyCanvas.Code

/-! ## Options -/

/-- How the code is to look, and how strict its checks are. -/
structure Options where
  /-- The name of the generated structure. -/
  structName : String
  /-- The path to the module that the generated code gets its support from. -/
  supportPath : String
  /-- The number of spaces a level. -/
  indent : Nat
  /-- Whether warnings are reasons to refuse. -/
  denyWarnings : Bool
  deriving DecidableEq, Repr

namespace Options

/-- Four spaces a level, and warnings do no harm. -/
def default : Options := ⟨"GeneratedStrategy", "strategy_graph::runtime", 4, false⟩

instance : Inhabited Options := ⟨default⟩

/-- Refuses names that the code cannot carry. -/
def check (o : Options) : Except CompileError Unit :=
  if !Text.isIdentifier o.structName then .error (.invalidOption .structName o.structName)
  else if !Text.isModulePath o.supportPath then .error (.invalidOption .supportPath o.supportPath)
  else .ok ()

/-- Refuses a strategy for what validation found. A circle is named as such, errors go before
warnings. -/
def judge (o : Options) (r : Report) : Except CompileError Unit :=
  if r.hasCycle then .error .circularDependency
  else if r.hasErrors then .error (.invalid r.errors)
  else if o.denyWarnings && !r.warnings.isEmpty then .error (.invalid r.issues)
  else .ok ()

end Options

/-! ## Emission in order -/

/-- Wires and emits blocks, given the plans of all blocks. -/
def emitBlocks (d : Definition) (plans : List BlockPlan) :
    List BlockPlan → Except CompileError (List Emission)
  | [] => .ok []
  | p :: rest => do
    let wires ← wires plans p.block (d.incoming p.block.id)
    let emission ← emit ⟨p, wires⟩
    let emissions ← emitBlocks d plans rest
    .ok (emission :: emissions)

/-- The plans of the blocks in execution order. -/
def orderPlans (d : Definition) (plans : List BlockPlan) : Except CompileError (List BlockPlan) :=
  match d.flow.order with
  | .ok order => .ok (order.filterMap fun i => plans[i.val]?)
  | .error _ => .error .circularDependency

/-! ## Compilation -/

/-- A compiled strategy. -/
structure Compiled where
  code : String
  sourceMap : SourceMap
  /-- The ids of the blocks in the order in which the code runs them. -/
  executionOrder : List String
  parameterKeys : List String
  /-- What validation found; nothing of it is an error. -/
  warnings : List Finding
  deriving DecidableEq, Repr

/-- The program of emitted blocks. -/
def Options.program (o : Options) (d : Definition) (emissions : List Emission) : Program where
  structName := o.structName
  supportPath := o.supportPath
  strategyName := d.name
  strategyId := d.id
  version := d.version
  blocks := emissions

/-- Lays the program of emitted blocks out. -/
def Options.finish (o : Options) (d : Definition) (emissions : List Emission) : Compiled :=
  let program := o.program d emissions
  { code := program.text o.indent
    sourceMap := program.sourceMap o.indent d.connections
    executionOrder := emissions.map (·.blockId)
    parameterKeys := emissions.flatMap fun e => e.plan.params.map (·.key)
    warnings := d.report.issues }

/-- The emitted blocks of a strategy in execution order. -/
def emissions (catalog : Catalog) (d : Definition) : Except CompileError (List Emission) := do
  let plans ← plan catalog d
  let ordered ← orderPlans d plans
  emitBlocks d plans ordered

/-- Compiles a strategy. Properties that its blocks lack come from the catalog. -/
def compile (o : Options) (catalog : Catalog) (d : Definition) : Except CompileError Compiled := do
  o.check
  o.judge d.report
  let emissions ← emissions catalog d
  .ok (o.finish d emissions)

/-- Compiles a strategy with the default options and the standard catalog. -/
def compileDefault (d : Definition) : Except CompileError Compiled :=
  compile .default .standard d

end StrategyCanvas.Code
