import StrategyCanvas.Proofs.Code.BlockLocations
import StrategyCanvas.Proofs.Finding.Layout

/-!
# Compilation does not look at the canvas

Every step of compilation commutes with taking the core of what it works on, so a strategy compiles
to what its core compiles to (`compile_core`). Its title, which is its id, its name and its version,
is seen on two lines that no block has a part in (`getElem?_linesOf_retitled`).
-/

namespace StrategyCanvas.Code

open Text

/-! ## Plans -/

/-- The plan of the core of a block. -/
def BlockPlan.core (p : BlockPlan) : BlockPlan := { p with block := p.block.core }

/-- The plan of a block depends on its core alone. -/
theorem planBlock_core (catalog : Catalog) (claimed : Claimed) (b : Block) :
    planBlock catalog claimed b.core
      = (planBlock catalog claimed b).map fun r => (r.1.core, r.2) := by
  unfold planBlock
  rw [show b.core.type = b.type from rfl, show b.core.outputs = b.outputs from rfl]
  cases BlockType.ofTag? b.type with
  | none => rfl
  | some type =>
    dsimp only
    cases b.outputs.find? fun p => (fieldType? p.dataKind).isNone with
    | none => rfl
    | some p => rfl

/-- The plans of all blocks depend on their cores alone. -/
theorem planBlocks_core (catalog : Catalog) (claimed : Claimed) (blocks : List Block) :
    planBlocks catalog claimed (blocks.map Block.core)
      = (planBlocks catalog claimed blocks).map (List.map BlockPlan.core) := by
  induction blocks generalizing claimed with
  | nil => rfl
  | cons b rest ih =>
    rw [List.map_cons, planBlocks, planBlocks, planBlock_core]
    cases planBlock catalog claimed b with
    | error e => rfl
    | ok r =>
      show (planBlocks catalog r.2 (rest.map Block.core) >>= fun plans =>
        .ok (r.1.core :: plans)) = _
      rw [ih]
      show _ = (planBlocks catalog r.2 rest >>= fun plans => .ok (r.1 :: plans)).map _
      cases planBlocks catalog r.2 rest <;> rfl

/-! ## Order and wires -/

/-- The order of execution depends on the cores alone. -/
theorem orderPlans_core (d : Definition) (plans : List BlockPlan) :
    orderPlans d.core (plans.map BlockPlan.core)
      = (orderPlans d plans).map (List.map BlockPlan.core) := by
  rw [orderPlans_eq, orderPlans_eq, d.blockIds_core, d.ends_core, orderBy_map]

theorem incoming_core (d : Definition) (blockId : String) :
    d.core.incoming blockId = (d.incoming blockId).map Connection.core :=
  List.filter_map

/-- The wires of a block depend on the cores of blocks and connections alone. -/
theorem wires_core (plans : List BlockPlan) (b : Block) (connections : List Connection) :
    wires (plans.map BlockPlan.core) b.core (connections.map Connection.core)
      = wires plans b connections := by
  have fields (portId : String) : outputField? (plans.map BlockPlan.core) portId
      = outputField? plans portId := by
    unfold outputField?
    rw [List.flatMap_map]
    rfl
  have one (c : Connection) : wire (plans.map BlockPlan.core) b.core c.core = wire plans b c := by
    unfold wire
    rw [fields]
    rfl
  induction connections with
  | nil => rfl
  | cons c rest ih => rw [List.map_cons, wires, wires, one, ih]

/-! ## Emission -/

/-- What is emitted for the core of a block. -/
def Emission.core (e : Emission) : Emission := { e with plan := e.plan.core }

/-- What is emitted for a block does not depend on what its core lacks. -/
theorem emit_core (p : BlockPlan) (ws : List Wire) :
    emit ⟨p.core, ws⟩ = (emit ⟨p, ws⟩).map Emission.core := by
  have has : (BlockView.mk p.core ws).has = (BlockView.mk p ws).has := by
    funext m
    cases m <;> rfl
  have render : (BlockView.mk p.core ws).render = (BlockView.mk p ws).render := by
    funext piece
    cases piece <;> rfl
  have wireOf : (BlockView.mk p.core ws).wireOf? = (BlockView.mk p ws).wireOf? := by
    funext m
    cases m <;> rfl
  have emission (r : Rule) : (BlockView.mk p.core ws).emission r
      = ((BlockView.mk p ws).emission r).core := by
    unfold BlockView.emission
    rw [render, wireOf]
    rfl
  unfold emit
  rw [has, show (BlockView.mk p.core ws).plan.type = p.type from rfl]
  dsimp only
  cases (Rule.ofType p.type).members.find? fun m => !(BlockView.mk p ws).has m with
  | some m => rfl
  | none => exact congrArg Except.ok (emission _)

/-- What is emitted for all blocks depends on their cores alone. -/
theorem emitBlocks_core (d : Definition) (plans ordered : List BlockPlan) :
    emitBlocks d.core (plans.map BlockPlan.core) (ordered.map BlockPlan.core)
      = (emitBlocks d plans ordered).map (List.map Emission.core) := by
  induction ordered with
  | nil => rfl
  | cons p rest ih =>
    have into : d.core.incoming p.core.block.id
        = (d.incoming p.block.id).map Connection.core := incoming_core d p.block.id
    have wired : wires (plans.map BlockPlan.core) p.core.block (d.core.incoming p.core.block.id)
        = wires plans p.block (d.incoming p.block.id) := by
      rw [into]
      exact wires_core plans p.block _
    rw [List.map_cons, emitBlocks, emitBlocks, wired, ih]
    cases wires plans p.block (d.incoming p.block.id) with
    | error e => rfl
    | ok ws =>
      show (emit ⟨p.core, ws⟩ >>= _) = (emit ⟨p, ws⟩ >>= _).map _
      rw [emit_core]
      cases emit ⟨p, ws⟩ with
      | error e => rfl
      | ok here => cases emitBlocks d plans rest <;> rfl

/-- What is emitted for a strategy depends on its core alone. -/
theorem emissions_core (catalog : Catalog) (d : Definition) :
    emissions catalog d.core = (emissions catalog d).map (List.map Emission.core) := by
  have planned : plan catalog d.core = (plan catalog d).map (List.map BlockPlan.core) :=
    planBlocks_core catalog _ d.blocks
  unfold emissions
  rw [planned]
  cases plan catalog d with
  | error e => rfl
  | ok plans =>
    show (orderPlans d.core (plans.map BlockPlan.core) >>= _) = (orderPlans d plans >>= _).map _
    rw [orderPlans_core]
    cases orderPlans d plans with
    | error e => rfl
    | ok ordered => exact emitBlocks_core d plans ordered

/-! ## Programs -/

/-- The entries of a program depend on the core of the strategy alone. -/
theorem entries_core (o : Options) (d : Definition) (es : List Emission) :
    (o.program d.core (es.map Emission.core)).entries = (o.program d es).entries := by
  simp only [Program.entries, Program.declaration, Program.construction, Program.execution,
    Program.resetting, Program.getter, Program.setter, Program.keyList, Options.program,
    List.flatMap_map]
  rfl

/-- Connections are located by the ids of their ends. -/
theorem anchorMarks_core (locations : String → List Location) (known : List String)
    (connections : List Connection) :
    anchorMarks locations known (connections.map Connection.core)
      = anchorMarks locations known connections := by
  induction connections generalizing known with
  | nil => rfl
  | cons c rest ih =>
    rw [List.map_cons, anchorMarks, anchorMarks, ih, ih]
    rfl

/-- The code and the source map depend on the core of the strategy alone. -/
theorem finish_core (o : Options) (d : Definition) (es : List Emission) :
    o.finish d.core (es.map Emission.core) = o.finish d es := by
  have entries := entries_core o d es
  have lines (unit : Nat) : (o.program d.core (es.map Emission.core)).lines unit
      = (o.program d es).lines unit := by
    unfold Program.lines
    rw [entries]
  have marked (unit : Nat) : (o.program d.core (es.map Emission.core)).markedLines unit
      = (o.program d es).markedLines unit := by
    unfold Program.markedLines
    rw [entries, lines]
  have map : (o.program d.core (es.map Emission.core)).sourceMap o.indent d.core.connections
      = (o.program d es).sourceMap o.indent d.connections := by
    unfold Program.sourceMap
    dsimp only
    rw [marked, show d.core.connections = d.connections.map Connection.core from rfl,
      show (o.program d.core (es.map Emission.core)).blocks = es.map Emission.core from rfl,
      List.flatMap_map]
    simp only [anchorMarks_core]
    rfl
  unfold Options.finish Program.text
  dsimp only
  rw [lines, map, d.report_core, List.map_map, List.flatMap_map]
  rfl

/-- A strategy compiles to what its core compiles to, or is refused for the same reason. -/
theorem compile_core (o : Options) (catalog : Catalog) (d : Definition) :
    compile o catalog d.core = compile o catalog d := by
  unfold compile
  rw [d.report_core, emissions_core]
  cases emissions catalog d with
  | error e => rfl
  | ok es =>
    show (o.check >>= fun _ => o.judge d.report >>= fun _ =>
      .ok (o.finish d.core (es.map Emission.core))) = _
    rw [finish_core]
    rfl

/-! ## Titles -/

namespace Program

/-- The first line. -/
def headline (p : Program) : String :=
  "// Generated from strategy " ++ quote p.strategyName ++ " (" ++ oneLine p.strategyId
    ++ "), version " ++ toString p.version.toNat ++ "."

/-- The line above the structure. -/
def caption (p : Program) : String := "/// Strategy " ++ quote p.strategyName

/-- What is written down to the caption. Only the first line and the caption bear the title. -/
def preamble (p : Program) : List (Stroke String) := [
  .line p.headline,
  .line "// Regenerate from the strategy definition instead of editing.",
  .blank,
  .line ("use " ++ p.supportPath ++ "::prelude::*;"),
  .blank,
  .line p.caption]

/-- The first six lines, of which two have the title of the strategy in them. -/
theorem lay_preamble (p : Program) (unit : Nat) : lay unit 0 0 p.preamble = [
    ⟨1, 0, p.headline⟩,
    ⟨2, 0, "// Regenerate from the strategy definition instead of editing."⟩,
    ⟨3, 0, ""⟩,
    ⟨4, 0, "use " ++ p.supportPath ++ "::prelude::*;"⟩,
    ⟨5, 0, ""⟩,
    ⟨6, 0, p.caption⟩] := by
  simp only [preamble, lay, Stroke.level, Stroke.depthAfter, Stroke.text?, Option.getD_some,
    Option.getD_none, Nat.zero_mul, Nat.zero_add, Nat.reduceAdd]

/-- The entries below the caption. -/
def body (p : Program) : List Entry :=
  [.line "#[derive(Debug, Clone)]",
    .opening ("pub struct " ++ p.structName ++ " \x7b")].map Entry.plain
  ++ p.blocks.flatMap Emission.declarations ++ [closingBrace, .plain .blank]
  ++ p.functionsOpening ++ p.construction ++ p.execution ++ p.resetting ++ p.getter ++ p.setter
  ++ p.keyList ++ p.defaulting

/-- A program is its first six lines and a body. -/
theorem entries_eq (p : Program) : p.entries = p.preamble.map Entry.plain ++ p.body := by
  have top : p.heading ++ [Entry.plain (.line p.caption)] = p.preamble.map Entry.plain := rfl
  rw [← top]
  simp only [entries, declaration, body, List.append_assoc, List.map_cons, List.map_nil,
    List.cons_append, List.nil_append]
  rfl

/-- The lines below the caption, with the entries that they come from. -/
def bodyLines (p : Program) (unit : Nat) : List (Entry × LaidLine) :=
  p.body.zip (lay unit 0 6 (p.body.map (·.stroke)))

/-- The body is laid out behind the first six lines. -/
theorem map_bodyLines (p : Program) (unit : Nat) :
    (p.bodyLines unit).map (·.2) = lay unit 0 6 (p.body.map (·.stroke)) := by
  have enough : (lay unit 0 6 (p.body.map (·.stroke))).length ≤ p.body.length := by simp
  rw [bodyLines, List.map_snd_zip enough]

/-- The lines of a program are the first six and those of its body. -/
theorem lines_eq (p : Program) (unit : Nat) :
    p.lines unit = lay unit 0 0 p.preamble ++ (p.bodyLines unit).map (·.2) := by
  have strokes : (p.preamble.map Entry.plain).map (·.stroke) = p.preamble := by
    rw [List.map_map]
    exact List.map_id p.preamble
  rw [lines, entries_eq, List.map_append, strokes, lay_append, map_bodyLines]
  rfl

/-- The lines down to the caption are not marked. -/
theorem markedLines_eq (p : Program) (unit : Nat) : p.markedLines unit
    = (p.bodyLines unit).filterMap fun (entry, line) => entry.mark.map (·, line) := by
  have length : (p.preamble.map Entry.plain).length = (lay unit 0 0 p.preamble).length := by simp
  have unmarked : ((p.preamble.map Entry.plain).zip (lay unit 0 0 p.preamble)).filterMap
      (fun (entry, line) => entry.mark.map (·, line)) = [] := rfl
  rw [markedLines, lines_eq, entries_eq, List.zip_append length, List.filterMap_append, unmarked,
    List.nil_append, map_bodyLines]
  rfl

/-- The program of a strategy with another title. -/
def retitled (p : Program) (id name : String) (version : UInt32) : Program :=
  { p with strategyId := id, strategyName := name, version := version }

/-- The source map has nothing of the title in it. -/
theorem sourceMap_retitled (p : Program) (unit : Nat) (connections : List Connection)
    (id name : String) (version : UInt32) :
    (p.retitled id name version).sourceMap unit connections = p.sourceMap unit connections := by
  have marked : (p.retitled id name version).markedLines unit = p.markedLines unit := by
    rw [markedLines_eq, markedLines_eq]
    rfl
  unfold sourceMap
  rw [marked]
  rfl

theorem bodyLines_retitled (p : Program) (unit : Nat) (id name : String) (version : UInt32) :
    (p.retitled id name version).bodyLines unit = p.bodyLines unit := rfl

/-- Another title makes no more and no fewer lines. -/
theorem length_lines_retitled (p : Program) (unit : Nat) (id name : String) (version : UInt32) :
    ((p.retitled id name version).lines unit).length = (p.lines unit).length := by
  simp [lines_eq, lay_preamble, bodyLines_retitled]

/-- Other lines than the first and the sixth are the same under any title. -/
theorem getElem?_lines_retitled (p : Program) (unit : Nat) (id name : String) (version : UInt32)
    {i : Nat} (first : i ≠ 0) (sixth : i ≠ 5) :
    ((p.retitled id name version).lines unit)[i]? = (p.lines unit)[i]? := by
  rw [lines_eq, lines_eq, bodyLines_retitled, lay_preamble, lay_preamble]
  -- whatever the two lines are that bear the title
  generalize (p.retitled id name version).headline = headline'
  generalize (p.retitled id name version).caption = caption'
  match i with
  | 1 | 2 | 3 | 4 => rfl
  | i + 6 => rfl

end Program

/-- The title of a strategy decides nothing about its emission. -/
theorem emissions_retitled (catalog : Catalog) (d : Definition) (id name : String)
    (version : UInt32) : emissions catalog (d.retitled id name version) = emissions catalog d := by
  have emitted (plans ordered : List BlockPlan) :
      emitBlocks (d.retitled id name version) plans ordered = emitBlocks d plans ordered := by
    induction ordered with
    | nil => rfl
    | cons p rest ih =>
      rw [emitBlocks, emitBlocks, ih]
      rfl
  have planned : plan catalog (d.retitled id name version) = plan catalog d := rfl
  have ordered (plans : List BlockPlan) :
      orderPlans (d.retitled id name version) plans = orderPlans d plans := by
    rw [orderPlans_eq, orderPlans_eq]
    rfl
  unfold emissions
  simp only [planned, ordered, emitted]

section

variable {o : Options} {catalog : Catalog} {d : Definition} {id name : String} {version : UInt32}
  {compiled compiled' : Compiled}

/-- Another title draws the same findings, as long as it is as blank as the old one. -/
theorem report_retitled (named : isBlankText name = isBlankText d.name) :
    (d.retitled id name version).report = d.report :=
  congrArg Report.mk (d.findings_retitled id version named)

/-- A strategy compiles under every title that is as blank as its own. -/
theorem isOk_compile_retitled (named : isBlankText name = isBlankText d.name) :
    (∃ compiled, compile o catalog (d.retitled id name version) = .ok compiled)
      ↔ ∃ compiled, compile o catalog d = .ok compiled := by
  rw [isOk_compile_iff, isOk_compile_iff, report_retitled named, emissions_retitled]

/-- Everything but the code is the same under another title. -/
theorem eq_of_compile_retitled (named : isBlankText name = isBlankText d.name)
    (h : compile o catalog d = .ok compiled)
    (h' : compile o catalog (d.retitled id name version) = .ok compiled') :
    compiled' = { compiled with code := compiled'.code } := by
  obtain ⟨-, -, es, emitted, rfl⟩ := compile_eq_ok h
  obtain ⟨-, -, es', emitted', rfl⟩ := compile_eq_ok h'
  rw [emissions_retitled, emitted] at emitted'
  obtain rfl := Except.ok.inj emitted'
  have map := (o.program d es).sourceMap_retitled o.indent d.connections id name version
  have warnings : (d.retitled id name version).report.issues = d.report.issues :=
    congrArg Report.issues (report_retitled named)
  show Compiled.mk _ (((o.program d es).retitled id name version).sourceMap o.indent d.connections)
    _ _ (d.retitled id name version).report.issues = _
  rw [map, warnings]
  rfl

/-- The code under another title has as many lines, and only the first and the sixth differ. -/
theorem getElem?_linesOf_retitled (h : compile o catalog d = .ok compiled)
    (h' : compile o catalog (d.retitled id name version) = .ok compiled') :
    (linesOf compiled'.code).length = (linesOf compiled.code).length
    ∧ ∀ i, i ≠ 0 → i ≠ 5 → (linesOf compiled'.code)[i]? = (linesOf compiled.code)[i]? := by
  obtain ⟨-, -, es, emitted, -⟩ := compile_eq_ok h
  have emitted' := emitted
  rw [← emissions_retitled catalog d id name version] at emitted'
  obtain ⟨plans, comp⟩ := exists_compiles_of_emissions h emitted
  obtain ⟨plans', comp'⟩ := exists_compiles_of_emissions h' emitted'
  have lines := comp.linesOf_code
  have lines' : linesOf compiled'.code
      = (((o.program d es).retitled id name version).lines o.indent).map LaidLine.chars ++ [[]] :=
    comp'.linesOf_code
  rw [lines, lines']
  have length := (o.program d es).length_lines_retitled o.indent id name version
  refine ⟨by simp [length], fun i first sixth => ?_⟩
  have here := (o.program d es).getElem?_lines_retitled o.indent id name version first sixth
  rw [List.getElem?_append, List.getElem?_append, List.length_map, List.length_map, length,
    List.getElem?_map, List.getElem?_map, here]

end

/-! ## Two strategies -/

/-- Two strategies with one core have the same findings and compile to the same, or are refused for
the same reason. If the cores differ in their titles too, and both strategies have names, one of
them compiles if the other does. The results then differ at most in the first and the sixth line of
the code. -/
theorem compile_of_core_eq (o : Options) (catalog : Catalog) (d d' : Definition) :
    (d'.core = d.core → d'.findings = d.findings ∧ compile o catalog d' = compile o catalog d)
    ∧ (d'.core = d.core.retitled d'.id d'.name d'.version → isBlankText d.name = false →
      isBlankText d'.name = false →
      ((∃ compiled', compile o catalog d' = .ok compiled')
        ↔ ∃ compiled, compile o catalog d = .ok compiled)
      ∧ ∀ compiled compiled', compile o catalog d = .ok compiled →
        compile o catalog d' = .ok compiled' →
        compiled'.sourceMap = compiled.sourceMap
        ∧ compiled'.executionOrder = compiled.executionOrder
        ∧ compiled'.parameterKeys = compiled.parameterKeys
        ∧ compiled'.warnings = compiled.warnings
        ∧ (linesOf compiled'.code).length = (linesOf compiled.code).length
        ∧ ∀ i, i ≠ 0 → i ≠ 5 → (linesOf compiled'.code)[i]? = (linesOf compiled.code)[i]?) := by
  constructor
  · intro same
    rw [← d'.findings_core, ← compile_core o catalog d', same, d.findings_core, compile_core]
    exact ⟨rfl, rfl⟩
  · intro same named named'
    have blank : isBlankText d'.name = isBlankText d.core.name := named'.trans named.symm
    rw [← compile_core o catalog d', ← compile_core o catalog d, same]
    refine ⟨isOk_compile_retitled blank, fun compiled compiled' h h' => ?_⟩
    have rest := eq_of_compile_retitled blank h h'
    obtain ⟨length, lines⟩ := getElem?_linesOf_retitled h h'
    rw [rest]
    exact ⟨rfl, rfl, rfl, rfl, length, lines⟩

/-- A strategy that logs a price, drawn elsewhere and under another title, with line feeds in it. -/
def movedLog : Definition :=
  { priceLog with
    id := "s\n2"
    name := "Moved\nlog"
    description := "The same, but elsewhere."
    version := 7
    blocks := priceLog.blocks.map fun b =>
      { b with description := "Moved.", position := ⟨3, 4⟩, size := ⟨5, 6⟩ }
    connections := priceLog.connections.map fun c => { c with dataKind := .candle }
    metadata := ⟨⟨1, 0⟩, ⟨2, 0⟩, "t", ["moved"]⟩ }

/-- Blocks that are moved, resized and described in other words make no difference, and another
title only in two lines. -/
theorem compile_movedLog :
    compile .default ⟨[]⟩ (movedLog.retitled priceLog.id priceLog.name priceLog.version)
      = compile .default ⟨[]⟩ priceLog
    ∧ ∃ compiled compiled', compile .default ⟨[]⟩ priceLog = .ok compiled
      ∧ compile .default ⟨[]⟩ movedLog = .ok compiled'
      ∧ compiled'.sourceMap = compiled.sourceMap
      ∧ ∀ i, i ≠ 0 → i ≠ 5 → (linesOf compiled'.code)[i]? = (linesOf compiled.code)[i]? := by
  obtain ⟨compiled, h⟩ := isOk_compile_priceLog
  have untitled := (compile_of_core_eq .default ⟨[]⟩ priceLog
    (movedLog.retitled priceLog.id priceLog.name priceLog.version)).1 rfl
  obtain ⟨accepted, results⟩ := (compile_of_core_eq .default ⟨[]⟩ priceLog movedLog).2 rfl
    (by decide +kernel) (by decide +kernel)
  obtain ⟨compiled', h'⟩ := accepted.mpr ⟨compiled, h⟩
  obtain ⟨map, -, -, -, -, lines⟩ := results compiled compiled' h h'
  exact ⟨untitled.2, compiled, compiled', h, h', map, lines⟩

end StrategyCanvas.Code
