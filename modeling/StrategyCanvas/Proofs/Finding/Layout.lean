import StrategyCanvas.Proofs.Finding.Rules

/-!
# Validation does not look at the canvas

Where blocks lie, how large they are, what is said about them, who made a strategy and when, and the
kind that was noted when a connection was drawn: none of it is looked at. A strategy is told by its
core, which has the same findings (`Definition.findings_core`).
-/

namespace StrategyCanvas

/-! ## The core of a strategy -/

/-- A block without its description, its place and its extent. -/
def Block.core (b : Block) : Block :=
  { b with description := "", position := .origin, size := .usual }

/-- A connection without the kind that was noted when it was drawn. -/
def Connection.core (c : Connection) : Connection := { c with dataKind := .any }

/-- A strategy without what is only shown: descriptions, places and extents, noted kinds, and who
made it when. -/
def Definition.core (d : Definition) : Definition :=
  { d with
    description := ""
    blocks := d.blocks.map Block.core
    connections := d.connections.map Connection.core
    metadata := ⟨⟨0, 0⟩, ⟨0, 0⟩, "", []⟩ }

/-- The core of a block without its properties. -/
def Block.bare (b : Block) : Block := { b.core with properties := [] }

/-- The core of a strategy without the properties of its blocks. -/
def Definition.bare (d : Definition) : Definition :=
  { d.core with blocks := d.blocks.map Block.bare }

/-! ## Elements in order -/

section Collect

variable {α β γ : Type} {f : α → β} {say : List α → α → List γ} {told : List β → β → List γ}

/-- What is said of changed elements is what is said of the elements, if that holds of each. -/
theorem collectInOrder_map (same : ∀ before a, told (before.map f) (f a) = say before a)
    (before as : List α) :
    collectInOrder told (before.map f) (as.map f) = collectInOrder say before as := by
  induction as generalizing before with
  | nil => rfl
  | cons a rest ih =>
    have later := ih (before ++ [a])
    rw [List.map_append] at later
    rw [List.map_cons, collectInOrder, collectInOrder, same]
    exact congrArg (say before a ++ ·) later

end Collect

/-! ## Blocks and connections -/

/-- What is wrong with a block is wrong with its core. -/
theorem Block.defects_core (before : List Block) (b : Block) :
    b.core.defects (before.map core) = b.defects before := by
  unfold defects
  rw [List.any_map, List.flatMap_map]
  rfl

/-- What is wrong between two ports does not depend on the rest of the blocks. -/
theorem Connection.wireDefects_bare (c : Connection) (existing : List Connection)
    (source target : Block) (output : OutputPort) (input : InputPort) :
    c.core.wireDefects (existing.map core) source.bare target.bare output input
      = c.wireDefects existing source target output input := by
  have repeated : c.core.isRepeated (existing.map core) = c.isRepeated existing := List.any_map
  have shared : c.core.sharesInput (existing.map core) = c.sharesInput existing := List.any_map
  unfold wireDefects
  rw [repeated, shared]
  rfl

/-- What is wrong with a connection does not depend on the properties of blocks. -/
theorem Connection.defects_bare (c : Connection) (blocks : List Block)
    (existing : List Connection) :
    c.core.defects (blocks.map Block.bare) (existing.map core) = c.defects blocks existing := by
  have found (id : String) : (blocks.map Block.bare).find? (·.id = id)
      = (blocks.find? (·.id = id)).map Block.bare := List.find?_map
  have source := found c.sourceBlockId
  have target := found c.targetBlockId
  unfold defects
  rw [show c.core.sourceBlockId = c.sourceBlockId from rfl,
    show c.core.targetBlockId = c.targetBlockId from rfl, source, target]
  cases blocks.find? (·.id = c.sourceBlockId) with
  | none => rfl
  | some source =>
    cases blocks.find? (·.id = c.targetBlockId) with
    | none => rfl
    | some target =>
      have output : source.bare.output? c.core.sourceOutputId
          = source.output? c.sourceOutputId := rfl
      have input : target.bare.input? c.core.targetInputId = target.input? c.targetInputId := rfl
      dsimp only [Option.map_some]
      rw [output, input]
      cases source.output? c.sourceOutputId with
      | none => rfl
      | some output =>
        cases target.input? c.targetInputId with
        | none => rfl
        | some input => exact c.wireDefects_bare existing source target output input

/-! ## Strategies -/

namespace Definition

theorem blockIds_core (d : Definition) : d.core.blockIds = d.blockIds := List.map_map

theorem ends_core (d : Definition) :
    d.core.connections.map (·.ends) = d.connections.map (·.ends) := List.map_map

theorem bare_core (d : Definition) : d.core.bare = d.bare := by
  simp only [bare, core, List.map_map]
  rfl

/-! ## Apart from the properties of blocks -/

/-- Cycles depend on ids and ends alone. -/
theorem hasCycle_bare (d : Definition) : d.bare.hasCycle = d.hasCycle := by
  have ids : d.bare.blockIds = d.blockIds := List.map_map
  show (Flow.ofIds d.bare.blockIds (d.core.connections.map (·.ends))).hasCycle = _
  rw [ids, ends_core]
  rfl

/-- What is wrong with the flow of data does not depend on the properties of blocks. -/
theorem flowDefects_bare (d : Definition) : d.bare.flowDefects = d.flowDefects := by
  have fed (blockId inputId : String) : d.bare.isFed blockId inputId = d.isFed blockId inputId :=
    List.any_map
  have unfed (b : Block) : d.bare.unfedInputs b.bare = d.unfedInputs b := by
    unfold unfedInputs
    simp only [fed]
    rfl
  have blocks : d.bare.blocks = d.blocks.map Block.bare := rfl
  unfold flowDefects
  rw [blocks, List.any_map, List.any_map, List.flatMap_map]
  simp only [unfed]
  rfl

theorem orphans_bare (d : Definition) :
    (d.bare.blocks.filter d.bare.isOrphaned).map (fun b => Defect.orphanedBlock b.id b.name)
      = (d.blocks.filter d.isOrphaned).map fun b => .orphanedBlock b.id b.name := by
  have orphaned : d.bare.isOrphaned ∘ Block.bare = d.isOrphaned := by
    funext b
    have touched : d.bare.connections.any (·.touches b.id) = d.connections.any (·.touches b.id) :=
      List.any_map
    show (!b.inputs.isEmpty && !b.outputs.isEmpty && !d.bare.connections.any (·.touches b.id)) = _
    rw [touched]
    rfl
  show ((d.blocks.map Block.bare).filter d.bare.isOrphaned).map _ = _
  rw [List.filter_map, orphaned, List.map_map]
  rfl

/-- What is wrong with a strategy besides what is wrong with single blocks. -/
def wiringDefects (d : Definition) : List Defect :=
  d.connectionDefects ++ d.flowDefects
  ++ (d.blocks.filter d.isOrphaned).map (fun b => .orphanedBlock b.id b.name)
  ++ if d.hasCycle then [.circularDependency] else []

/-- Single blocks are judged first, and then what is between them. -/
theorem canvasDefects_eq (d : Definition) :
    d.canvasDefects = collectInOrder Block.defects [] d.blocks ++ d.wiringDefects := by
  simp only [canvasDefects_by_rules, wiringDefects, List.append_assoc]

/-- Properties decide nothing about the wiring. -/
theorem wiringDefects_bare (d : Definition) : d.bare.wiringDefects = d.wiringDefects := by
  have connections : d.bare.connectionDefects = d.connectionDefects :=
    collectInOrder_map (fun before c => c.defects_bare d.blocks before) [] d.connections
  unfold wiringDefects
  rw [connections, flowDefects_bare, orphans_bare, hasCycle_bare]

/-- What is between blocks is judged by what is left of them without properties. -/
theorem wiringDefects_congr {d d' : Definition} (same : d'.bare = d.bare) :
    d'.wiringDefects = d.wiringDefects := by
  rw [← wiringDefects_bare, same, wiringDefects_bare]

/-! ## Findings -/

/-- The drawing of a strategy makes nothing right or wrong. -/
theorem canvasDefects_core (d : Definition) : d.core.canvasDefects = d.canvasDefects := by
  have blocks : collectInOrder Block.defects [] d.core.blocks
      = collectInOrder Block.defects [] d.blocks :=
    collectInOrder_map Block.defects_core [] d.blocks
  rw [canvasDefects_eq, canvasDefects_eq, blocks, wiringDefects_congr d.bare_core]

/-- A strategy has the same findings as its core. -/
theorem findings_core (d : Definition) : d.core.findings = d.findings := by
  have empty : d.core.blocks.isEmpty = d.blocks.isEmpty := List.isEmpty_map
  unfold findings defects
  rw [empty, canvasDefects_core]
  rfl

/-- The report on a strategy is the report on its core. -/
theorem report_core (d : Definition) : d.core.report = d.report :=
  congrArg Report.mk d.findings_core

/-! ## Titles -/

/-- A strategy under another id, name and version. -/
def retitled (d : Definition) (id name : String) (version : UInt32) : Definition :=
  { d with id := id, name := name, version := version }

/-- Of its title, validation only asks whether a strategy has a name. -/
theorem findings_retitled (d : Definition) (id : String) {name : String} (version : UInt32)
    (h : Text.isBlankText name = Text.isBlankText d.name) :
    (d.retitled id name version).findings = d.findings := by
  unfold findings defects
  rw [show (d.retitled id name version).name = name from rfl, h]
  rfl

end Definition

end StrategyCanvas
