import StrategyCanvas.Proofs.Finding.Report

/-!
# Strategies under other ids

Ids are renamed wherever they stand: blocks and ports carry them, and connections refer to them. A
renaming is any function. Where the ids of the renamed strategy are distinct, it does not give one
name to two ids of the strategy, so that connections still end where they ended.
-/

namespace StrategyCanvas

/-- Names for the ids of blocks, ports and connections. -/
structure Renaming where
  block : String → String
  port : String → String
  connection : String → String

/-! ## Ids -/

variable {ρ : Renaming}

/-- The input under its new id. -/
def InputPort.renamed (ρ : Renaming) (p : InputPort) : InputPort := { p with id := ρ.port p.id }

/-- The output under its new id. -/
def OutputPort.renamed (ρ : Renaming) (p : OutputPort) : OutputPort := { p with id := ρ.port p.id }

/-- The block and its ports under their new ids. -/
def Block.renamed (ρ : Renaming) (b : Block) : Block :=
  { b with
    id := ρ.block b.id
    inputs := b.inputs.map (·.renamed ρ)
    outputs := b.outputs.map (·.renamed ρ) }

/-- The connection under its new id, between the same ports under theirs. -/
def Connection.renamed (ρ : Renaming) (c : Connection) : Connection :=
  { c with
    id := ρ.connection c.id
    sourceBlockId := ρ.block c.sourceBlockId
    sourceOutputId := ρ.port c.sourceOutputId
    targetBlockId := ρ.block c.targetBlockId
    targetInputId := ρ.port c.targetInputId }

/-- The strategy with all ids renamed but its own. -/
def Definition.renamed (ρ : Renaming) (d : Definition) : Definition :=
  { d with
    blocks := d.blocks.map (·.renamed ρ)
    connections := d.connections.map (·.renamed ρ) }

/-! ## Texts -/

/-- A value unless it is a text. -/
def withoutText : Option PropertyValue → Option PropertyValue
  | some (.text _) => none
  | value => value

/-- A property without the text that it holds. -/
def Property.untexted (p : Property) : Property := { p with value := withoutText p.value }

/-- A block without the texts that its properties hold. -/
def Block.untexted (b : Block) : Block :=
  { b with properties := b.properties.map Property.untexted }

/-- A strategy without its id, its name and the texts that its properties hold. -/
def Definition.untexted (d : Definition) : Definition :=
  { d with id := "", name := "", blocks := d.blocks.map Block.untexted }

/-! ## Two blocks -/

/-- A block is another one under new ids, apart from the texts that properties hold. -/
def Block.IsRenamed (ρ : Renaming) (b b' : Block) : Prop := b'.untexted = (b.renamed ρ).untexted

namespace Block.IsRenamed

variable {b b' : Block} (h : b.IsRenamed ρ b')

include h

theorem id_eq : b'.id = ρ.block b.id := (congrArg Block.id h :)

theorem type_eq : b'.type = b.type := (congrArg Block.type h :)

theorem name_eq : b'.name = b.name := (congrArg Block.name h :)

theorem inputs_eq : b'.inputs = b.inputs.map (·.renamed ρ) := (congrArg Block.inputs h :)

theorem outputs_eq : b'.outputs = b.outputs.map (·.renamed ρ) := (congrArg Block.outputs h :)

theorem untexted_properties_eq :
    b'.properties.map Property.untexted = b.properties.map Property.untexted :=
  (congrArg Block.properties h :)

end Block.IsRenamed

/-! ## Two strategies -/

namespace Definition

variable {d d' : Definition} (h : d'.untexted = (d.renamed ρ).untexted)

include h

theorem untexted_blocks_eq :
    d'.blocks.map Block.untexted = d.blocks.map fun b => (b.renamed ρ).untexted := by
  have blocks : d'.blocks.map Block.untexted = (d.blocks.map (·.renamed ρ)).map Block.untexted :=
    congrArg Definition.blocks h
  rwa [List.map_map] at blocks

theorem connections_eq_renamed : d'.connections = d.connections.map (·.renamed ρ) :=
  (congrArg Definition.connections h :)

theorem blockIds_eq_renamed : d'.blockIds = d.blockIds.map ρ.block := by
  have ids := congrArg (List.map Block.id) (untexted_blocks_eq h)
  rw [List.map_map, List.map_map] at ids
  rw [blockIds, blockIds, List.map_map]
  exact ids

theorem ends_eq_renamed : d'.connections.map (·.ends)
    = (d.connections.map (·.ends)).map (Prod.map ρ.block ρ.block) := by
  rw [connections_eq_renamed h, List.map_map, List.map_map]
  rfl

/-- Where ids are distinct afterwards, a new name tells which block has been renamed. -/
theorem eq_of_block_eq (sound' : d'.IsSound) {a b : String} (ha : a ∈ d.blockIds)
    (hb : b ∈ d.blockIds) (same : ρ.block a = ρ.block b) : a = b := by
  have distinct : d'.blockIds.Nodup := sound'.distinct.1
  rw [blockIds_eq_renamed h] at distinct
  exact List.inj_on_of_nodup_map distinct ha hb same

end Definition

end StrategyCanvas
