import StrategyCanvas.Proofs.Edit.Session
import StrategyCanvas.Proofs.Finding.Acceptance
import StrategyCanvas.Proofs.Finding.Layout
import StrategyCanvas.Proofs.Step

/-!
# Strategies whose values are hidden

The values that the properties of some blocks hold are hidden. Strategies that look the same then
differ in these values at most, which is all that setting a property does
(`Definition.redacted_updateProperty`). Values can be wrong, but no warning is about one
(`Definition.warnings_congr`).
-/

namespace StrategyCanvas

/-! ## Hidden values -/

/-- A property whose value does not show if it is hidden. -/
def Property.redacted (hidden : Bool) (p : Property) : Property :=
  { p with value := if hidden then none else p.value }

/-- A block whose values do not show if its id says that they are hidden. -/
def Block.redacted (hide : String → Bool) (b : Block) : Block :=
  { b with properties := b.properties.map (·.redacted (hide b.id)) }

/-- A strategy in which the values of some blocks do not show. -/
def Definition.redacted (hide : String → Bool) (d : Definition) : Definition :=
  { d with blocks := d.blocks.map (·.redacted hide) }

variable {hide : String → Bool}

/-! ## Setting a property -/

/-- A value that is set does not show if the values of the block are hidden. -/
theorem Block.redacted_setProperty {b b' : Block} {property : String} {value : PropertyValue}
    (h : b.setProperty property value = .ok b') (hidden : hide b.id = true) :
    b'.redacted hide = b.redacted hide := by
  obtain ⟨_, -, -, rfl⟩ := setProperty_eq_ok_iff.mp h
  unfold redacted
  dsimp only
  rw [hidden, map_mapFirst]
  exact fun _ => rfl

namespace Definition

variable {catalog : Catalog} {d d' : Definition}

theorem redacted_updateProperty {blockId property : String} {value : PropertyValue}
    (h : d.apply catalog (.updateProperty blockId property value) = .ok d')
    (hidden : hide blockId = true) : d'.redacted hide = d.redacted hide := by
  obtain ⟨b, b', found, set, rfl⟩ := apply_updateProperty_eq_ok_iff.mp h
  have id : b.id = blockId := key_of_find? found
  obtain ⟨before, after, split, -, changed⟩ := exists_mapFirst found fun _ => b'
  have shielded : hide b.id = true := by rwa [id]
  have same := Block.redacted_setProperty set shielded
  unfold redacted mapBlock
  dsimp only
  rw [changed, split, List.map_append, List.map_append, List.map_cons, List.map_cons, same]

/-! ## What shows -/

theorem blockIds_congr (same : d'.redacted hide = d.redacted hide) : d'.blockIds = d.blockIds := by
  have view (d : Definition) : (d.redacted hide).blockIds = d.blockIds := List.map_map
  rw [← view, same, view]

/-! ## Warnings -/

theorem bare_redacted (d : Definition) : (d.redacted hide).bare = d.bare := by
  simp only [bare, redacted, List.map_map]
  rfl

/-- Whatever is wrong with a single block is an error. -/
theorem filter_collectInOrder_defects (blocks : List Block) :
    (collectInOrder Block.defects [] blocks).filter (!·.code.isError) = [] := by
  rw [List.filter_eq_nil_iff]
  intro f mem
  obtain ⟨front, b, back, -, here⟩ := mem_collectInOrder_iff.mp mem
  rcases Block.code_of_mem_defects here with code | ⟨p, -, found⟩
  · rw [code]
    decide
  · simp [Property.isError_of_defect? found]

/-- Strategies that differ in hidden values draw the same warnings. -/
theorem warnings_congr (same : d'.redacted hide = d.redacted hide) :
    d'.report.warnings = d.report.warnings := by
  have warnings (d : Definition) : d.report.warnings
      = (d.defects.filter (!·.code.isError)).map (·.finding) := by
    show (d.defects.map (·.finding)).filter (!·.isError) = _
    rw [List.filter_map]
    refine congrArg (List.map _) (List.filter_congr fun f _ => ?_)
    exact congrArg (!·) f.isError_finding
  have others (d : Definition) : d.defects.filter (!·.code.isError)
      = (if Text.isBlankText d.name then [Defect.missingName] else []).filter (!·.code.isError)
        ++ if d.blocks.isEmpty then [Defect.emptyStrategy]
          else d.wiringDefects.filter (!·.code.isError) := by
    rw [defects, canvasDefects_eq, List.filter_append, List.append_right_inj]
    split
    · rfl
    · rw [List.filter_append, filter_collectInOrder_defects, List.nil_append]
  have name : d'.name = d.name := (congrArg Definition.name same :)
  have blocks : d'.blocks.isEmpty = d.blocks.isEmpty := by
    have views := congrArg (fun d => d.blocks.isEmpty) same
    exact (List.isEmpty_map.symm.trans views).trans List.isEmpty_map
  have wiring : d'.wiringDefects = d.wiringDefects := by
    refine wiringDefects_congr ?_
    rw [← d'.bare_redacted, same, bare_redacted]
  rw [warnings, warnings, others, others, name, blocks, wiring]

end Definition

end StrategyCanvas
