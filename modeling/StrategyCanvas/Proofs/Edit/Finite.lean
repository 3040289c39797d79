import StrategyCanvas.Proofs.Document.RoundTrip
import StrategyCanvas.Proofs.Edit.Session

/-!
# Edits and finite numbers

A document cannot hold a number that is not finite. Of the edits that bring numbers only those that
resize a block are refused when these are not finite; positions and values of properties are taken
as they are. An accepted edit therefore leaves a strategy with finite numbers exactly if its own
numbers are finite (`areFinite_apply_iff`).
-/

namespace StrategyCanvas

open Json

/-! ## Numbers -/

/-- All of the numbers are finite. -/
def AreFinite (xs : List Float) : Prop := ∀ x ∈ xs, x.isFinite = true

instance (xs : List Float) : Decidable (AreFinite xs) :=
  inferInstanceAs (Decidable (∀ x ∈ xs, x.isFinite = true))

theorem areFinite_append {xs ys : List Float} :
    AreFinite (xs ++ ys) ↔ AreFinite xs ∧ AreFinite ys := List.forall_mem_append

theorem areFinite_flatMap {α : Type} {as : List α} {numbers : α → List Float} :
    AreFinite (as.flatMap numbers) ↔ ∀ a ∈ as, AreFinite (numbers a) := List.forall_mem_flatMap

/-- When the first match in a list of finite parts changes, what counts are the numbers of that part
then. -/
theorem areFinite_mapFirst_iff {α : Type} {numbers : α → List Float} {p : α → Bool} {as : List α}
    {a : α} (h : ∀ b ∈ as, AreFinite (numbers b)) (found : as.find? p = some a) (change : α → α) :
    (∀ b ∈ mapFirst p change as, AreFinite (numbers b)) ↔ AreFinite (numbers (change a)) := by
  obtain ⟨before, after, rfl, -, changed⟩ := exists_mapFirst found change
  rw [changed]
  simp only [List.forall_mem_append, List.forall_mem_cons] at h ⊢
  obtain ⟨earlier, -, later⟩ := h
  exact ⟨fun all => all.2.1, fun new => ⟨earlier, new, later⟩⟩

/-- The numbers that a property of a new block starts with. -/
def PropertySpec.numbers (p : PropertySpec) : List Float := p.place.numbers

/-- The extent of the blocks of a type, and the numbers of their properties. -/
def Template.numbers (t : Template) : List Float :=
  [t.defaultSize.width, t.defaultSize.height] ++ t.properties.flatMap PropertySpec.numbers

/-- All numbers of the templates. -/
def Catalog.numbers (c : Catalog) : List Float := c.templates.flatMap Template.numbers

/-- The numbers that an edit brings. -/
def Edit.numbers : Edit → List Float
  | .addBlock _ _ position | .moveBlock _ position => [position.x, position.y]
  | .resizeBlock _ size => [size.width, size.height]
  | .updateProperty _ _ value => value.number?.toList
  | _ => []

/-! ## Blocks -/

/-- A property that is given a value still has finite numbers if the value is no other number. -/
theorem Property.areFinite_numbers_set_iff {p : Property} (h : AreFinite p.numbers)
    (value : PropertyValue) : AreFinite { p with value := some value }.numbers
      ↔ AreFinite value.number?.toList := by
  simp only [numbers, areFinite_append] at h ⊢
  obtain ⟨⟨-, min⟩, max⟩ := h
  exact ⟨fun all => all.1.1, fun new => ⟨⟨new, min⟩, max⟩⟩

namespace Block

variable {b b' : Block}

theorem areFinite_numbers_iff : AreFinite b.numbers ↔ AreFinite [b.position.x, b.position.y]
    ∧ AreFinite [b.size.width, b.size.height] ∧ ∀ p ∈ b.properties, AreFinite p.numbers := by
  rw [numbers, areFinite_append, areFinite_flatMap, ← and_assoc, ← areFinite_append]
  rfl

/-- A new block has finite numbers if it is put at a finite position. -/
theorem areFinite_place_iff {t : Template} (h : AreFinite t.numbers) (id : String)
    (position : Position) :
    AreFinite (t.place id position).numbers ↔ AreFinite [position.x, position.y] := by
  obtain ⟨size, properties⟩ := areFinite_append.mp h
  rw [areFinite_flatMap] at properties
  rw [areFinite_numbers_iff]
  refine and_iff_left ⟨size, fun p mem => ?_⟩
  obtain ⟨spec, known, rfl⟩ := List.mem_map.mp mem
  exact properties spec known

/-- A block that is moved still has finite numbers if its new position is finite. -/
theorem areFinite_moved_iff (h : AreFinite b.numbers) (position : Position) :
    AreFinite { b with position := position }.numbers ↔ AreFinite [position.x, position.y] := by
  obtain ⟨-, others⟩ := areFinite_numbers_iff.mp h
  rw [areFinite_numbers_iff]
  exact and_iff_left others

/-- A block that is resized still has finite numbers if its new extent is finite. -/
theorem areFinite_resized_iff (h : AreFinite b.numbers) (size : Size) :
    AreFinite { b with size := size }.numbers ↔ AreFinite [size.width, size.height] := by
  obtain ⟨position, -, properties⟩ := areFinite_numbers_iff.mp h
  rw [areFinite_numbers_iff]
  exact ⟨fun all => all.2.1, fun new => ⟨position, new, properties⟩⟩

/-- A block whose property is set still has finite numbers if the value is no other number. -/
theorem areFinite_setProperty_iff (h : AreFinite b.numbers) {property : String}
    {value : PropertyValue} (set : b.setProperty property value = .ok b') :
    AreFinite b'.numbers ↔ AreFinite value.number?.toList := by
  obtain ⟨position, size, properties⟩ := areFinite_numbers_iff.mp h
  obtain ⟨p, found, -, rfl⟩ := setProperty_eq_ok_iff.mp set
  have known := properties p (List.mem_of_find?_eq_some found)
  rw [areFinite_numbers_iff, areFinite_mapFirst_iff properties found,
    Property.areFinite_numbers_set_iff known]
  exact ⟨fun all => all.2.2, fun new => ⟨position, size, new⟩⟩

end Block

namespace Definition

variable {catalog : Catalog} {d d' : Definition}

/-- A strategy with one more block still has finite numbers if the block has. -/
theorem areFinite_placed_iff (h : AreFinite d.numbers) (b : Block) :
    AreFinite (d.placed b).numbers ↔ AreFinite b.numbers := by
  rw [numbers, placed, List.flatMap_append, areFinite_append, List.flatMap_singleton]
  exact and_iff_right h

/-- A strategy with a changed block still has finite numbers if the block has. -/
theorem areFinite_mapBlock_iff (h : AreFinite d.numbers) {id : String} {b : Block}
    (found : d.block? id = some b) (change : Block → Block) :
    AreFinite (d.mapBlock id change).numbers ↔ AreFinite (change b).numbers := by
  rw [numbers, areFinite_flatMap] at h ⊢
  exact areFinite_mapFirst_iff h found change

/-- No number comes up when blocks are taken away. -/
theorem areFinite_of_blocks_subset (h : AreFinite d.numbers) (kept : d'.blocks ⊆ d.blocks) :
    AreFinite d'.numbers := by
  rw [numbers, areFinite_flatMap] at h ⊢
  exact fun b mem => h b (kept mem)

/-- The block of an id in a strategy with finite numbers has finite numbers. -/
theorem areFinite_numbers_of_block? (h : AreFinite d.numbers) {id : String} {b : Block}
    (found : d.block? id = some b) : AreFinite b.numbers :=
  areFinite_flatMap.mp h b (List.mem_of_find?_eq_some found)

/-- An accepted edit of a strategy with finite numbers, made with a catalog of finite numbers,
leaves a strategy with finite numbers exactly if the numbers that it brings are finite. -/
theorem areFinite_apply_iff (h : AreFinite d.numbers) (templates : AreFinite catalog.numbers)
    {e : Edit} (accepted : d.apply catalog e = .ok d') :
    AreFinite d'.numbers ↔ AreFinite e.numbers := by
  have nothing : AreFinite [] := by decide
  cases e with
  | addBlock blockId type position =>
    obtain ⟨-, b, placed, rfl⟩ := apply_addBlock_eq_ok_iff.mp accepted
    obtain ⟨t, found, rfl⟩ := Option.map_eq_some_iff.mp placed
    have known := areFinite_flatMap.mp templates t (List.mem_of_find?_eq_some found)
    rw [areFinite_placed_iff h, Block.areFinite_place_iff known]
    rfl
  | moveBlock blockId position =>
    obtain ⟨b, found, rfl⟩ := apply_moveBlock_eq_ok_iff.mp accepted
    rw [areFinite_mapBlock_iff h found]
    exact Block.areFinite_moved_iff (areFinite_numbers_of_block? h found) position
  | resizeBlock blockId size =>
    obtain ⟨-, b, found, rfl⟩ := apply_resizeBlock_eq_ok_iff.mp accepted
    rw [areFinite_mapBlock_iff h found]
    exact Block.areFinite_resized_iff (areFinite_numbers_of_block? h found) size
  | deleteBlock blockId =>
    obtain ⟨-, rfl⟩ := apply_deleteBlock_eq_ok_iff.mp accepted
    exact iff_of_true (areFinite_of_blocks_subset h (List.filter_subset_self _)) nothing
  | addConnection id source output target input =>
    obtain ⟨-, connected⟩ := apply_addConnection_eq_ok_iff.mp accepted
    obtain ⟨-, -, rfl⟩ := connect_eq_ok_iff_findings.mp connected
    exact iff_of_true h nothing
  | deleteConnection id =>
    obtain ⟨-, rfl⟩ := apply_deleteConnection_eq_ok_iff.mp accepted
    exact iff_of_true h nothing
  | updateProperty blockId property value =>
    obtain ⟨b, b', found, set, rfl⟩ := apply_updateProperty_eq_ok_iff.mp accepted
    rw [areFinite_mapBlock_iff h found]
    exact Block.areFinite_setProperty_iff (areFinite_numbers_of_block? h found) set
  | renameStrategy name =>
    obtain rfl := Except.ok.inj accepted
    exact iff_of_true h nothing
  | setTags tags =>
    obtain rfl := Except.ok.inj accepted
    exact iff_of_true h nothing

/-! ## Documents of edited strategies -/

/-- An accepted edit keeps the numbers of a strategy finite exactly if its own are, and then the
strategy is read as it was written if its finite numbers and its instants are read back. -/
theorem numbers_of_apply {catalog : Catalog} {d d' : Definition} {e : Edit}
    (finite : AreFinite d.numbers) (templates : AreFinite catalog.numbers)
    (accepted : d.apply catalog e = .ok d') :
    (AreFinite d'.numbers ↔ AreFinite e.numbers)
    ∧ (AreFinite e.numbers → (∀ x ∈ d'.numbers, x.isFinite = true → ReadsBack x) →
      d'.metadata.createdAt.ReadsBack → d'.metadata.updatedAt.ReadsBack →
      read d'.write = .ok d') := by
  have same := areFinite_apply_iff finite templates accepted
  refine ⟨same, fun brought readable created updated => ?_⟩
  have legible : d'.encode.IsLegible :=
    isLegible_encode fun x mem => readable x mem (same.mpr brought x mem)
  exact decodeText_of_reads (reads created updated) (by decide) legible

/-- A block at a finite position is read back with the strategy. -/
theorem numbers_movedSketch : ∃ d', sketch.apply ⟨[]⟩ (.moveBlock "b" ⟨0.5, -3⟩) = .ok d'
    ∧ AreFinite d'.numbers ∧ read d'.write = .ok d' := by
  have finite : AreFinite sketch.numbers := by decide +kernel
  have templates : AreFinite (Catalog.mk []).numbers := by decide
  have brought : AreFinite (Edit.moveBlock "b" ⟨0.5, -3⟩).numbers := by decide +kernel
  have accepted : sketch.apply ⟨[]⟩ (.moveBlock "b" ⟨0.5, -3⟩)
      = .ok (sketch.mapBlock "b" fun b => { b with position := ⟨0.5, -3⟩ }) := rfl
  obtain ⟨same, back⟩ := numbers_of_apply finite templates accepted
  refine ⟨_, accepted, same.mpr brought, back brought (by decide +kernel) ?_ ?_⟩
  · exact Time.Instant.readsBack_of_isPlain ⟨by decide, by decide⟩
  · exact Time.Instant.readsBack_of_isPlain ⟨by decide, by decide⟩

/-- A position that is no number is taken, and so is an infinite value. -/
theorem numbers_unboundedSketch : AreFinite sketch.numbers ∧ AreFinite (Catalog.mk []).numbers
    ∧ (∃ d', sketch.apply ⟨[]⟩ (.moveBlock "b" ⟨0 / 0, 0⟩) = .ok d' ∧ ¬ AreFinite d'.numbers)
    ∧ ∃ d', sketch.apply ⟨[]⟩ (.updateProperty "b" "limit" (.number (1 / 0))) = .ok d'
      ∧ ¬ AreFinite d'.numbers :=
  ⟨by decide +kernel, by decide, ⟨_, rfl, by decide +kernel⟩, _, rfl, by decide +kernel⟩

end Definition

end StrategyCanvas
