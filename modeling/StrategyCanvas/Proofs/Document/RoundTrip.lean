import StrategyCanvas.Document.Codec
import StrategyCanvas.Proofs.Json.Decoding
import StrategyCanvas.Proofs.Time.Reading

/-!
# Documents are read as they were written

The text of a strategy is read as the same strategy, whatever its texts are and whichever of its
lists are empty (`read_write`). This takes the numbers and the instants that it holds to be read
back one by one. Instants of the years 0 to 9999 are; of the finite numbers the reader misses some
by their last place, and numbers that are not finite are written as `null`.
-/

namespace StrategyCanvas

open Json

/-! ## Kinds and values -/

/-- A kind of data is read from its name. -/
theorem DataKind.reads (k : DataKind) : Reads DataKind.decode 0 k.encode k := by
  intro room _
  cases k <;> rfl

theorem Category.reads (c : Category) : Reads Category.decode 0 c.encode c := by
  intro room _
  cases c <;> rfl

theorem PropertyKind.reads (k : PropertyKind) : Reads PropertyKind.decode 0 k.encode k := by
  intro room _
  cases k <;> rfl

/-- Each variant of a value is read from its own tag. -/
theorem PropertyValue.reads (v : PropertyValue) : Reads PropertyValue.decode 0 v.encode v := by
  intro room _
  cases v <;> rfl

/-- A value is never written as what stands for no value. -/
theorem PropertyValue.encode_ne_null (v : PropertyValue) : v.encode ≠ .null := by
  cases v <;> simp [encode]

/-- An instant is read from its text. -/
theorem Time.Instant.reads {t : Time.Instant} (h : t.ReadsBack) : Reads .instant 0 t.encode t := by
  intro room _
  rw [encode, Outline.ofValue, Decoder.instant, h]
  rfl

/-! ## Places and extents -/

/-- The members of a position are read in the order in which they are written. -/
theorem Position.reads (p : Position) : Reads Position.record.decode 1 p.encode p := by
  refine Record.reads_object ?_ (by simp) (by simp [record, RecordField.of])
  refine .cons rfl (reads_number p.x) (by omega) ?_
  refine .cons rfl (reads_number p.y) (by omega) ?_
  exact .nil p

theorem Size.reads (s : Size) : Reads Size.record.decode 1 s.encode s := by
  refine Record.reads_object ?_ (by simp) (by simp [record, RecordField.of])
  refine .cons rfl (reads_number s.width) (by omega) ?_
  refine .cons rfl (reads_number s.height) (by omega) ?_
  exact .nil s

/-! ## Ports and properties -/

theorem SelectOption.reads (o : SelectOption) : Reads SelectOption.record.decode 1 o.encode o := by
  refine Record.reads_object ?_ (by simp) (by simp [record, RecordField.of])
  refine .cons rfl (reads_text o.label) (by omega) ?_
  refine .cons rfl (reads_text o.value) (by omega) ?_
  exact .nil o

theorem InputPort.reads (p : InputPort) : Reads InputPort.record.decode 1 p.encode p := by
  refine Record.reads_object ?_ (by simp) (by simp [record, RecordField.of])
  refine .cons rfl (reads_text p.id) (by omega) ?_
  refine .cons rfl (reads_text p.name) (by omega) ?_
  refine .cons rfl p.dataKind.reads (by omega) ?_
  refine .cons rfl (reads_bool p.required) (by omega) ?_
  exact .nil p

theorem OutputPort.reads (p : OutputPort) : Reads OutputPort.record.decode 1 p.encode p := by
  refine Record.reads_object ?_ (by simp) (by simp [record, RecordField.of])
  refine .cons rfl (reads_text p.id) (by omega) ?_
  refine .cons rfl (reads_text p.name) (by omega) ?_
  refine .cons rfl p.dataKind.reads (by omega) ?_
  exact .nil p

/-- The members of a property that are always written. -/
theorem Property.sets_always (p : Property) : Record.Sets record 2
    [("name", .text p.name), ("label", .text p.label), ("kind", p.kind.encode),
      ("value", option PropertyValue.encode p.value), ("required", .bool p.required)]
    record.blank { p with min := none, max := none, options := [] } := by
  have value : Reads (.option PropertyValue.decode) 0 (option PropertyValue.encode p.value)
      p.value := reads_option p.value (fun v _ => v.reads) fun v _ => v.encode_ne_null
  refine .cons rfl (reads_text p.name) (by omega) ?_
  refine .cons rfl (reads_text p.label) (by omega) ?_
  refine .cons rfl p.kind.reads (by omega) ?_
  refine .cons rfl value (by omega) ?_
  refine .cons rfl (reads_bool p.required) (by omega) ?_
  exact .nil _

/-- The bounds of a property are set if they are written. -/
theorem Property.sets_bounds (p : Property) : Record.Sets record 2
    (optionalMember "min" Json.float p.min ++ optionalMember "max" Json.float p.max)
    { p with min := none, max := none, options := [] } { p with options := [] } := by
  have bound (x : Option Float) : Reads (.option .number) 0 (option .float x) x :=
    reads_option x (fun x _ => reads_number x) (by simp)
  have min : (record.fields.find? fun f => f.name = "min")
      = some (.of "min" .optional (.option .number) fun x p => { p with min := x }) := rfl
  have max : (record.fields.find? fun f => f.name = "max")
      = some (.of "max" .optional (.option .number) fun x p => { p with max := x }) := rfl
  exact .append (Record.sets_optionalMember min (bound p.min) (by omega) rfl)
    (Record.sets_optionalMember max (bound p.max) (by omega) rfl)

/-- An empty list of options is not written, and is what is there without it. -/
theorem Property.sets_options (p : Property) : Record.Sets record 2
    (if p.options.isEmpty then [] else [("options", .list (p.options.map SelectOption.encode))])
    { p with options := [] } p := by
  have options := reads_list p.options fun o _ => o.reads
  split
  · rename_i empty
    rw [List.isEmpty_iff] at empty
    rw [← empty]
    exact .nil p
  · refine .cons rfl options (by omega) ?_
    exact .nil p

/-- A property is read with the members that were written, and the others stay absent. -/
theorem Property.reads (p : Property) : Reads Property.record.decode 3 p.encode p := by
  have members := (p.sets_always.append p.sets_bounds).append p.sets_options
  rw [← List.append_assoc] at members
  refine Record.reads_object members ?_ ?_
  · cases p.min <;> cases p.max <;> cases p.options <;> simp [optionalMember]
  · simp [record, RecordField.of]

/-! ## Blocks and connections -/

/-- A block is read with its ports and properties. -/
theorem Block.reads (b : Block) : Reads Block.record.decode 5 b.encode b := by
  have inputs := reads_list b.inputs fun p _ => p.reads
  have outputs := reads_list b.outputs fun p _ => p.reads
  have properties := reads_list b.properties fun p _ => p.reads
  refine Record.reads_object ?_ (by simp) (by simp [record, RecordField.of])
  refine .cons rfl (reads_text b.id) (by omega) ?_
  refine .cons rfl (reads_text b.type) (by omega) ?_
  refine .cons rfl b.category.reads (by omega) ?_
  refine .cons rfl (reads_text b.name) (by omega) ?_
  refine .cons rfl (reads_text b.description) (by omega) ?_
  refine .cons rfl b.position.reads (by omega) ?_
  refine .cons rfl b.size.reads (by omega) ?_
  refine .cons rfl inputs (by omega) ?_
  refine .cons rfl outputs (by omega) ?_
  refine .cons rfl properties (by omega) ?_
  exact .nil b

/-- A connection is read with the ids of its ends. -/
theorem Connection.reads (c : Connection) : Reads Connection.record.decode 1 c.encode c := by
  refine Record.reads_object ?_ (by simp) (by simp [record, RecordField.of])
  refine .cons rfl (reads_text c.id) (by omega) ?_
  refine .cons rfl (reads_text c.sourceBlockId) (by omega) ?_
  refine .cons rfl (reads_text c.sourceOutputId) (by omega) ?_
  refine .cons rfl (reads_text c.targetBlockId) (by omega) ?_
  refine .cons rfl (reads_text c.targetInputId) (by omega) ?_
  refine .cons rfl c.dataKind.reads (by omega) ?_
  exact .nil c

/-! ## Definitions -/

/-- Metadata are read if their two instants are. -/
theorem Metadata.reads {m : Metadata} (created : m.createdAt.ReadsBack)
    (updated : m.updatedAt.ReadsBack) : Reads Metadata.record.decode 2 m.encode m := by
  have tags := reads_list m.tags fun s _ => reads_text s
  refine Record.reads_object ?_ (by simp) (by simp [record, RecordField.of])
  refine .cons rfl (Time.Instant.reads created) (by omega) ?_
  refine .cons rfl (Time.Instant.reads updated) (by omega) ?_
  refine .cons rfl (reads_text m.createdBy) (by omega) ?_
  refine .cons rfl tags (by omega) ?_
  exact .nil m

/-- A whole document is read if its two instants are. -/
theorem Definition.reads {d : Definition} (created : d.metadata.createdAt.ReadsBack)
    (updated : d.metadata.updatedAt.ReadsBack) :
    Reads Definition.record.decode 7 d.encode d := by
  have blocks := reads_list d.blocks fun b _ => b.reads
  have connections := reads_list d.connections fun c _ => c.reads
  refine Record.reads_object ?_ (by simp) (by simp [record, RecordField.of])
  refine .cons rfl (reads_text d.id) (by omega) ?_
  refine .cons rfl (reads_text d.name) (by omega) ?_
  refine .cons rfl (reads_text d.description) (by omega) ?_
  refine .cons rfl (reads_word32 d.version) (by omega) ?_
  refine .cons rfl blocks (by omega) ?_
  refine .cons rfl connections (by omega) ?_
  refine .cons rfl (Metadata.reads created updated) (by omega) ?_
  exact .nil d

/-! ## Numbers -/

/-- The number that a property holds, if it holds one, and its bounds. -/
def Property.numbers (p : Property) : List Float :=
  (p.value.bind PropertyValue.number?).toList ++ p.min.toList ++ p.max.toList

/-- Where a block is, how large it is, and the numbers of its properties. -/
def Block.numbers (b : Block) : List Float :=
  [b.position.x, b.position.y, b.size.width, b.size.height] ++ b.properties.flatMap Property.numbers

/-- All numbers of a strategy but its version. -/
def Definition.numbers (d : Definition) : List Float := d.blocks.flatMap Block.numbers

/-- A property is legible if its numbers are read back. -/
theorem Property.isLegible_encode {p : Property} (h : ∀ x ∈ p.numbers, ReadsBack x) :
    p.encode.IsLegible := by
  have bound (name : String) {x : Option Float} (h : ∀ y ∈ x, ReadsBack y) :
      MembersLegible (optionalMember name Json.float x) := by
    cases x with
    | none => trivial
    | some y => exact ⟨h y rfl, trivial⟩
  have options : AreLegible (p.options.map SelectOption.encode) :=
    areLegible_map fun o _ => ⟨trivial, trivial, trivial⟩
  simp only [numbers, List.forall_mem_append, Option.mem_toList] at h
  obtain ⟨⟨held, min⟩, max⟩ := h
  have value : (option PropertyValue.encode p.value).IsLegible := by
    cases held' : p.value with
    | none => trivial
    | some v =>
      cases v with
      | number x => exact held x (by rw [held']; rfl)
      | _ => trivial
  simp only [encode, IsLegible, membersLegible_append]
  refine ⟨⟨⟨⟨trivial, trivial, trivial, value, trivial, trivial⟩, bound "min" min⟩,
    bound "max" max⟩, ?_⟩
  split
  · trivial
  · exact ⟨options, trivial⟩

/-- A block is legible if its numbers are read back. -/
theorem Block.isLegible_encode {b : Block} (h : ∀ x ∈ b.numbers, ReadsBack x) :
    b.encode.IsLegible := by
  simp only [numbers, List.forall_mem_append, List.forall_mem_cons, List.forall_mem_flatMap] at h
  obtain ⟨⟨x, y, width, height, -⟩, properties⟩ := h
  have inputs : AreLegible (b.inputs.map InputPort.encode) :=
    areLegible_map fun p _ => ⟨trivial, trivial, trivial, trivial, trivial⟩
  have outputs : AreLegible (b.outputs.map OutputPort.encode) :=
    areLegible_map fun p _ => ⟨trivial, trivial, trivial, trivial⟩
  have properties : AreLegible (b.properties.map Property.encode) :=
    areLegible_map fun p mem => Property.isLegible_encode (properties p mem)
  exact ⟨trivial, trivial, trivial, trivial, trivial, ⟨x, y, trivial⟩, ⟨width, height, trivial⟩,
    inputs, outputs, properties, trivial⟩

/-- A document is legible if its numbers are read back: texts and names always are. -/
theorem Definition.isLegible_encode {d : Definition} (h : ∀ x ∈ d.numbers, ReadsBack x) :
    d.encode.IsLegible := by
  have version : (Json.int d.version.toNat).IsLegible :=
    ⟨Int.natCast_nonneg _, by
      have small : d.version.toNat < Nat.pow 2 64 := d.version.toNat_lt.trans (by decide)
      exact_mod_cast small⟩
  have tags : AreLegible (d.metadata.tags.map Json.text) := areLegible_map fun s _ => trivial
  have connections : AreLegible (d.connections.map Connection.encode) :=
    areLegible_map fun c _ => ⟨trivial, trivial, trivial, trivial, trivial, trivial, trivial⟩
  have blocks : AreLegible (d.blocks.map Block.encode) :=
    areLegible_map fun b mem => Block.isLegible_encode fun x mem' =>
      h x (List.mem_flatMap.mpr ⟨b, mem, mem'⟩)
  refine ⟨trivial, trivial, trivial, version, blocks, connections, ?_, trivial⟩
  exact ⟨trivial, trivial, trivial, tags, trivial⟩

/-- A strategy is read as it was written. -/
theorem Definition.read_write {d : Definition} (numbers : ∀ x ∈ d.numbers, ReadsBack x)
    (created : d.metadata.createdAt.ReadsBack) (updated : d.metadata.updatedAt.ReadsBack) :
    read d.write = .ok d :=
  decodeText_of_reads (Definition.reads created updated) (by decide) (isLegible_encode numbers)

/-- A strategy with quotes, controls and letters beyond ASCII in its texts, and a property that has
no value. -/
def Definition.sketch : Definition where
  id := "s\n1"
  name := "\"Größe\" \\ 価格"
  description := "\x01\t\x7f"
  version := 4294967295
  blocks := [
    { id := "b"
      type := "threshold"
      category := .logic
      name := ""
      description := ""
      position := ⟨-120.5, 0.1⟩
      size := .usual
      inputs := [⟨"b:in:a", "A", .number, true⟩]
      outputs := []
      properties := [
        ⟨"limit", "Limit", .number, some (.number 1.5), true, some 0, some 1e300, []⟩,
        ⟨"side", "Side", .select, none, false, none, none, [⟨"Über", "above"⟩]⟩] }]
  connections := [⟨"c", "a", "a:out:price", "b", "b:in:a", .number⟩]
  metadata := ⟨⟨1735689600, 500000000⟩, ⟨1483228799, 1000000001⟩, "", ["\u2028"]⟩

/-- A document with a block, its numbers and two instants. -/
theorem Definition.read_write_sketch : (∀ x ∈ sketch.numbers, ReadsBack x)
    ∧ sketch.metadata.createdAt.ReadsBack ∧ sketch.metadata.updatedAt.ReadsBack
    ∧ read sketch.write = .ok sketch := by
  have numbers : ∀ x ∈ sketch.numbers, ReadsBack x := by decide +kernel
  have created : sketch.metadata.createdAt.ReadsBack :=
    Time.Instant.readsBack_of_isPlain ⟨by decide, by decide⟩
  have updated : sketch.metadata.updatedAt.ReadsBack :=
    Time.Instant.readsBack_of_isPlain ⟨by decide, by decide⟩
  exact ⟨numbers, created, updated, read_write numbers created updated⟩

end StrategyCanvas
