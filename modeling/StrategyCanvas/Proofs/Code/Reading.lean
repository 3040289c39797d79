import StrategyCanvas.Proofs.Code.Rendering
import StrategyCanvas.Proofs.Text.Whole

/-!
# Which connections a block reads

A rule finds its inputs by their slugs, and of the connections into an input the last one is read
(`Definition.IsRead`). What a block reads are exactly the wires of these connections
(`Emits.exists_connection`, `Emits.exists_wire`), and the expression of each stands whole in a line
of the update (`Emits.exists_statement`).
-/

namespace StrategyCanvas

/-- The slug of the input at which a connection arrives. -/
def Block.arrival? (b : Block) (c : Connection) : Option String :=
  (b.input? c.targetInputId).map (Text.slug ·.name)

/-- A connection is read by the block that it leads to: the rule of the block reads the input at
which the connection arrives, and no later connection arrives there. -/
def Definition.IsRead (d : Definition) (c : Connection) : Prop :=
  ∃ b ∈ d.blocks, b.id = c.targetBlockId ∧ ∃ type name, BlockType.ofTag? b.type = some type
    ∧ (Code.Rule.ofType type).Reads (.input name)
    ∧ (d.incoming b.id).reverse.find? (fun e => b.arrival? e = some (Text.slug name)) = some c

namespace Code

open Text

/-! ## Inputs of rules -/

/-- The input that a piece reads. -/
def Piece.input? : Piece → Option String
  | .input name | .inputOr name _ => some name
  | _ => none

theorem Piece.input?_of_mem_members {piece : Piece} {name : String}
    (h : .input name ∈ piece.members) : piece.input? = some name := by
  cases piece with
  | input other | inputOr other => simpa [members, input?, eq_comm] using h
  | text | property | output | state | blockId => simp [members] at h

theorem Piece.mem_members_of_input? {piece : Piece} {name : String}
    (h : piece.input? = some name) : .input name ∈ piece.members := by
  cases piece with
  | input other | inputOr other =>
    obtain rfl := Option.some.inj h
    simp [members]
  | text | property | output | state | blockId => contradiction

/-- A piece begins with a character that no identifier has, whatever the block. -/
def Piece.endsName : Piece → Bool
  | .text s => s.toList.head?.any fun c => !isIdentifierChar c
  | _ => false

/-- Behind every piece that reads an input, there is one that no identifier goes on with. -/
def keepsWhole (pieces : List Piece) : Bool :=
  pieces.tails.all fun
    | [] => true
    | piece :: rest => piece.input?.isNone || rest.head?.any (·.endsName)

namespace Rule

/-- The inputs that a rule asks for. -/
def inputs (r : Rule) : List String :=
  r.reads.filterMap fun
    | .input name => some name
    | _ => none

theorem keepsWhole_ofType (type : BlockType) :
    ∀ s ∈ (ofType type).update, ∀ pieces ∈ s.text?, keepsWhole pieces = true := by
  cases type <;> decide +kernel

/-- A rule asks for each input once. -/
theorem nodup_inputs (type : BlockType) : ((ofType type).inputs.map slug).Nodup := by
  cases type <;> decide +kernel

theorem mem_inputs_iff {type : BlockType} {name : String} :
    name ∈ (ofType type).inputs ↔ (ofType type).Reads (.input name) := by
  have asked : name ∈ (ofType type).inputs ↔ .input name ∈ (ofType type).reads := by
    unfold inputs
    rw [List.mem_filterMap]
    constructor
    · rintro ⟨m, mem, same⟩
      split at same
      · obtain rfl := Option.some.inj same
        exact mem
      · contradiction
    · exact fun mem => ⟨.input name, mem, rfl⟩
  have state : .input name ∉ (ofType type).stateMembers := by
    simp [stateMembers]
  rw [asked, ← mem_members_iff, members_eq, List.mem_append]
  exact (or_iff_right state).symm

/-- An input that a rule reads has its place in a line, and something behind it that no identifier
goes on with. -/
theorem exists_place {type : BlockType} {name : String} (h : (ofType type).Reads (.input name)) :
    ∃ s ∈ (ofType type).update, ∃ front piece back, s.text? = some (front ++ piece :: back)
      ∧ piece.input? = some name ∧ back.head?.any (·.endsName) = true := by
  rcases h with state | line
  · simp [stateMembers] at state
  · obtain ⟨pieces, written, mem⟩ := List.mem_flatMap.mp line
    obtain ⟨s, known, text⟩ := List.mem_filterMap.mp written
    obtain ⟨piece, placed, reads⟩ := List.mem_flatMap.mp mem
    have input := Piece.input?_of_mem_members reads
    obtain ⟨front, back, rfl⟩ := List.append_of_mem placed
    refine ⟨s, known, front, piece, back, text, input, ?_⟩
    -- the places behind the front are one of the tails that were looked at
    have behind : piece :: back ∈ (front ++ piece :: back).tails :=
      (List.mem_tails ..).mpr (List.suffix_append ..)
    have whole := List.all_eq_true.mp (keepsWhole_ofType type s known _ text) _ behind
    simpa [input] using whole

end Rule

/-! ## Lines -/

namespace BlockView

variable {v : BlockView} {w : Wire}

theorem render_of_source {piece : Piece} {name : String} {slot : InputSlot}
    (input : piece.input? = some name) (found : v.input? name = some slot)
    (source : slot.source = some w) : v.render piece = w.expr := by
  cases piece with
  | input other | inputOr other =>
    obtain rfl := Option.some.inj input
    simp only [render, readInput, found, source]
  | text | property | output | state | blockId => contradiction

theorem slug_of_source {name : String} {slot : InputSlot} (found : v.input? name = some slot)
    (source : slot.source = some w) : w.slug = slug name := by
  obtain ⟨port, -, rfl⟩ := Option.map_eq_some_iff.mp found
  simpa using List.find?_some source

/-- What is rendered in front of a character that no identifier has stands whole in the line. -/
theorem beginsWhole_line (v : BlockView) (front : List Piece) (piece : Piece) {back : List Piece}
    (ends : back.head?.any (·.endsName) = true) : ∃ before behind,
      (v.line (front ++ piece :: back)).toList = before ++ behind
        ∧ BeginsWhole (v.render piece).toList behind := by
  have line : (v.line (front ++ piece :: back)).toList = (v.line front).toList
      ++ ((v.render piece).toList ++ (v.line back).toList) := by
    simp only [BlockView.line, List.map_append, List.map_cons, String.join_append,
      String.join_cons, String.toList_append]
  refine ⟨_, _, line, (v.line back).toList, rfl, fun c first => ?_⟩
  cases back with
  | nil => contradiction
  | cons next rest =>
    cases next with
    | text s =>
      obtain ⟨a, here, other⟩ : ∃ a, s.toList.head? = some a ∧ (!isIdentifierChar a) = true :=
        (Option.any_eq_true ..).mp ends
      rw [BlockView.line, List.map_cons, String.join_cons, render, String.toList_append,
        List.head?_append, here] at first
      obtain rfl := Option.some.inj first
      simpa using other
    | property | input | inputOr | output | state | blockId => contradiction

/-! ## Reads -/

/-- A rule asks for the wires of its inputs. -/
theorem reads_eq (v : BlockView) (r : Rule) :
    (v.emission r).reads = r.inputs.filterMap fun name => v.wireOf? (.input name) := by
  rw [emission, Rule.inputs, List.filterMap_filterMap]
  refine List.filterMap_congr fun m _ => ?_
  cases m <;> rfl

/-- Of the wires into an input the last one is asked for. -/
theorem wireOf?_input {name : String} (h : v.has (.input name) = true) :
    v.wireOf? (.input name) = v.wires.reverse.find? (·.slug = slug name) := by
  obtain ⟨slot, found⟩ := Option.isSome_iff_exists.mp h
  obtain ⟨port, -, rfl⟩ := Option.map_eq_some_iff.mp found
  rw [wireOf?, found]
  rfl

variable (complete : ∀ m ∈ (Rule.ofType v.plan.type).members, v.has m = true)

include complete

theorem mem_reads_iff : w ∈ (v.emission (Rule.ofType v.plan.type)).reads
    ↔ ∃ name, (Rule.ofType v.plan.type).Reads (.input name)
      ∧ v.wires.reverse.find? (·.slug = slug name) = some w := by
  rw [reads_eq, List.mem_filterMap]
  refine exists_congr fun name => ?_
  rw [Rule.mem_inputs_iff]
  refine and_congr_right fun reads => ?_
  rw [wireOf?_input (complete _ (Rule.mem_members_iff.mpr reads))]

/-- No two wires of the same input are read. -/
theorem nodup_reads : ((v.emission (Rule.ofType v.plan.type)).reads.map (·.slug)).Nodup := by
  have distinct := Rule.nodup_inputs v.plan.type
  rw [List.Nodup, List.pairwise_map] at distinct
  rw [reads_eq, List.Nodup, List.pairwise_map]
  have slugs {name : String} (mem : name ∈ (Rule.ofType v.plan.type).inputs) {w : Wire}
      (found : w ∈ v.wireOf? (.input name)) : w.slug = slug name := by
    have asked := complete _ (Rule.mem_members_iff.mpr (Rule.mem_inputs_iff.mp mem))
    obtain ⟨slot, here⟩ := Option.isSome_iff_exists.mp asked
    rw [wireOf?, here] at found
    exact slug_of_source here found
  rw [List.pairwise_filterMap]
  refine distinct.imp_of_mem fun first second different w hw w' hw' same => different ?_
  rw [← slugs first hw, ← slugs second hw', same]

/-- The expression of a wire that is read stands whole in a line of the update. -/
theorem exists_statement_of_mem_reads (h : w ∈ (v.emission (Rule.ofType v.plan.type)).reads) :
    ∃ s ∈ (v.emission (Rule.ofType v.plan.type)).update, ∃ k,
      wholeOffset? w.expr.toList s.text.toList = some k := by
  obtain ⟨name, reads, found⟩ := (mem_reads_iff complete).mp h
  obtain ⟨stroke, known, front, piece, back, text, input, ends⟩ := Rule.exists_place reads
  have asked := complete _ (Rule.mem_members_iff.mpr reads)
  obtain ⟨slot, here⟩ := Option.isSome_iff_exists.mp asked
  have source : slot.source = some w := by
    have wire := wireOf?_input asked
    rwa [wireOf?, here, found] at wire
  obtain ⟨before, behind, line, whole⟩ := v.beginsWhole_line front piece ends
  rw [render_of_source input here source] at whole
  -- the line is the text of one of the statements
  have written : v.line (front ++ piece :: back)
      ∈ (v.emission (Rule.ofType v.plan.type)).update.map (·.text) := by
    rw [map_text_update]
    exact List.mem_map.mpr ⟨stroke, known, by rw [text]; rfl⟩
  obtain ⟨s, mem, same⟩ := List.mem_map.mp written
  refine ⟨s, mem, ?_⟩
  rw [same, line]
  exact exists_wholeOffset? before whole

end BlockView

/-! ## Connections -/

/-- Searches of lists that correspond find members that correspond. -/
theorem find?_of_forall₂ {α β : Type} {r : α → β → Prop} {f : α → Bool} {g : β → Bool}
    {as : List α} {bs : List β} (h : List.Forall₂ r as bs) (same : ∀ a b, r a b → f a = g b) :
    Option.Rel r (as.find? f) (bs.find? g) := by
  induction h with
  | nil => exact .none
  | cons here _ ih =>
    rw [List.find?_cons, List.find?_cons, same _ _ here]
    split
    · exact .some here
    · exact ih

variable {catalog : Catalog} {d : Definition} {plans : List BlockPlan} {p : BlockPlan}
  {e : Emission}

theorem Wire.Joins.arrival? {w : Wire} {b : Block} {c : Connection} {port : InputPort}
    {output : OutputField} (h : w.Joins plans b c port output) : b.arrival? c = some w.slug := by
  rw [Block.arrival?, h.input_found, h.slug]
  rfl

/-- The last connection that arrives at an input and the last wire into it belong together. -/
theorem rel_last_arrival {b : Block} {ws : List Wire} (h : List.Forall₂
      (fun c w => ∃ port output, w.Joins plans b c port output) (d.incoming b.id) ws)
    (name : String) : Option.Rel (fun c w => ∃ port output, w.Joins plans b c port output)
      ((d.incoming b.id).reverse.find? fun c => b.arrival? c = some (slug name))
      (ws.reverse.find? (·.slug = slug name)) := by
  refine find?_of_forall₂ (List.forall₂_reverse_iff.mpr h) ?_
  rintro c w ⟨port, output, joins⟩
  rw [joins.arrival?]
  simp

/-- The expression of a wire that is read stands whole in a statement. -/
theorem Emits.exists_statement (h : Emits d plans p e) {w : Wire} (mem : w ∈ e.reads) :
    ∃ s ∈ e.update, ∃ k, wholeOffset? w.expr.toList s.text.toList = some k := by
  obtain ⟨ws, -, emitted⟩ := h
  obtain ⟨complete, rfl⟩ := emit_eq_ok_iff.mp emitted
  exact BlockView.exists_statement_of_mem_reads complete mem

/-- No two wires of the same input are read. -/
theorem Emits.nodup_reads (h : Emits d plans p e) : (e.reads.map (·.slug)).Nodup := by
  obtain ⟨ws, -, emitted⟩ := h
  obtain ⟨complete, rfl⟩ := emit_eq_ok_iff.mp emitted
  exact BlockView.nodup_reads complete

section

variable (planned : Planned catalog plans d.blocks) (sound : d.IsSound) (known : p ∈ plans)
  (h : Emits d plans p e)

include planned sound known h

/-- A wire that is read is the wire of a connection that is read. -/
theorem Emits.exists_connection {w : Wire} (mem : w ∈ e.reads) : ∃ c ∈ d.incoming p.block.id,
    d.IsRead c ∧ ∃ port output, w.Joins plans p.block c port output := by
  obtain ⟨b, listed, isFor⟩ := planned.exists_isFor p known
  obtain ⟨ws, wired, emitted⟩ := h
  obtain ⟨complete, rfl⟩ := emit_eq_ok_iff.mp emitted
  obtain ⟨name, reads, found⟩ := (BlockView.mem_reads_iff complete).mp mem
  rw [isFor.block] at wired ⊢
  have last := rel_last_arrival (joins_of_wires planned sound listed wired) name
  rw [found] at last
  cases arrived : (d.incoming b.id).reverse.find? fun c => b.arrival? c = some (slug name) with
  | none =>
    rw [arrived] at last
    contradiction
  | some c =>
    rw [arrived] at last
    obtain ⟨joins⟩ := last
    have into : c ∈ d.incoming b.id := List.mem_reverse.mp (List.mem_of_find?_eq_some arrived)
    have target : c.targetBlockId = b.id := of_decide_eq_true (List.mem_filter.mp into).2
    exact ⟨c, into, ⟨b, listed, target.symm, p.type, name, isFor.type, reads, arrived⟩, joins⟩

/-- A connection that is read has a wire that is read. -/
theorem Emits.exists_wire {c : Connection} (read : d.IsRead c)
    (into : c.targetBlockId = p.block.id) :
    ∃ w ∈ e.reads, ∃ port output, w.Joins plans p.block c port output := by
  obtain ⟨b, listed, isFor⟩ := planned.exists_isFor p known
  obtain ⟨ws, wired, emitted⟩ := h
  obtain ⟨complete, rfl⟩ := emit_eq_ok_iff.mp emitted
  obtain ⟨other, listed', id, type, name, parsed, reads, arrived⟩ := read
  rw [isFor.block] at wired into ⊢
  -- the target of the connection is the block of the plan, and so are their types
  obtain rfl : other = b := List.inj_on_of_nodup_map sound.distinct.1 listed' listed (id.trans into)
  rw [isFor.type] at parsed
  obtain rfl := Option.some.inj parsed
  have last := rel_last_arrival (joins_of_wires planned sound listed wired) name
  rw [arrived] at last
  cases found : ws.reverse.find? (·.slug = slug name) with
  | none =>
    rw [found] at last
    contradiction
  | some w =>
    rw [found] at last
    obtain ⟨joins⟩ := last
    exact ⟨w, (BlockView.mem_reads_iff complete).mpr ⟨name, reads, found⟩, joins⟩

end

end Code

end StrategyCanvas
