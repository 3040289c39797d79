import StrategyCanvas.Proofs.Code.Arrangement
import StrategyCanvas.Proofs.Code.Naming
import StrategyCanvas.Proofs.Code.Sheet

/-!
# What rules render to

The rules are tidy: their own texts stand on one line, and every line of an update begins with such
a text or with a field (`Rule.isTidy_ofType`). What goes in between is a name, a number, a quoted
text or an expression, so that a tidy rule gives tidy lines for every block, whatever texts the
block brings (`Emits.isTidy`).
-/

namespace StrategyCanvas.Code

open Text

/-! ## Tidy rules -/

/-- A piece brings no line feed of its own. -/
def Piece.isOneLine : Piece → Bool
  | .text s => decide (IsOneLine s)
  | _ => true

/-- A piece begins with a character that is not a space, whatever the block. -/
def Piece.isSolid : Piece → Bool
  | .text s => beginsSolid s
  | .output _ | .state => true
  | _ => false

/-- A piece of the code of a state brings no line feed of its own. -/
def StatePiece.isOneLine : StatePiece → Bool
  | .text s => decide (IsOneLine s)
  | .property _ => true

/-- The type of a state is written on one line, and so is the code that makes it. -/
def StateRule.isTidy (s : StateRule) : Bool :=
  decide (IsOneLine s.type) && s.make.all (·.isOneLine)

/-- The pieces stand on one line, the first of them at its beginning. -/
def isTidyLine (pieces : List Piece) : Bool :=
  pieces.head?.any (·.isSolid) && pieces.all (·.isOneLine)

/-- The texts of a rule are fit for lines of code; none of its lines is blank. -/
def Rule.isTidy (r : Rule) : Bool :=
  r.state.all (·.isTidy) && r.update.all fun s => s.text?.any isTidyLine

/-- All lines of all rules are tidy. -/
theorem Rule.isTidy_ofType (type : BlockType) : (ofType type).isTidy = true := by
  cases type <;> decide +kernel

/-! ## Rendering -/

/-- What a block brings to a line is fit for it: its fields have names, and its wires expressions,
on one line. -/
structure BlockView.IsTidy (v : BlockView) : Prop where
  named : v.plan.IsNamed
  wires : ∀ w ∈ v.wires, IsOneLine w.expr

namespace BlockView

variable {v : BlockView}

/-- A property is read on one line. -/
theorem isOneLine_readProperty (h : v.IsTidy) (name : String) :
    IsOneLine (v.readProperty name) := by
  unfold readProperty
  cases found : v.param? name with
  | none => decide
  | some p => exact p.isOneLine_read (h.named.isWord_param (List.mem_of_find?_eq_some found))

theorem isOneLine_literal (v : BlockView) (name : String) : IsOneLine (v.literal name) := by
  unfold literal
  cases v.param? name with
  | none => decide
  | some p => exact p.isOneLine_literal

/-- The source of an input is one of the wires of the block. -/
theorem mem_wires_of_source {name : String} {slot : InputSlot} {w : Wire}
    (found : v.input? name = some slot) (source : slot.source = some w) : w ∈ v.wires := by
  obtain ⟨port, -, rfl⟩ := Option.map_eq_some_iff.mp found
  exact List.mem_reverse.mp (List.mem_of_find?_eq_some source)

/-- What an input reads is a wire, something that depends on its kind, or nothing. -/
theorem readInput_elim {P : String → Prop} (name : String) {otherwise : DataKind → String}
    (wires : ∀ w ∈ v.wires, P w.expr) (other : ∀ kind, P (otherwise kind)) (nothing : P "") :
    P (v.readInput name otherwise) := by
  unfold readInput
  split
  · rename_i slot found
    split
    · rename_i w source
      exact wires w (mem_wires_of_source found source)
    · exact other slot.kind
  · exact nothing

/-- An input is read on one line. -/
theorem isOneLine_readInput (h : v.IsTidy) (name : String) {otherwise : DataKind → String}
    (other : ∀ kind, IsOneLine (otherwise kind)) : IsOneLine (v.readInput name otherwise) :=
  readInput_elim name h.wires other (by decide)

/-- The state has the name of a field. -/
theorem isFieldName_stateName (h : v.IsTidy) : IsFieldName 's' v.stateName :=
  ⟨by decide, v.plan.handle.toList, by simp [stateName], h.named.handle⟩

/-- Whatever a block brings to a line is on one line. -/
theorem isOneLine_render (h : v.IsTidy) {piece : Piece} (clean : piece.isOneLine = true) :
    IsOneLine (v.render piece) := by
  cases piece with
  | text s => exact of_decide_eq_true clean
  | property name => exact isOneLine_readProperty h name
  | input name => exact isOneLine_readInput h name isOneLine_fallback
  | inputOr name other =>
    exact isOneLine_readInput h name fun _ => isOneLine_readProperty h other
  | output name =>
    refine isOneLine_append.mpr ⟨by decide, ?_⟩
    cases found : v.output? name with
    | none => decide
    | some o => exact (h.named.isWord_output (List.mem_of_find?_eq_some found)).isOneLine
  | state => exact isOneLine_append.mpr ⟨by decide, (isFieldName_stateName h).isWord.isOneLine⟩
  | blockId => exact isOneLine_quote _

/-- A piece at the front of a line does not begin with a space. -/
theorem beginsSolid_render {piece : Piece} (solid : piece.isSolid = true) :
    beginsSolid (v.render piece) = true := by
  cases piece with
  | text s => exact solid
  | output name => exact beginsSolid_append (by decide) _
  | state => exact beginsSolid_append (by decide) _
  | property | input | inputOr | blockId => contradiction

/-- The line of a block for the pieces of a line of its rule. -/
def line (v : BlockView) (pieces : List Piece) : String := String.join (pieces.map v.render)

/-- Every line of a rule is a line of code, whatever the block brings to it. -/
theorem isCodeLine_line (h : v.IsTidy) {pieces : List Piece} (tidy : isTidyLine pieces = true) :
    IsCodeLine (v.line pieces) := by
  obtain ⟨first, clean⟩ := Bool.and_eq_true_iff.mp tidy
  constructor
  · refine isOneLine_join ?_
    rw [List.forall_mem_map]
    exact fun piece mem => isOneLine_render h (List.all_eq_true.mp clean piece mem)
  · cases pieces with
    | nil => contradiction
    | cons piece rest =>
      rw [line, List.map_cons, String.join_cons]
      exact beginsSolid_append (beginsSolid_render first) _

/-- A state is made on one line. -/
theorem isOneLine_renderState {value : String → String} (values : ∀ name, IsOneLine (value name))
    {make : List StatePiece} (clean : make.all (·.isOneLine) = true) :
    IsOneLine (renderState value make) := by
  refine isOneLine_join ?_
  rw [List.forall_mem_map]
  intro piece mem
  have here := List.all_eq_true.mp clean piece mem
  cases piece with
  | text s => exact of_decide_eq_true here
  | property name => exact values name

/-- The texts of an update are the lines of its rule, with the pieces of the block in place. -/
theorem map_text_update (v : BlockView) (r : Rule) : (v.emission r).update.map (·.text)
    = r.update.map fun s => (s.text?.map v.line).getD "" := by
  have texts (strokes : List (Stroke String)) :
      (statements strokes).map (·.text) = strokes.map (·.text?.getD "") := by
    have laid : (lay 1 0 0 strokes).map LaidLine.text = strokes.map (·.text?.getD "") :=
      map_text_lay
    rw [statements, List.map_map, ← laid]
    rfl
  rw [emission, texts, List.map_map]
  refine List.map_congr_left fun s _ => ?_
  cases s <;> rfl

end BlockView

/-! ## Tidy emissions -/

/-- A field of a state that is fit for lines of code. -/
structure StateField.IsTidy (s : StateField) : Prop where
  field : IsFieldName 's' s.field
  type : IsOneLine s.type
  initializer : IsOneLine s.initializer
  reset : IsOneLine s.reset

/-- What is emitted for a block is fit for lines of code. -/
structure Emission.IsTidy (e : Emission) : Prop where
  named : e.plan.IsNamed
  type : IsOneLine e.plan.block.type
  state : ∀ s ∈ e.state, s.IsTidy
  update : ∀ s ∈ e.update, IsCodeLine s.text

/-- A state has a name, and a type and values on one line. -/
theorem BlockView.isTidy_stateField {v : BlockView} (h : v.IsTidy) {s : StateRule}
    (tidy : s.isTidy = true) : (v.stateField s).IsTidy := by
  obtain ⟨type, make⟩ := Bool.and_eq_true_iff.mp tidy
  exact ⟨isFieldName_stateName h, of_decide_eq_true type,
    isOneLine_renderState v.isOneLine_literal make,
    isOneLine_renderState (isOneLine_readProperty h) make⟩

/-- Tidy rules make tidy emissions. -/
theorem BlockView.isTidy_emission {v : BlockView} (h : v.IsTidy)
    (type : IsOneLine v.plan.block.type) {r : Rule} (tidy : r.isTidy = true) :
    (v.emission r).IsTidy := by
  obtain ⟨state, update⟩ := Bool.and_eq_true_iff.mp tidy
  refine ⟨h.named, type, fun s mem => ?_, fun s mem => ?_⟩
  · obtain ⟨rule, given, rfl⟩ := Option.map_eq_some_iff.mp mem
    exact isTidy_stateField h (by simpa [given] using state)
  · have text := List.mem_map_of_mem (f := Statement.text) mem
    rw [map_text_update] at text
    obtain ⟨stroke, known, same⟩ := List.mem_map.mp text
    have line := List.all_eq_true.mp update stroke known
    rw [← same]
    cases pieces : stroke.text? with
    | none => simp [pieces] at line
    | some pieces => exact isCodeLine_line h (by simpa [pieces] using line)

/-- The tags that stand for types are on one line. -/
theorem isOneLine_of_ofTag? {tag : String} {type : BlockType}
    (h : BlockType.ofTag? tag = some type) : IsOneLine tag := by
  have tags : ∀ entry ∈ BlockType.tags, IsOneLine entry.1 := by decide +kernel
  obtain ⟨front, back, split, -⟩ := List.lookup_eq_some_iff.mp h
  exact tags (tag, type) (by simp [split])

variable {catalog : Catalog} {d : Definition} {plans : List BlockPlan}

/-- A wire reads the output field of a plan. -/
def Wire.ReadsOutput (w : Wire) (plans : List BlockPlan) : Prop :=
  ∃ p ∈ plans, ∃ o ∈ p.outputs, ∃ target, convert? o.field o.kind target = some w.expr

/-- A wire reads the output that its connection comes from. -/
theorem Wire.Joins.readsOutput {w : Wire} {b : Block} {c : Connection} {port : InputPort}
    {output : OutputField} (h : w.Joins plans b c port output) : w.ReadsOutput plans := by
  have field := List.mem_reverse.mp (List.mem_of_find?_eq_some h.output_found)
  obtain ⟨p, known, listed⟩ := List.mem_flatMap.mp field
  exact ⟨p, known, output, listed, port.dataKind, h.converted⟩

/-- A wire is read on one line, through the field of an output. -/
theorem Wire.ReadsOutput.isOneLine {w : Wire} (h : w.ReadsOutput plans)
    (named : ∀ p ∈ plans, p.IsNamed) : IsOneLine w.expr := by
  obtain ⟨p, known, o, listed, target, converted⟩ := h
  exact isOneLine_of_convert? ((named p known).isWord_output listed) converted

/-- What is seen of a block when it is emitted: its plan, wires that read outputs, and all the
members that its rule asks for. -/
structure BlockView.Emits (v : BlockView) (plans : List BlockPlan) (p : BlockPlan) (e : Emission) :
    Prop where
  plan : v.plan = p
  wires : ∀ w ∈ v.wires, w.ReadsOutput plans
  complete : ∀ m ∈ (Rule.ofType p.type).members, v.has m = true
  emission : e = v.emission (Rule.ofType p.type)

/-- What is emitted for a planned block is emitted for its view. -/
theorem emits_view (planned : Planned catalog plans d.blocks) (sound : d.IsSound) {p : BlockPlan}
    (known : p ∈ plans) {ws : List Wire}
    (wired : wires plans p.block (d.incoming p.block.id) = .ok ws) {e : Emission}
    (emitted : emit ⟨p, ws⟩ = .ok e) : (BlockView.mk p ws).Emits plans p e := by
  obtain ⟨b, mem, isFor⟩ := planned.exists_isFor p known
  rw [isFor.block] at wired
  obtain ⟨complete, emission⟩ := emit_eq_ok_iff.mp emitted
  refine ⟨rfl, fun w hw => ?_, complete, emission⟩
  obtain ⟨c, -, port, output, joins⟩ :=
    exists_of_forall₂ (joins_of_wires planned sound mem wired) w hw
  exact joins.readsOutput

/-- Whatever is emitted for a block is emitted for a view of it. -/
theorem Emits.exists_view (planned : Planned catalog plans d.blocks) (sound : d.IsSound)
    {p : BlockPlan} (known : p ∈ plans) {e : Emission} (h : Emits d plans p e) :
    ∃ v : BlockView, v.Emits plans p e := by
  obtain ⟨ws, wired, emitted⟩ := h
  exact ⟨⟨p, ws⟩, emits_view planned sound known wired emitted⟩

/-- The view of a block of a compiled strategy is tidy. -/
theorem BlockView.Emits.isTidy_view {v : BlockView} {p : BlockPlan} {e : Emission}
    (h : v.Emits plans p e) (named : ∀ p ∈ plans, p.IsNamed) (known : p ∈ plans) : v.IsTidy := by
  refine ⟨?_, fun w mem => (h.wires w mem).isOneLine named⟩
  rw [h.plan]
  exact named p known

/-- Whatever a sound strategy contains, what its blocks emit is tidy. -/
theorem Emits.isTidy (planned : Planned catalog plans d.blocks) (named : ∀ p ∈ plans, p.IsNamed)
    (sound : d.IsSound) {p : BlockPlan} (known : p ∈ plans) {e : Emission} (h : Emits d plans p e) :
    e.IsTidy := by
  obtain ⟨v, view⟩ := h.exists_view planned sound known
  obtain ⟨b, -, isFor⟩ := planned.exists_isFor p known
  rw [view.emission]
  refine BlockView.isTidy_emission (view.isTidy_view named known) ?_ (Rule.isTidy_ofType _)
  rw [view.plan, isFor.block]
  exact isOneLine_of_ofTag? isFor.type

end StrategyCanvas.Code
