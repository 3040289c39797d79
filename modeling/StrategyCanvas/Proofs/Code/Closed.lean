import StrategyCanvas.Proofs.Code.Entries
import StrategyCanvas.Proofs.Text.FieldPath

/-!
# Code refers to its own fields only

Given the fields of a program, every line of it is closed: a field path outside comments and
literals is complete and names one of these fields. The rules are checked once, with places for what
a block brings (`Rule.isSpaced_ofType`); what a block brings are paths of its own fields, wires,
numbers and quoted texts, whatever the texts of the block are.
-/

namespace StrategyCanvas.Code

open Text

variable {fields : List String}

/-! ## Fields -/

/-- The path of a known field is closed. -/
theorem IsFieldName.isClosed_path {letter : Char} {f : String} (h : IsFieldName letter f)
    (known : f ∈ fields) : IsClosed fields ("self." ++ f) :=
  Text.isClosed_path h.isWord h.ne_empty h.ne_self known

/-- The name of a field alone is no path of one. -/
theorem IsFieldName.isClosed {letter : Char} {f : String} (h : IsFieldName letter f) :
    IsClosed fields f :=
  isClosed_of_isWord h.isWord h.ne_self

/-- No field is read in a number, in whatever way it is written. -/
theorem isClosed_numberLiteral (x : Float) : IsClosed fields (numberLiteral x) := by
  unfold numberLiteral
  split
  · exact isClosed_of_isFixed (by decide)
  · exact isClosed_of_isFixed (by decide)
  · exact isClosed_of_isFixed (by decide)
  · refine isClosed_of_forall_isNumeralChar ?_
    rw [String.toList_ofList]
    exact Decimal.Layout.isNumeralChar_of_mem_finiteText _

theorem ParamKind.isClosed_type (k : ParamKind) : IsClosed fields k.type := by
  cases k <;> exact isClosed_of_isFixed (by decide)

namespace Param

theorem isClosed_literal (p : Param) : IsClosed fields p.literal := by
  unfold literal
  split
  · exact isClosed_numberLiteral _
  · exact isClosed_quote _
  · cases (p.value.bind (·.boolean?)).getD false <;> exact isClosed_of_isFixed (by decide)

/-- What a parameter starts with is a literal, so that no text in it is taken for a path. -/
theorem isClosed_initializer (p : Param) : IsClosed fields p.initializer := by
  unfold initializer
  split
  · exact p.isClosed_literal.ended (by decide) (by decide)
  · exact p.isClosed_literal

variable {p : Param}

/-- The value that a block reads is the path of the field, possibly borrowed. -/
theorem isClosed_read (h : IsClosed fields ("self." ++ p.field)) : IsClosed fields p.read := by
  unfold read
  split
  · have front : "&self." ++ p.field = "&" ++ ("self." ++ p.field) := by
      rw [← String.append_assoc]
      rfl
    rw [front]
    exact h.behind (by decide) (by decide)
  · exact h

/-- The value that is given out has the path of the field in it and no other. -/
theorem isClosed_getter (h : IsClosed fields ("self." ++ p.field)) : IsClosed fields p.getter := by
  unfold getter
  split
  · have parts : "ParamValue::Text(self." ++ p.field ++ ".clone())"
        = "ParamValue::Text(" ++ ("self." ++ p.field) ++ ".clone())" := by
      rw [← String.append_assoc]
      rfl
    rw [parts]
    exact (h.behind (by decide) (by decide)).ended (by decide) (by decide)
  · have parts : "ParamValue::" ++ p.kind.variant ++ "(self." ++ p.field ++ ")"
        = "ParamValue::" ++ p.kind.variant ++ "(" ++ ("self." ++ p.field) ++ ")" := by
      have inner (t : String) : "(self." ++ t = "(" ++ ("self." ++ t) := by
        rw [← String.append_assoc]
        rfl
      simp only [String.append_assoc, inner]
    have variant : IsClosed fields p.kind.variant := by
      cases p.kind <;> exact isClosed_of_isFixed (by decide)
    rw [parts]
    exact ((variant.behind (by decide) (by decide)).join (by decide) h).ended (by decide)
      (by decide)

/-- A value is stored in the field of the parameter and in no other. -/
theorem isClosed_setter (h : IsClosed fields ("self." ++ p.field)) : IsClosed fields p.setter := by
  have accessor : IsClosed fields p.kind.accessor := by
    cases p.kind <;> exact isClosed_of_isFixed (by decide)
  exact (h.join (by decide) accessor).ended (by decide) (by decide)

end Param

theorem OutputField.isClosed_type (o : OutputField) : IsClosed fields o.type := by
  unfold OutputField.type
  cases o.kind <;> exact isClosed_of_isFixed (by decide)

theorem isClosed_defaultValue (kind : DataKind) : IsClosed fields (defaultValue kind) := by
  cases kind <;> exact isClosed_of_isFixed (by decide)

theorem isClosed_fallback (kind : DataKind) : IsClosed fields (fallback kind) := by
  cases kind <;> exact isClosed_of_isFixed (by decide)

/-- A conversion refers to the field that it converts and to no other. -/
theorem isClosed_of_convert? {field expr : String} {source target : DataKind}
    (h : IsClosed fields ("self." ++ field))
    (converted : convert? field source target = some expr) : IsClosed fields expr := by
  rcases eq_of_convert? converted with
    ⟨-, rfl⟩ | ⟨-, rfl⟩ | ⟨name, argument, ⟨word, other, -⟩, given, rfl⟩
  · exact h
  · exact h.ended (by decide) (by decide)
  · have inside : IsClosed fields argument := by
      rcases given with rfl | rfl
      · exact h
      · exact h.behind (by decide) (by decide)
    have called : IsClosed fields ("convert::" ++ name) :=
      (isClosed_of_isWord word other).behind (by decide) (by decide)
    exact (called.join (by decide) inside).ended (by decide) (by decide)

/-! ## Rules -/

/-- The text of a piece that is the same for all blocks. -/
def Piece.fixed? : Piece → Option (List Char)
  | .text s => some s.toList
  | _ => none

/-- The text of a piece of the code of a state that is the same for all blocks. -/
def StatePiece.fixed? : StatePiece → Option (List Char)
  | .text s => some s.toList
  | .property _ => none

/-- The fixed texts of a rule keep apart what a block brings, and the state is written only if there
is one. -/
def Rule.isSpaced (r : Rule) : Bool :=
  r.state.all (fun s => isFixed s.type.toList && Text.isSpaced (s.make.map (·.fixed?)))
    && r.update.all fun s => s.text?.all fun pieces =>
      Text.isSpaced (pieces.map (·.fixed?)) && (r.state.isSome || !pieces.contains .state)

/-- All rules keep what a block brings apart. -/
theorem Rule.isSpaced_ofType (type : BlockType) : (ofType type).isSpaced = true := by
  cases type <;> decide +kernel

/-- What a piece of a line reads, its rule reads. -/
theorem Rule.reads_of_mem {r : Rule} {s : Stroke (List Piece)} {pieces : List Piece}
    {piece : Piece} {m : Member} (known : s ∈ r.update) (text : s.text? = some pieces)
    (mem : piece ∈ pieces) (read : m ∈ piece.members) : r.Reads m :=
  .inr (List.mem_flatMap.mpr ⟨pieces, List.mem_filterMap.mpr ⟨s, known, text⟩,
    List.mem_flatMap.mpr ⟨piece, mem, read⟩⟩)

/-! ## Blocks -/

/-- What a block brings to its rule: all that the rule reads, fields that are known, and closed
wires. -/
structure BlockView.IsKnown (v : BlockView) (r : Rule) (fields : List String) : Prop where
  tidy : v.IsTidy
  complete : ∀ m, r.Reads m → v.has m = true
  known : ∀ f ∈ v.plan.fields, f ∈ fields
  state : r.state.isSome = true → v.stateName ∈ fields
  wires : ∀ w ∈ v.wires, IsClosed fields w.expr

namespace BlockView

variable {v : BlockView} {r : Rule}

/-- The fields of the parameters of a block are known. -/
theorem IsKnown.isClosed_param (h : v.IsKnown r fields) {p : Param} (mem : p ∈ v.plan.params) :
    IsClosed fields ("self." ++ p.field) := by
  have field : p.field ∈ v.plan.fields := List.mem_append_left _ (List.mem_map_of_mem mem)
  obtain ⟨_, name⟩ := h.tidy.named.exists_letter field
  exact name.isClosed_path (h.known _ field)

/-- The fields of the outputs of a block are known. -/
theorem IsKnown.isClosed_output (h : v.IsKnown r fields) {o : OutputField}
    (mem : o ∈ v.plan.outputs) : IsClosed fields ("self." ++ o.field) := by
  have field : o.field ∈ v.plan.fields := List.mem_append_right _ (List.mem_map_of_mem mem)
  obtain ⟨_, name⟩ := h.tidy.named.exists_letter field
  exact name.isClosed_path (h.known _ field)

theorem isClosed_literal (v : BlockView) (name : String) : IsClosed fields (v.literal name) := by
  unfold literal
  cases v.param? name with
  | none => exact isClosed_empty
  | some p => exact p.isClosed_literal

/-- A property is read through a known field, or there is nothing to read. -/
theorem isClosed_readProperty (h : v.IsKnown r fields) (name : String) :
    IsClosed fields (v.readProperty name) := by
  unfold readProperty
  cases found : v.param? name with
  | none => exact isClosed_empty
  | some p => exact p.isClosed_read (h.isClosed_param (List.mem_of_find?_eq_some found))

/-- An input is read through a known field, or what stands for it refers to none. -/
theorem isClosed_readInput (h : v.IsKnown r fields) (name : String) {otherwise : DataKind → String}
    (other : ∀ kind, IsClosed fields (otherwise kind)) :
    IsClosed fields (v.readInput name otherwise) :=
  readInput_elim name h.wires other isClosed_empty

/-- A piece that a block brings is closed if the block has what the piece reads. -/
theorem isClosed_render (h : v.IsKnown r fields) {piece : Piece} (given : piece.fixed? = none)
    (state : piece = .state → r.state.isSome = true)
    (read : ∀ m ∈ piece.members, v.has m = true) : IsClosed fields (v.render piece) := by
  cases piece with
  | text s => contradiction
  | property name => exact isClosed_readProperty h name
  | input name =>
    exact isClosed_readInput h name isClosed_fallback
  | inputOr name other => exact isClosed_readInput h name fun _ => isClosed_readProperty h other
  | output name =>
    obtain ⟨o, found⟩ := Option.isSome_iff_exists.mp (read (.output name) List.mem_cons_self)
    rw [render, found]
    exact h.isClosed_output (List.mem_of_find?_eq_some found)
  | state => exact (isFieldName_stateName h.tidy).isClosed_path (h.state (state rfl))
  | blockId => exact isClosed_quote _

theorem render_of_fixed? (v : BlockView) (piece : Piece) (cs : List Char)
    (fixed : piece.fixed? = some cs) : v.render piece = String.ofList cs := by
  cases piece with
  | text s => simp [← Option.some.inj fixed, render]
  | property | input | inputOr | output | state | blockId => contradiction

section

variable {s : Stroke (List Piece)} {pieces : List Piece}

/-- What a block brings to a line of its rule is closed. -/
theorem isClosed_given (h : v.IsKnown r fields) (spaced : r.isSpaced = true) (known : s ∈ r.update)
    (text : s.text? = some pieces) : Text.isSpaced (pieces.map (·.fixed?)) = true
      ∧ ∀ piece ∈ pieces, piece.fixed? = none → IsClosed fields (v.render piece) := by
  have all := List.all_eq_true.mp (Bool.and_eq_true_iff.mp spaced).2 s known
  rw [text, Option.all_some, Bool.and_eq_true, Bool.or_eq_true] at all
  refine ⟨all.1, fun piece mem given => isClosed_render h given (fun same => ?_) fun m read =>
    h.complete m (Rule.reads_of_mem known text mem read)⟩
  refine all.2.resolve_right fun absent => ?_
  simp [← same, mem] at absent

/-- A line of a rule is closed, as the fixed texts keep its other pieces apart. -/
theorem isClosed_line (h : v.IsKnown r fields) (spaced : r.isSpaced = true) (known : s ∈ r.update)
    (text : s.text? = some pieces) : IsClosed fields (v.line pieces) := by
  obtain ⟨apart, given⟩ := isClosed_given h spaced known text
  exact isClosed_join apart v.render_of_fixed? given

end

/-- The text of a piece of the code that makes a state. -/
def renderStatePiece (value : String → String) : StatePiece → String
  | .text s => s
  | .property name => value name

theorem renderStatePiece_of_fixed? (value : String → String) (piece : StatePiece) (cs : List Char)
    (fixed : piece.fixed? = some cs) : renderStatePiece value piece = String.ofList cs := by
  cases piece with
  | text s => simp [← Option.some.inj fixed, renderStatePiece]
  | property => contradiction

/-- The code that makes a state is put together piece by piece. -/
theorem renderState_eq (value : String → String) (make : List StatePiece) :
    renderState value make = String.join (make.map (renderStatePiece value)) := by
  refine congrArg String.join (List.map_congr_left fun piece _ => ?_)
  cases piece <;> rfl

theorem isClosed_renderStatePiece {value : String → String}
    (values : ∀ name, IsClosed fields (value name)) (piece : StatePiece)
    (given : piece.fixed? = none) : IsClosed fields (renderStatePiece value piece) := by
  cases piece with
  | text => contradiction
  | property name => exact values name

/-- The code that makes a state is closed if the values of the properties are. -/
theorem isClosed_renderState {value : String → String}
    (values : ∀ name, IsClosed fields (value name)) {make : List StatePiece}
    (spaced : Text.isSpaced (make.map (·.fixed?)) = true) :
    IsClosed fields (renderState value make) := by
  rw [renderState_eq]
  exact isClosed_join spaced (renderStatePiece_of_fixed? value) fun piece _ =>
    isClosed_renderStatePiece values piece

end BlockView

/-- What is emitted for a block is closed, and its fields are known. -/
structure Emission.IsClosed (e : Emission) (fields : List String) : Prop where
  tidy : e.IsTidy
  known : ∀ r ∈ e.rows, r.name ∈ fields
  state : ∀ s ∈ e.state, Text.IsClosed fields s.type ∧ Text.IsClosed fields s.initializer
    ∧ Text.IsClosed fields s.reset
  update : ∀ s ∈ e.update, Text.IsClosed fields s.text

/-- Everything that is emitted for a block is closed if its fields are known. -/
theorem BlockView.isClosed_emission {v : BlockView} {r : Rule} (h : v.IsKnown r fields)
    (tidy : (v.emission r).IsTidy) (spaced : r.isSpaced = true) :
    (v.emission r).IsClosed fields := by
  refine ⟨tidy, ?_, fun s mem => ?_, fun s mem => ?_⟩
  · simp only [Emission.rows, List.forall_mem_append, List.forall_mem_map, Option.mem_toList]
    refine ⟨⟨fun p mem => ?_, fun s mem => ?_⟩, fun o mem => ?_⟩
    · exact h.known _ (List.mem_append_left _ (List.mem_map_of_mem mem))
    · obtain ⟨rule, given, rfl⟩ := Option.map_eq_some_iff.mp mem
      exact h.state (by simp [given])
    · exact h.known _ (List.mem_append_right _ (List.mem_map_of_mem mem))
  · obtain ⟨rule, given, rfl⟩ := Option.map_eq_some_iff.mp mem
    have checked := (Bool.and_eq_true_iff.mp spaced).1
    rw [given, Option.all_some, Bool.and_eq_true] at checked
    have type : Text.IsClosed fields rule.type := by
      simpa using (isClosed_of_isFixed checked.1 : Text.IsClosed fields (String.ofList _))
    exact ⟨type, isClosed_renderState v.isClosed_literal checked.2,
      isClosed_renderState (isClosed_readProperty h) checked.2⟩
  · have text := List.mem_map_of_mem (f := Statement.text) mem
    rw [map_text_update] at text
    obtain ⟨stroke, known, same⟩ := List.mem_map.mp text
    rw [← same]
    cases pieces : stroke.text? with
    | none => exact isClosed_empty
    | some pieces => exact isClosed_line h spaced known pieces

/-! ## Entries -/

namespace Emission

variable {e : Emission}

/-- A comment on one line hides whatever stands in it. -/
theorem isClosedLine_comment (h : e.IsTidy) : IsClosedLine fields e.comment :=
  Text.isClosedLine_comment h.comment.isOneLine (by simp [comment])

/-- The name, the type and the initial value of every field of the block are closed. -/
theorem IsClosed.rows (h : e.IsClosed fields) : ∀ r ∈ e.rows, Text.IsClosed fields r.name
    ∧ Text.IsClosed fields r.type ∧ Text.IsClosed fields r.initializer := by
  have named (r : FieldRow) (mem : r ∈ e.rows) : Text.IsClosed fields r.name := by
    obtain ⟨⟨_, name⟩, -⟩ := h.tidy.rows r mem
    exact name.isClosed
  refine fun r mem => ⟨named r mem, ?_⟩
  clear named
  revert r
  simp only [Emission.rows, List.forall_mem_append, List.forall_mem_map, Option.mem_toList]
  refine ⟨⟨fun p _ => ?_, fun s mem => ?_⟩, fun o _ => ?_⟩
  · exact ⟨p.kind.isClosed_type, p.isClosed_initializer⟩
  · exact ⟨(h.state s mem).1, (h.state s mem).2.1⟩
  · exact ⟨o.isClosed_type, isClosed_defaultValue o.kind⟩

/-- The assignment of a closed value to a field. -/
theorem isClosed_assignment {a : Assignment} (field : Text.IsClosed fields ("self." ++ a.field))
    (value : Text.IsClosed fields a.value) : Text.IsClosed fields a.text :=
  (field.join (by decide) value).ended (by decide) (by decide)

/-- The fields of the block are known. -/
theorem IsClosed.path (h : e.IsClosed fields) {r : FieldRow} (mem : r ∈ e.rows) :
    Text.IsClosed fields ("self." ++ r.name) := by
  obtain ⟨⟨_, name⟩, -⟩ := h.tidy.rows r mem
  exact name.isClosed_path (h.known r mem)

theorem IsClosed.param_path (h : e.IsClosed fields) {p : Param} (mem : p ∈ e.plan.params) :
    Text.IsClosed fields ("self." ++ p.field) := by
  have row : ⟨p.field, p.kind.type, p.initializer, .parameter⟩ ∈ e.rows :=
    List.mem_append_left _ (List.mem_append_left _ (List.mem_map_of_mem mem))
  exact h.path row

/-- A reset assigns closed values. -/
theorem IsClosed.reset_value (h : e.IsClosed fields) :
    ∀ a ∈ e.resets, Text.IsClosed fields a.value := by
  simp only [Emission.resets, List.forall_mem_append, List.forall_mem_map, Option.mem_toList]
  exact ⟨fun s mem => (h.state s mem).2.2, fun o _ => isClosed_defaultValue o.kind⟩

/-- A reset assigns these values to fields that are known. -/
theorem IsClosed.resets (h : e.IsClosed fields) :
    ∀ a ∈ e.resets, Text.IsClosed fields a.text := by
  simp only [Emission.resets, List.forall_mem_append, List.forall_mem_map, Option.mem_toList]
  refine ⟨fun s mem => ?_, fun o mem => ?_⟩
  · have row : ⟨s.field, s.type, s.initializer, .state⟩ ∈ e.rows :=
      List.mem_append_left _ (List.mem_append_right _
        (List.mem_map_of_mem (Option.mem_toList.mpr mem)))
    exact isClosed_assignment (h.path row) (h.state s mem).2.2
  · have row : ⟨o.field, o.type, defaultValue o.kind, .state⟩ ∈ e.rows :=
      List.mem_append_right _ (List.mem_map_of_mem mem)
    exact isClosed_assignment (h.path row) (isClosed_defaultValue o.kind)

/-- What makes a state anew is the assignment of the reset. -/
theorem IsClosed.rebuild (h : e.IsClosed fields) {p : Param} {a : Assignment}
    (made : e.rebuild? p = some a) : Text.IsClosed fields a.text := by
  obtain ⟨s, kept, rfl⟩ := Option.map_eq_some_iff.mp made
  have state := (Option.filter_eq_some_iff.mp kept).1
  exact h.resets _ (List.mem_append_left _ (List.mem_map_of_mem (Option.mem_toList.mpr state)))

theorem IsClosed.declarations (h : e.IsClosed fields) :
    ∀ entry ∈ e.declarations, IsClosedLine fields entry.text := by
  rw [Emission.declarations, List.forall_mem_cons, List.forall_mem_map]
  refine ⟨isClosedLine_comment h.tidy, fun r mem => ?_⟩
  obtain ⟨name, type, -⟩ := h.rows r mem
  exact ((name.join (by decide) type).ended (by decide) (by decide)).isClosedLine

theorem IsClosed.initializers (h : e.IsClosed fields) :
    ∀ entry ∈ e.initializers, IsClosedLine fields entry.text := by
  rw [Emission.initializers, List.forall_mem_map]
  intro r mem
  obtain ⟨name, -, value⟩ := h.rows r mem
  exact ((name.join (by decide) value).ended (by decide) (by decide)).isClosedLine

theorem IsClosed.updates (h : e.IsClosed fields) :
    ∀ entry ∈ e.updates, IsClosedLine fields entry.text := by
  rw [Emission.updates, List.forall_mem_cons, List.forall_mem_cons, List.forall_mem_map]
  exact ⟨isClosed_empty.isClosedLine, isClosedLine_comment h.tidy,
    fun s mem => (h.update s mem).isClosedLine⟩

theorem IsClosed.resetLines (h : e.IsClosed fields) :
    ∀ entry ∈ e.resetLines, IsClosedLine fields entry.text := by
  rw [Emission.resetLines, List.forall_mem_map]
  exact fun a mem => (h.resets a mem).isClosedLine

theorem IsClosed.getterArms (h : e.IsClosed fields) :
    ∀ entry ∈ e.getterArms, IsClosedLine fields entry.text := by
  rw [Emission.getterArms, List.forall_mem_map]
  intro p mem
  have getter := p.isClosed_getter (h.param_path mem)
  exact (((isClosed_quote p.key).join (by decide) getter).ended (by decide)
    (by decide)).isClosedLine

/-- A parameter that is taken in is stored in a known field. -/
theorem IsClosed.setterArms (h : e.IsClosed fields) :
    ∀ entry ∈ e.setterArms, IsClosedLine fields entry.text := by
  rw [Emission.setterArms, List.forall_mem_flatMap]
  intro p mem
  have setter := p.isClosed_setter (h.param_path mem)
  have key : Text.IsClosed fields (quote p.key) := isClosed_quote p.key
  unfold setterArm
  split
  · rw [List.forall_mem_singleton]
    exact ((key.join (by decide) setter).ended (by decide) (by decide)).isClosedLine
  · rename_i a made
    simp only [List.forall_mem_cons]
    exact ⟨(key.ended (by decide) (by decide)).isClosedLine,
      (setter.ended (by decide) (by decide)).isClosedLine, (h.rebuild made).isClosedLine,
      (isClosed_of_isFixed (by decide)).isClosedLine, by simp⟩

/-- Keys are listed as literals. -/
theorem isClosedLine_keyLines (e : Emission) :
    ∀ entry ∈ e.keyLines, IsClosedLine fields entry.text := by
  rw [keyLines, List.forall_mem_map]
  exact fun p _ => ((isClosed_quote p.key).ended (by decide) (by decide)).isClosedLine

/-- What a block contributes to a program are closed lines. -/
theorem IsClosed.entries (h : e.IsClosed fields) :
    ∀ entry ∈ e.entries, IsClosedLine fields entry.text := by
  simp only [Emission.entries, List.forall_mem_append]
  exact ⟨⟨⟨⟨⟨⟨h.declarations, h.initializers⟩, h.updates⟩, h.resetLines⟩, h.getterArms⟩,
    h.setterArms⟩, isClosedLine_keyLines e⟩

end Emission

/-! ## Programs -/

namespace Program

variable {p : Program}

/-- A line with a path of identifiers in it, which may be `self` but has no dot behind it. -/
theorem isClosedLine_path {front back : List Char} {path : String}
    (h : ∀ c ∈ path.toList, isPathChar c = true) (plain : isPlain front = true)
    (undotted : '.' ∉ front) (fixed : isFixed back = true) (begins : beginsApart back = true)
    (next : (words back).head?.any (· ≠ ['.']) = true) :
    IsClosedLine fields (String.ofList front ++ path ++ String.ofList back) := by
  refine (isClosed_of_undotted ?_ ?_ fixed begins next).isClosedLine
  · rw [String.toList_append, String.toList_ofList, isPlain, List.all_append, Bool.and_eq_true]
    exact ⟨plain, isPlain_of_forall h rfl rfl⟩
  · rw [String.toList_append, String.toList_ofList, List.mem_append, not_or]
    refine ⟨undotted, fun mem => ?_⟩
    have letter := h _ mem
    contradiction

/-- A line in front of a brace may name the structure, as an identifier is no path. -/
theorem isClosedLine_named (structName : isIdentifier p.structName = true) {front : List Char}
    (plain : isPlain front = true) (undotted : '.' ∉ front) :
    IsClosedLine fields (String.ofList front ++ p.structName ++ " \x7b") := by
  have path : ∀ c ∈ p.structName.toList, isPathChar c = true := by
    intro c mem
    simp [isPathChar, isWord_of_isIdentifier structName c mem]
  exact isClosedLine_path path plain undotted (by decide) (by decide) (by decide)

/-- The module path of the support code is no path of a field. -/
theorem isClosedLine_heading (supportPath : isModulePath p.supportPath = true) :
    ∀ entry ∈ p.heading, IsClosedLine fields entry.text := by
  simp only [heading, List.map_cons, List.map_nil, List.forall_mem_cons]
  refine ⟨Text.isClosedLine_comment ?_ ?_, isClosedLine_of_isFixedLine (by decide),
    isClosedLine_of_isFixedLine (by decide),
    isClosedLine_path (isPathChar_of_isModulePath supportPath) (by decide) (by decide)
      (by decide) (by decide) (by decide),
    isClosedLine_of_isFixedLine (by decide), by simp⟩
  · simp only [Entry.text, Entry.plain, Stroke.text?, Option.getD_some, isOneLine_append,
      isOneLine_quote, isOneLine_oneLine, isOneLine_toString, and_true]
    decide
  · simp [Entry.text, Entry.plain, Stroke.text?]

theorem isClosedLine_declaration (structName : isIdentifier p.structName = true) :
    ∀ entry ∈ p.bare.declaration, IsClosedLine fields entry.text := by
  simp only [declaration, bare, closingBrace, List.flatMap_nil, List.append_nil, List.map_cons,
    List.map_nil, List.forall_mem_append, List.forall_mem_cons]
  refine ⟨⟨Text.isClosedLine_comment ?_ ?_, isClosedLine_of_isFixedLine (by decide),
    isClosedLine_named structName (by decide) (by decide), by simp⟩,
    isClosedLine_of_isFixedLine (by decide),
    isClosedLine_of_isFixedLine (by decide), by simp⟩
  · simp only [Entry.text, Entry.plain, Stroke.text?, Option.getD_some, isOneLine_append,
      isOneLine_quote, and_true]
    decide
  · simp [Entry.text, Entry.plain, Stroke.text?]

theorem isClosedLine_functionsOpening (structName : isIdentifier p.structName = true) :
    ∀ entry ∈ p.functionsOpening, IsClosedLine fields entry.text := by
  simp only [functionsOpening, List.map_cons, List.map_nil, List.forall_mem_cons]
  exact ⟨isClosedLine_of_isFixedLine (by decide),
    isClosedLine_named structName (by decide) (by decide), by simp⟩

theorem isClosedLine_defaulting (structName : isIdentifier p.structName = true) :
    ∀ entry ∈ p.defaulting, IsClosedLine fields entry.text := by
  simp only [defaulting, List.map_cons, List.map_nil, List.forall_mem_cons]
  exact ⟨isClosedLine_named structName (by decide) (by decide),
    isClosedLine_of_isFixedLine (by decide), isClosedLine_of_isFixedLine (by decide),
    isClosedLine_of_isFixedLine (by decide), isClosedLine_of_isFixedLine (by decide),
    by simp⟩

/-- Without blocks, most functions are fixed texts. -/
theorem isClosedLine_functions : ∀ entry ∈ p.bare.construction ++ p.bare.execution
    ++ p.bare.resetting ++ p.bare.getter ++ p.bare.setter ++ p.bare.keyList,
      IsClosedLine fields entry.text := by
  have blank : IsClosedLine fields "" := isClosed_empty.isClosedLine
  -- the only line that is written as two texts
  have signature : IsClosedLine fields
      ("pub fn set_parameter(&mut self, key: &str, value: ParamValue) "
        ++ "-> Result<(), ParamError> \x7b") :=
    ((isClosed_of_isFixed (by decide)).ended (by decide) (by decide)).isClosedLine
  simp only [construction, execution, resetting, getter, setter, keyList, closingBrace, bare,
    List.flatMap_nil, List.append_nil, List.map_cons, List.map_nil, List.forall_mem_append,
    List.forall_mem_cons, List.not_mem_nil, false_imp_iff, implies_true, and_true, true_and,
    Entry.text, Entry.plain, Stroke.text?, Option.getD_some, Option.getD_none, blank, signature]
  repeat' apply And.intro
  all_goals exact isClosedLine_of_isFixedLine (by decide)

/-- Around the entries of blocks there are comments, the names of the structure and of the module
that supports it, and fixed texts. -/
theorem isClosedLine_bare (structName : isIdentifier p.structName = true)
    (supportPath : isModulePath p.supportPath = true) :
    ∀ entry ∈ p.bare.entries, IsClosedLine fields entry.text := by
  have functions := @isClosedLine_functions fields p
  simp only [entries, List.forall_mem_append] at functions ⊢
  obtain ⟨⟨⟨⟨⟨construction, execution⟩, resetting⟩, getter⟩, setter⟩, keyList⟩ := functions
  exact ⟨⟨⟨⟨⟨⟨⟨⟨⟨isClosedLine_heading supportPath, isClosedLine_declaration structName⟩,
    isClosedLine_functionsOpening structName⟩, construction⟩, execution⟩, resetting⟩, getter⟩,
    setter⟩, keyList⟩, isClosedLine_defaulting structName⟩

/-- All lines of a program are closed if what is emitted for its blocks is. -/
theorem isClosedLine_entries (structName : isIdentifier p.structName = true)
    (supportPath : isModulePath p.supportPath = true) (closed : ∀ e ∈ p.blocks, e.IsClosed fields) :
    ∀ entry ∈ p.entries, IsClosedLine fields entry.text :=
  forall_mem_entries (isClosedLine_bare structName supportPath) fun e mem => (closed e mem).entries

end Program

end StrategyCanvas.Code
