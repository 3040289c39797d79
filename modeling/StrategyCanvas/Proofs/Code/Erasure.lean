import StrategyCanvas.Proofs.Code.DeclaredFields
import StrategyCanvas.Proofs.Code.Layout
import StrategyCanvas.Proofs.Document.Renaming
import StrategyCanvas.Proofs.Text.Erasure

/-!
# Code without comments and contents of literals

Every line of a program is closed, so that the code is erased line by line
(`Compiles.linesOf_erased`). What is left of a program are its fixed entries and, of its blocks, the
fields, the values without the texts in them, and the updates. Two programs whose blocks look alike
in this way (`Emission.LooksLike`) have the same entries left (`Program.map_seen_entries`).
-/

namespace StrategyCanvas.Code

open Text

/-! ## Fields -/

@[simp] theorem number?_withoutText (value : Option PropertyValue) :
    (withoutText value).bind (·.number?) = value.bind (·.number?) := by
  cases value with
  | none => rfl
  | some v => cases v <;> rfl

@[simp] theorem boolean?_withoutText (value : Option PropertyValue) :
    (withoutText value).bind (·.boolean?) = value.bind (·.boolean?) := by
  cases value with
  | none => rfl
  | some v => cases v <;> rfl

/-- A parameter without the text that is its value. -/
def Param.untexted (p : Param) : Param := { p with value := withoutText p.value }

/-- The text that is a value is the contents of a literal. -/
theorem Param.erased_literal_untexted (p : Param) :
    erased p.untexted.literal = erased p.literal := by
  unfold literal untexted
  dsimp only
  cases p.kind with
  | number => simp
  | text => simp [erased_quote]
  | boolean => simp

/-- What a parameter starts with is the same with and without its text, once texts are erased. -/
theorem Param.erased_initializer_untexted (p : Param) :
    erased p.untexted.initializer = erased p.initializer := by
  have literal := p.erased_literal_untexted
  unfold initializer
  rw [show p.untexted.kind = p.kind from rfl]
  cases p.kind with
  | text =>
    have closed (q : Param) : IsClosed [] q.literal := q.isClosed_literal
    show erased (p.untexted.literal ++ ".to_string()") = erased (p.literal ++ ".to_string()")
    rw [(closed _).erased_append, (closed _).erased_append, literal]
  | number | boolean => exact literal

/-- A field of a state, with what is left of its initial value. -/
def StateField.erased (s : StateField) : StateField :=
  { s with initializer := Text.erased s.initializer }

/-- The field of an output port that is not told. -/
def OutputField.unported (o : OutputField) : OutputField := { o with portId := "" }

/-- A row with what is left of its initial value. -/
def FieldRow.erased (r : FieldRow) : FieldRow :=
  { r with initializer := Text.erased r.initializer }

/-- What is left of a statement. -/
def Statement.erased (s : Statement) : Statement := { s with text := Text.erased s.text }

/-! ## Blocks -/

/-- Two blocks are emitted alike, apart from comments and the contents of literals. -/
structure Emission.LooksLike (e e' : Emission) : Prop where
  params : e'.plan.params.map Param.untexted = e.plan.params.map Param.untexted
  outputs : e'.plan.outputs.map OutputField.unported = e.plan.outputs.map OutputField.unported
  state : e'.state.map StateField.erased = e.state.map StateField.erased
  update : e'.update.map Statement.erased = e.update.map Statement.erased

/-- What is left of an entry. -/
def Entry.seen (entry : Entry) : Stroke String := entry.stroke.map erased

namespace Emission

variable {e e' : Emission} {fields fields' : List String}

namespace LooksLike

variable (h : e.LooksLike e')

include h

/-- The rows have the same names and types, and look alike in what they start with. -/
theorem rows : e'.rows.map FieldRow.erased = e.rows.map FieldRow.erased := by
  have view (e : Emission) : e.rows.map FieldRow.erased
      = (e.plan.params.map Param.untexted).map (fun p =>
          ⟨p.field, p.kind.type, erased p.initializer, .parameter⟩)
        ++ (e.state.map StateField.erased).toList.map (fun s =>
          ⟨s.field, s.type, s.initializer, .state⟩)
        ++ (e.plan.outputs.map OutputField.unported).map (fun o =>
          ⟨o.field, o.type, erased (defaultValue o.kind), .state⟩) := by
    simp only [Emission.rows, List.map_append, List.map_map, Option.toList_map]
    congr 2
    refine List.map_congr_left fun p _ => ?_
    show FieldRow.mk _ _ (erased p.initializer) _ = FieldRow.mk _ _ _ _
    rw [← p.erased_initializer_untexted]
    rfl
  rw [view, view, h.params, h.state, h.outputs]

/-- A reset assigns the same. -/
theorem resets : e'.resets = e.resets := by
  have view (e : Emission) : e.resets
      = (e.state.map StateField.erased).toList.map (fun s => ⟨s.field, s.reset⟩)
        ++ (e.plan.outputs.map OutputField.unported).map (fun o =>
          ⟨o.field, defaultValue o.kind⟩) := by
    simp only [Emission.resets, List.map_map, Option.toList_map]
    rfl
  rw [view, view, h.state, h.outputs]

/-- The same parameters have a state made anew. -/
theorem rebuild (p : Param) : e'.rebuild? p = e.rebuild? p := by
  have view (e : Emission) : e.rebuild? p = ((e.state.map StateField.erased).filter
      (·.dependsOn.contains p.property)).map fun s => ⟨s.field, s.reset⟩ := by
    unfold rebuild?
    cases e.state with
    | none => rfl
    | some s =>
      rw [Option.map_some, Option.filter_some, Option.filter_some]
      show Option.map _ (if s.dependsOn.contains p.property then some s else none)
        = Option.map _ (if s.dependsOn.contains p.property then some s.erased else none)
      split <;> rfl
  rw [view, view, h.state]

/-- The same fields are declared, below comments that are not seen. -/
theorem seen_declarations (tidy : e.IsTidy) (tidy' : e'.IsTidy) :
    e'.declarations.map Entry.seen = e.declarations.map Entry.seen := by
  have view (e : Emission) (tidy : e.IsTidy) : e.declarations.map Entry.seen
      = .line "" :: (e.rows.map FieldRow.erased).map fun r =>
        .line (erased (r.name ++ ": " ++ r.type ++ ",")) := by
    have comment : erased e.comment = "" :=
      erased_comment tidy.comment.isOneLine (by simp [comment])
    rw [declarations, List.map_cons, List.map_map, List.map_map]
    show Stroke.line (erased e.comment) :: _ = _
    rw [comment]
    rfl
  rw [view e tidy, view e' tidy', h.rows]

/-- Fields start with values that look alike. -/
theorem seen_initializers (closed : e.IsClosed fields) (closed' : e'.IsClosed fields') :
    e'.initializers.map Entry.seen = e.initializers.map Entry.seen := by
  have view (e : Emission) (fields : List String) (closed : e.IsClosed fields) :
      e.initializers.map Entry.seen = (e.rows.map FieldRow.erased).map fun r =>
        .line (erased (r.name ++ ": ") ++ (r.initializer ++ erased ",")) := by
    rw [initializers, List.map_map, List.map_map]
    refine List.map_congr_left fun r mem => ?_
    obtain ⟨name, -, value⟩ := closed.rows r mem
    have front : Text.IsClosed fields (r.name ++ ": ") := name.ended (by decide) (by decide)
    show Stroke.line (erased (r.name ++ ": " ++ r.initializer ++ ",")) = _
    rw [String.append_assoc, front.erased_append, value.erased_append]
    rfl
  rw [view e fields closed, view e' fields' closed', h.rows]

/-- The statements look alike, below comments that are not seen. -/
theorem seen_updates (tidy : e.IsTidy) (tidy' : e'.IsTidy) :
    e'.updates.map Entry.seen = e.updates.map Entry.seen := by
  have view (e : Emission) (tidy : e.IsTidy) : e.updates.map Entry.seen
      = .blank :: .line ""
          :: (e.update.map Statement.erased).map fun s => .lineAt s.depth s.text := by
    have comment : erased e.comment = "" :=
      erased_comment tidy.comment.isOneLine (by simp [comment])
    rw [updates, List.map_cons, List.map_cons, List.map_map, List.map_map]
    show Stroke.blank :: Stroke.line (erased e.comment) :: _ = _
    rw [comment]
    rfl
  rw [view e tidy, view e' tidy', h.update]

theorem seen_resetLines : e'.resetLines.map Entry.seen = e.resetLines.map Entry.seen := by
  rw [resetLines, resetLines, h.resets, List.map_map, List.map_map]
  rfl

/-- The cases give out the same fields. -/
theorem seen_getterArms : e'.getterArms.map Entry.seen = e.getterArms.map Entry.seen := by
  have view (e : Emission) : e.getterArms.map Entry.seen
      = (e.plan.params.map Param.untexted).map fun p =>
        .line (erased (quote p.key ++ " => Some(" ++ p.getter ++ "),")) := by
    rw [getterArms, List.map_map, List.map_map]
    rfl
  rw [view, view, h.params]

/-- The cases store the same fields, and make the same states anew. -/
theorem seen_setterArms : e'.setterArms.map Entry.seen = e.setterArms.map Entry.seen := by
  have arm (p : Param) : (e'.setterArm p).map Entry.seen = (e.setterArm p).map Entry.seen := by
    unfold setterArm
    rw [h.rebuild p]
    cases e.rebuild? p <;> rfl
  have view (e : Emission) : e.setterArms.map Entry.seen
      = (e.plan.params.map Param.untexted).flatMap fun p => (e.setterArm p).map Entry.seen := by
    rw [setterArms, List.map_flatMap, List.flatMap_map]
    rfl
  rw [view, view, h.params]
  exact List.flatMap_congr fun p _ => arm p

theorem seen_keyLines : e'.keyLines.map Entry.seen = e.keyLines.map Entry.seen := by
  have view (e : Emission) : e.keyLines.map Entry.seen
      = (e.plan.params.map Param.untexted).map fun p => .line (erased (quote p.key ++ ",")) := by
    rw [keyLines, List.map_map, List.map_map]
    rfl
  rw [view, view, h.params]

end LooksLike

end Emission

/-! ## Programs -/

namespace Program

variable {p p' : Program} {fields fields' : List String}

/-- The title of a program stands in comments only. -/
theorem map_seen_preamble (clean : ∀ entry ∈ p.entries, IsOneLine entry.text) :
    p.preamble.map (Stroke.map erased) = [
      .line "",
      .line (erased "// Regenerate from the strategy definition instead of editing."),
      .blank,
      .line (erased ("use " ++ p.supportPath ++ "::prelude::*;")),
      .blank,
      .line ""] := by
  have known (s : Stroke String) (mem : s ∈ p.preamble) : IsOneLine (s.text?.getD "") := by
    refine clean (.plain s) ?_
    rw [entries_eq]
    exact List.mem_append_left _ (List.mem_map_of_mem mem)
  have slashes : ['/', '/'] <+: p.headline.toList := by
    unfold headline
    simp only [String.toList_append, List.append_assoc]
    exact List.prefix_append_of_prefix (by decide)
  have headline : erased p.headline = "" :=
    erased_comment (known (.line p.headline) List.mem_cons_self) slashes
  have last : p.preamble[5]? = some (.line p.caption) := rfl
  have caption : erased p.caption = "" :=
    erased_comment (known (.line p.caption) (List.mem_of_getElem? last)) (by simp [caption])
  simp only [preamble, List.map_cons, List.map_nil, Stroke.map, headline, caption]

/-- Programs with the same names whose blocks look alike have the same entries left. -/
theorem map_seen_entries (structName : p'.structName = p.structName)
    (supportPath : p'.supportPath = p.supportPath)
    (clean : ∀ entry ∈ p.entries, IsOneLine entry.text)
    (clean' : ∀ entry ∈ p'.entries, IsOneLine entry.text)
    (closed : ∀ e ∈ p.blocks, e.IsClosed fields) (closed' : ∀ e ∈ p'.blocks, e.IsClosed fields')
    (alike : List.Forall₂ Emission.LooksLike p.blocks p'.blocks) :
    p'.entries.map Entry.seen = p.entries.map Entry.seen := by
  have blocks (f : Emission → List Entry) (same : ∀ e e', e.IsClosed fields → e'.IsClosed fields' →
      e.LooksLike e' → (f e').map Entry.seen = (f e).map Entry.seen) :
      (p'.blocks.flatMap fun e => (f e).map Entry.seen)
        = p.blocks.flatMap fun e => (f e).map Entry.seen :=
    flatMap_eq_of_forall₂ (fun e e' ⟨mem, mem', h⟩ => same e e' (closed e mem) (closed' e' mem') h)
      (forall₂_with_mem alike)
  have declarations := blocks Emission.declarations
    fun e e' closed closed' alike => alike.seen_declarations closed.tidy closed'.tidy
  have initializers := blocks Emission.initializers
    fun e e' closed closed' alike => alike.seen_initializers closed closed'
  have updates := blocks Emission.updates
    fun e e' closed closed' alike => alike.seen_updates closed.tidy closed'.tidy
  have resets := blocks Emission.resetLines fun e e' _ _ alike => alike.seen_resetLines
  have getters := blocks Emission.getterArms fun e e' _ _ alike => alike.seen_getterArms
  have setters := blocks Emission.setterArms fun e e' _ _ alike => alike.seen_setterArms
  have keys := blocks Emission.keyLines fun e e' _ _ alike => alike.seen_keyLines
  have preamble (p : Program) :
      (p.preamble.map Entry.plain).map Entry.seen = p.preamble.map (Stroke.map erased) := by
    rw [List.map_map]
    rfl
  have body : p'.body.map Entry.seen = p.body.map Entry.seen := by
    simp only [Program.body, functionsOpening, construction, execution, resetting, getter, setter,
      keyList, defaulting, List.map_append, List.map_flatMap, structName, declarations,
      initializers, updates, resets, getters, setters, keys]
  rw [entries_eq, entries_eq, List.map_append, List.map_append, preamble, preamble,
    map_seen_preamble clean', map_seen_preamble clean, supportPath, body]

end Program

/-! ## Lines -/

/-- What is left of a line. -/
def LaidLine.erased (l : LaidLine) : LaidLine := { l with text := Text.erased l.text }

/-- What is seen of a line is seen with its indentation. -/
theorem LaidLine.chars_erased (l : LaidLine) : l.erased.chars = visible .code l.chars := by
  have indent : isPlain (List.replicate l.indent ' ') = true := by simp [isPlain]
  rw [chars, chars, visible_append indent, ← toList_erased]
  rfl

/-- Lines are laid out alike, whatever is erased from them. -/
theorem lay_map_erased (unit depth written : Nat) (strokes : List (Stroke String)) :
    lay unit depth written (strokes.map (Stroke.map erased))
      = (lay unit depth written strokes).map LaidLine.erased := by
  induction strokes generalizing depth written with
  | nil => rfl
  | cons s rest ih =>
    rw [List.map_cons, lay, lay, List.map_cons, ← ih]
    cases s <;> rfl

/-- The lines of a program are left with what is left of its entries. -/
theorem Program.map_erased_lines (p : Program) (unit : Nat) :
    (p.lines unit).map LaidLine.erased = lay unit 0 0 (p.entries.map Entry.seen) := by
  rw [lines, ← lay_map_erased, List.map_map]
  rfl

/-! ## Compiled strategies -/

section

variable {o : Options} {catalog : Catalog} {d d' : Definition} {compiled compiled' : Compiled}
  {plans plans' : List BlockPlan} {es es' : List Emission}

/-- What is seen of the lines of the code is what is seen of the entries, laid out. -/
theorem Compiles.map_visible_linesOf (h : Compiles o catalog d compiled plans es) :
    (linesOf compiled.code).map (visible .code)
      = (lay o.indent 0 0 ((o.program d es).entries.map Entry.seen)).map LaidLine.chars
          ++ [[]] := by
  rw [h.linesOf_code, List.map_append, ← Program.map_erased_lines, List.map_map, List.map_map]
  refine congrArg (· ++ [[]]) (List.map_congr_left fun l _ => ?_)
  exact l.chars_erased.symm

/-- The code is erased line by line: neither a comment nor a literal runs on over the end of its
line. -/
theorem Compiles.linesOf_erased (h : Compiles o catalog d compiled plans es)
    (checked : o.check = .ok ()) :
    linesOf (erased compiled.code) = (linesOf compiled.code).map (visible .code) := by
  have clean : ∀ l ∈ (o.program d es).lines o.indent, IsOneLine l.text :=
    Program.forall_text_lines fun entry mem => (h.tidy entry mem).isOneLine
  have closed : ∀ l ∈ (o.program d es).lines o.indent, IsClosedLine (fieldNames es) l.text :=
    Program.forall_text_lines (h.isClosedLine checked)
  have whole : compiled.code = String.ofList
      ((((o.program d es).lines o.indent).map LaidLine.chars).flatMap (· ++ ['\n'])) := by
    rw [h.code_eq, List.flatMap_map]
    rfl
  rw [h.linesOf_code, whole, linesOf_erased_lines, List.map_append]
  · rfl
  · rw [List.forall_mem_map]
    intro l mem
    have text : '\n' ∉ l.text.toList := clean l mem
    simp [LaidLine.chars, text]
  · rw [List.forall_mem_map]
    intro l mem rest
    have indent : isPlain (List.replicate l.indent ' ') = true := by simp [isPlain]
    rw [LaidLine.chars, List.append_assoc, visible_append indent, visible_append indent,
      (closed l mem).visible_append (clean l mem), List.append_assoc]

/-- Two strategies whose blocks look alike have the same lines left. -/
theorem Compiles.map_visible_eq (h : Compiles o catalog d compiled plans es)
    (h' : Compiles o catalog d' compiled' plans' es')
    (alike : List.Forall₂ Emission.LooksLike es es') :
    (linesOf compiled'.code).map (visible .code) = (linesOf compiled.code).map (visible .code) := by
  have entries : (o.program d' es').entries.map Entry.seen
      = (o.program d es).entries.map Entry.seen :=
    Program.map_seen_entries rfl rfl
      (fun entry mem => (h.tidy entry mem).isOneLine)
      (fun entry mem => (h'.tidy entry mem).isOneLine) h.isClosed h'.isClosed alike
  rw [h.map_visible_linesOf, h'.map_visible_linesOf, entries]

end

end StrategyCanvas.Code
