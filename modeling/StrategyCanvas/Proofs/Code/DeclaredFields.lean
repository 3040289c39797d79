import StrategyCanvas.Proofs.Code.BlockLocations
import StrategyCanvas.Proofs.Code.Closed

/-!
# The fields that code declares

The fields of the generated structure are read off the text of the code. They are those of the
blocks (`Program.declaredFields_text`), no two of them have the same name, all names are
identifiers, and the code refers to no other field (`declaredFields_of_compile`).
-/

namespace StrategyCanvas.Code

open Text

/-! ## Reading declarations -/

/-- Whether the structure begins at a line. -/
def opensStructure (line : List Char) : Bool := "pub struct ".toList.isPrefixOf line

/-- The lines between the one that begins the structure and the first that is a closing brace. -/
def structureLines (lines : List (List Char)) : List (List Char) :=
  ((lines.dropWhile (!opensStructure ·)).drop 1).takeWhile (· ≠ ['\x7d'])

/-- The name in front of the colon, unless the line is a comment. -/
def declaredName? (line : List Char) : Option String :=
  let text := line.dropWhile (· = ' ')
  if ['/', '/'].isPrefixOf text then none else some (String.ofList (text.takeWhile (· ≠ ':')))

/-- The names of the fields that the structure in a text of code declares. -/
def declaredFields (code : String) : List String :=
  (structureLines (linesOf code)).filterMap declaredName?

/-- The lines of a structure are those between its opening and the next brace. -/
theorem structureLines_eq {front body rest : List (List Char)} {opening : List Char}
    (before : ∀ l ∈ front, opensStructure l = false) (opens : opensStructure opening = true)
    (inside : ∀ l ∈ body, l ≠ ['\x7d']) :
    structureLines (front ++ opening :: (body ++ ['\x7d'] :: rest)) = body := by
  have stop : List.takeWhile (fun l => decide (l ≠ ['\x7d'])) (['\x7d'] :: rest) = [] :=
    List.takeWhile_cons_of_neg (by simp)
  rw [structureLines, List.dropWhile_append_of_pos (by simpa using before),
    List.dropWhile_cons_of_neg (by simp [opens]), List.drop_one, List.tail_cons,
    List.takeWhile_append_of_pos (by simpa using inside), stop, List.append_nil]

/-- Lines are indented by spaces only. -/
theorem dropWhile_indent {s : String} (solid : beginsSolid s = true) (indent : Nat) :
    (List.replicate indent ' ' ++ s.toList).dropWhile (· = ' ') = s.toList := by
  rw [List.dropWhile_append_of_pos (by simp)]
  unfold beginsSolid at solid
  cases chars : s.toList with
  | nil => rfl
  | cons c cs =>
    rw [chars] at solid
    exact List.dropWhile_cons_of_neg (by simpa using solid)

/-- A comment declares nothing. -/
theorem declaredName?_comment {s : String} (front : ['/', '/'] <+: s.toList) (indent : Nat) :
    declaredName? (List.replicate indent ' ' ++ s.toList) = none := by
  have solid : beginsSolid s = true := by
    obtain ⟨cs, chars⟩ := front
    rw [beginsSolid, ← chars]
    rfl
  unfold declaredName?
  rw [dropWhile_indent solid]
  simpa using front

/-- The name of a field is read from its declaration. -/
theorem declaredName?_field {letter : Char} {name : String} (h : IsFieldName letter name)
    (type : String) (indent : Nat) :
    declaredName? (List.replicate indent ' ' ++ (name ++ ": " ++ type ++ ",").toList)
      = some name := by
  have solid : beginsSolid (name ++ ": " ++ type ++ ",") = true := by
    simp only [String.append_assoc]
    exact beginsSolid_append h.isCodeLine.solid _
  have noComment : ¬ ['/', '/'] <+: (name ++ ": " ++ type ++ ",").toList := by
    obtain ⟨-, word, chars, -⟩ := h
    simp [chars]
  have upToColon : (name ++ ": " ++ type ++ ",").toList.takeWhile (· ≠ ':') = name.toList := by
    have letters : ∀ c ∈ name.toList, decide (c ≠ ':') = true := by
      intro c mem
      refine decide_eq_true ?_
      rintro rfl
      have letter := h.isWord ':' mem
      contradiction
    simp only [String.toList_append, List.append_assoc]
    rw [List.takeWhile_append_of_pos letters]
    simp
  unfold declaredName?
  dsimp only
  rw [dropWhile_indent solid, upToColon]
  simpa using noComment

/-! ## Programs -/

namespace Emission

variable {e : Emission}

/-- Declarations are lines, all at the same depth. -/
theorem map_stroke_declarations (e : Emission) :
    e.declarations.map (·.stroke) = (e.declarations.map Entry.text).map Stroke.line := by
  simp [declarations, Entry.ofBlock, Entry.text, Stroke.text?]

/-- The declarations of a block give the names of its fields, and its comment gives nothing. -/
theorem filterMap_declarations (h : e.IsTidy) (indent : Nat) :
    e.declarations.filterMap (fun entry =>
      declaredName? (List.replicate indent ' ' ++ entry.text.toList)) = e.rows.map (·.name) := by
  rw [declarations, List.filterMap_cons_none, List.filterMap_map]
  · rw [← List.filterMap_eq_map]
    refine List.filterMap_congr fun r mem => ?_
    obtain ⟨⟨_, name⟩, -⟩ := h.rows r mem
    exact declaredName?_field name r.type indent
  · exact declaredName?_comment (by simp [comment, Entry.text, Entry.ofBlock, Stroke.text?]) indent

/-- No declaration looks like the end of the structure. -/
theorem chars_ne_brace {entry : Entry} (h : entry ∈ e.declarations) (indent : Nat) :
    List.replicate indent ' ' ++ entry.text.toList ≠ ['\x7d'] := by
  have mark : '/' ∈ entry.text.toList ∨ ':' ∈ entry.text.toList := by
    rcases List.mem_cons.mp h with rfl | field
    · simp [comment, Entry.text, Entry.ofBlock, Stroke.text?]
    · obtain ⟨r, -, rfl⟩ := List.mem_map.mp field
      simp [Entry.text, Entry.ofBlock, Stroke.text?]
  intro same
  have inside (c : Char) (mem : c ∈ entry.text.toList) : c = '\x7d' := by
    rw [← List.mem_singleton, ← same]
    exact List.mem_append_right _ mem
  rcases mark with mem | mem
  · exact absurd (inside _ mem) (by decide)
  · exact absurd (inside _ mem) (by decide)

end Emission

section

variable {unit depth written : Nat} {texts : List String}

/-- Lines that open and close nothing are all indented by the same depth. -/
theorem map_chars_lay_lines : (lay unit depth written (texts.map Stroke.line)).map LaidLine.chars
    = texts.map fun t => List.replicate (depth * unit) ' ' ++ t.toList := by
  induction texts generalizing written with
  | nil => rfl
  | cons t rest ih =>
    rw [List.map_cons, lay, List.map_cons, List.map_cons, Stroke.depthAfter, ih]
    rfl

theorem foldl_depthAfter_lines : (texts.map Stroke.line).foldl Stroke.depthAfter depth = depth := by
  induction texts with
  | nil => rfl
  | cons t rest ih => exact ih

end

namespace Program

variable {p : Program} {unit : Nat}

/-- The lines above the structure. -/
def above (p : Program) : List String :=
  ["// Generated from strategy " ++ quote p.strategyName ++ " (" ++ oneLine p.strategyId
      ++ "), version " ++ toString p.version.toNat ++ ".",
    "// Regenerate from the strategy definition instead of editing.", "",
    "use " ++ p.supportPath ++ "::prelude::*;", "", "/// Strategy " ++ quote p.strategyName,
    "#[derive(Debug, Clone)]"]

/-- The line that begins the structure. -/
def opening (p : Program) : String := "pub struct " ++ p.structName ++ " \x7b"

/-- The strokes above the fields of the structure. -/
def top (p : Program) : List (Stroke String) :=
  p.heading.map (·.stroke) ++ [.line ("/// Strategy " ++ quote p.strategyName),
    .line "#[derive(Debug, Clone)]", .opening p.opening]

/-- The declarations of all blocks. -/
def declarations (p : Program) : List Entry := p.blocks.flatMap Emission.declarations

theorem map_chars_top (p : Program) (unit : Nat) : (lay unit 0 0 p.top).map LaidLine.chars
    = p.above.map String.toList ++ [p.opening.toList] := by
  simp [top, heading, above, lay, Entry.plain, LaidLine.chars, Stroke.level, Stroke.depthAfter,
    Stroke.text?]

/-- No line above the structure opens one. -/
theorem opensStructure_above (p : Program) :
    ∀ l ∈ p.above.map String.toList, opensStructure l = false := by
  simp [above, opensStructure, List.isPrefixOf]

theorem opensStructure_opening (p : Program) : opensStructure p.opening.toList = true := by
  simp [opening, opensStructure]

/-- A program begins with what is above the structure and its declarations, up to the closing brace.
-/
theorem exists_strokes_eq (p : Program) : ∃ rest, p.entries.map (·.stroke)
    = p.top ++ ((p.declarations.map Entry.text).map Stroke.line ++ .closing "\x7d" :: rest) := by
  have lines : p.declarations.map (·.stroke)
      = (p.declarations.map Entry.text).map Stroke.line := by
    simp only [declarations, List.map_flatMap, Emission.map_stroke_declarations]
  refine ⟨.blank :: (p.functionsOpening ++ p.construction ++ p.execution ++ p.resetting ++ p.getter
    ++ p.setter ++ p.keyList ++ p.defaulting).map (·.stroke), ?_⟩
  rw [← lines]
  simp [entries, declaration, declarations, top, opening, closingBrace, Entry.plain]

/-- The lines of the text of a program, with those that declare fields set apart. -/
theorem exists_linesOf_text (tidy : ∀ entry ∈ p.entries, IsOneLine entry.text) (unit : Nat) :
    ∃ rest, linesOf (p.text unit) = p.above.map String.toList ++ p.opening.toList
      :: (p.declarations.map (fun entry => List.replicate unit ' ' ++ entry.text.toList)
        ++ ['\x7d'] :: rest) := by
  obtain ⟨rest, strokes⟩ := p.exists_strokes_eq
  have depth : p.top.foldl Stroke.depthAfter 0 = 1 := rfl
  have brace (n : Nat) : LaidLine.chars ⟨n, 0, "\x7d"⟩ = ['\x7d'] := by
    simp [LaidLine.chars]
  refine ⟨(lay unit 0 (p.top.length + (p.declarations.map Entry.text).length + 1) rest).map
    LaidLine.chars ++ [[]], ?_⟩
  rw [linesOf_text tidy, lines, strokes, lay_append, lay_append, depth,
    foldl_depthAfter_lines, List.map_append, List.map_append, map_chars_top, map_chars_lay_lines,
    lay]
  simp [brace, Stroke.level, Stroke.depthAfter, Stroke.text?, Function.comp_def]

/-- The lines that declare fields are those of the declarations. -/
theorem structureLines_linesOf_text (tidy : ∀ entry ∈ p.entries, IsOneLine entry.text)
    (unit : Nat) : structureLines (linesOf (p.text unit))
      = p.declarations.map fun entry => List.replicate unit ' ' ++ entry.text.toList := by
  obtain ⟨rest, lines⟩ := exists_linesOf_text tidy unit
  have inside : ∀ l ∈ p.declarations.map
      (fun entry => List.replicate unit ' ' ++ entry.text.toList), l ≠ ['\x7d'] := by
    rw [List.forall_mem_map, declarations, List.forall_mem_flatMap]
    exact fun e _ entry mem => Emission.chars_ne_brace mem unit
  rw [lines, structureLines_eq p.opensStructure_above p.opensStructure_opening inside]

/-- The text of a program declares the fields of its blocks, and no others. -/
theorem declaredFields_text (tidy : ∀ entry ∈ p.entries, IsOneLine entry.text)
    (blocks : ∀ e ∈ p.blocks, e.IsTidy) (unit : Nat) :
    declaredFields (p.text unit) = p.blocks.flatMap fun e => e.rows.map (·.name) := by
  rw [declaredFields, structureLines_linesOf_text tidy, List.filterMap_map, declarations,
    List.filterMap_flatMap]
  exact List.flatMap_congr fun e mem => Emission.filterMap_declarations (blocks e mem) unit

end Program

/-! ## Names of all blocks -/

section

variable {catalog : Catalog} {d : Definition} {plans : List BlockPlan} {es : List Emission}

/-- Every plan is emitted once. -/
theorem Arranged.map_plan_perm (h : Arranged d plans es) (planned : Planned catalog plans d.blocks)
    (sound : d.IsSound) : (es.map (·.plan)).Perm plans := by
  have ids : (es.map (·.plan)).map (·.block.id) = es.map (·.blockId) := by
    rw [List.map_map]
    rfl
  have distinct : (es.map (·.plan)).Nodup := by
    refine List.Nodup.of_map (·.block.id) ?_
    rw [ids]
    exact h.perm.nodup_iff.mpr sound.distinct.1
  have known : es.map (·.plan) ⊆ plans := by
    intro p mem
    obtain ⟨e, listed, rfl⟩ := List.mem_map.mp mem
    exact (h.emits e listed).1
  have count : plans.length = (es.map (·.plan)).length := by
    have blocks := h.perm.length_eq
    rw [List.length_map] at blocks
    rw [List.length_map, blocks, planned.length_eq]
    simp [Definition.blockIds]
  exact (distinct.subperm known).perm_of_length_le count.le

/-- The names of the fields of a block: those in its plan, and that of its state. -/
theorem Emission.map_name_rows_perm (e : Emission) :
    (e.rows.map (·.name)).Perm (e.plan.fields ++ e.state.toList.map (·.field)) := by
  have names : e.rows.map (·.name) = e.plan.params.map (·.field)
      ++ (e.state.toList.map (·.field) ++ e.plan.outputs.map (·.field)) := by
    simp [rows, Function.comp_def]
  rw [names, BlockPlan.fields, List.append_assoc]
  exact List.perm_append_comm.append_left _

/-- The name of a state is made from the handle of its block. -/
theorem Emits.state_sublist {p : BlockPlan} {e : Emission} (h : Emits d plans p e) :
    (e.state.toList.map (·.field)).Sublist ["s_" ++ e.plan.handle] := by
  obtain ⟨ws, -, emitted⟩ := h
  rw [(emit_eq_ok_iff.mp emitted).2]
  cases rule : (Rule.ofType p.type).state with
  | none => simp [BlockView.emission, rule]
  | some s => simp [BlockView.emission, BlockView.stateField, BlockView.stateName, rule]

/-- No two states have the same field, as their handles differ. -/
theorem Arranged.nodup_states (h : Arranged d plans es)
    (handles : (es.map (·.plan.handle)).Nodup) :
    (es.flatMap fun e => e.state.toList.map (·.field)).Nodup := by
  have sublist (e : Emission) (mem : e ∈ es) := (h.emits e mem).2.state_sublist
  rw [List.nodup_flatMap]
  refine ⟨fun e mem => (List.nodup_singleton _).sublist (sublist e mem), ?_⟩
  rw [List.Nodup, List.pairwise_map] at handles
  refine handles.imp_of_mem fun {a b} ha hb other f inA inB => other ?_
  have first := List.mem_singleton.mp ((sublist a ha).subset inA)
  have second := List.mem_singleton.mp ((sublist b hb).subset inB)
  simpa [String.ext_iff] using first.symm.trans second

/-- The field of a parameter or output is not that of a state: the first letters differ. -/
theorem IsFieldBase.ne_state {f handle : String} (h : IsFieldBase f) : f ≠ "s_" ++ handle := by
  rintro rfl
  rcases h with ⟨-, word, chars, -⟩ | ⟨-, word, chars, -⟩ <;> simp at chars

/-- No two fields of a strategy have the same name, whatever its blocks, properties and ports are
called. -/
theorem Arranged.nodup_fields (h : Arranged d plans es) (sound : d.IsSound)
    (planned : plan catalog d = .ok plans) : (es.flatMap fun e => e.rows.map (·.name)).Nodup := by
  have named := isNamed_of_planBlocks planned
  have perm := h.map_plan_perm (planned_of_plan planned).1 sound
  have split : (es.flatMap fun e => e.rows.map (·.name)).Perm
      (es.flatMap (·.plan.fields) ++ es.flatMap fun e => e.state.toList.map (·.field)) :=
    (List.Perm.flatMap_left es fun e _ => e.map_name_rows_perm).trans
      (List.flatMap_append_perm es _ _).symm
  have fields : (es.flatMap (·.plan.fields)).Nodup := by
    have all := (perm.flatMap_right (·.fields)).nodup_iff.mpr (nodup_fields_of_planBlocks planned)
    rwa [List.flatMap_map] at all
  have handles : (es.map (·.plan.handle)).Nodup := by
    have all := (perm.map (·.handle)).nodup_iff.mpr (nodup_handles_of_planBlocks planned)
    rwa [List.map_map] at all
  rw [split.nodup_iff, List.nodup_append']
  refine ⟨fields, h.nodup_states handles, fun f inPlan inState => ?_⟩
  obtain ⟨a, ha, inPlan⟩ := List.mem_flatMap.mp inPlan
  obtain ⟨b, hb, inState⟩ := List.mem_flatMap.mp inState
  have base := (named a.plan (h.emits a ha).1).fields f inPlan
  exact base.ne_state (List.mem_singleton.mp ((h.emits b hb).2.state_sublist.subset inState))

end

/-! ## Compiled strategies -/

variable {o : Options} {catalog : Catalog} {d : Definition} {compiled : Compiled}
  {plans : List BlockPlan} {es : List Emission}

/-- The names of the fields of all blocks. -/
def fieldNames (es : List Emission) : List String := es.flatMap fun e => e.rows.map (·.name)

/-- The fields of a plan are among those of all blocks. -/
theorem mem_fieldNames_of_mem_plan {e : Emission} (known : e ∈ es) {f : String}
    (mem : f ∈ e.plan.fields) : f ∈ fieldNames es :=
  List.mem_flatMap.mpr ⟨e, known, e.map_name_rows_perm.mem_iff.mpr (List.mem_append_left _ mem)⟩

theorem mem_fieldNames_of_mem_state {e : Emission} (known : e ∈ es) {s : StateField}
    (mem : s ∈ e.state) : s.field ∈ fieldNames es :=
  List.mem_flatMap.mpr ⟨e, known, e.map_name_rows_perm.mem_iff.mpr
    (List.mem_append_right _ (List.mem_map_of_mem (Option.mem_toList.mpr mem)))⟩

/-- The fields that a block is seen with are among those of all blocks. -/
theorem Compiles.isKnown (h : Compiles o catalog d compiled plans es) {e : Emission} (mem : e ∈ es)
    {v : BlockView} (view : v.Emits plans e.plan e) :
    v.IsKnown (Rule.ofType e.plan.type) (fieldNames es) := by
  have named := isNamed_of_planBlocks h.planned
  have perm := h.arranged.map_plan_perm (planned_of_plan h.planned).1 h.sound
  refine ⟨view.isTidy_view named (h.arranged.emits e mem).1, fun m reads => ?_, fun f mine => ?_,
    fun some => ?_, fun w hw => ?_⟩
  · exact view.complete m (Rule.mem_members_iff.mpr reads)
  · rw [view.plan] at mine
    exact mem_fieldNames_of_mem_plan mem mine
  · obtain ⟨s, given⟩ := Option.isSome_iff_exists.mp some
    have state : v.stateField s ∈ e.state := by
      rw [view.emission]
      exact Option.mem_map_of_mem _ given
    exact mem_fieldNames_of_mem_state mem state
  · obtain ⟨p, listed, output, given, target, converted⟩ := view.wires w hw
    obtain ⟨source, written, rfl⟩ := List.mem_map.mp (perm.mem_iff.mpr listed)
    have field : output.field ∈ source.plan.fields :=
      List.mem_append_right _ (List.mem_map_of_mem given)
    obtain ⟨_, name⟩ := (named _ listed).exists_letter field
    exact isClosed_of_convert? (name.isClosed_path (mem_fieldNames_of_mem_plan written field))
      converted

/-- What is emitted for each block is closed under the fields of all. -/
theorem Compiles.isClosed (h : Compiles o catalog d compiled plans es) :
    ∀ e ∈ es, e.IsClosed (fieldNames es) := by
  intro e mem
  have planned := (planned_of_plan h.planned).1
  obtain ⟨known, emits⟩ := h.arranged.emits e mem
  obtain ⟨v, view⟩ := emits.exists_view planned h.sound known
  have tidy := emits.isTidy planned (isNamed_of_planBlocks h.planned) h.sound known
  have closed := BlockView.isClosed_emission (h.isKnown mem view) (view.emission ▸ tidy)
    (Rule.isSpaced_ofType _)
  rwa [← view.emission] at closed

/-- The lines of the code are closed. -/
theorem Compiles.isClosedLine (h : Compiles o catalog d compiled plans es)
    (checked : o.check = .ok ()) :
    ∀ entry ∈ (o.program d es).entries, IsClosedLine (fieldNames es) entry.text := by
  obtain ⟨identifier, path⟩ := check_eq_ok checked
  exact Program.isClosedLine_entries identifier path h.isClosed

/-- The fields that the code declares are those of all blocks, in their order. -/
theorem Compiles.declaredFields_eq (h : Compiles o catalog d compiled plans es) :
    declaredFields compiled.code = fieldNames es := by
  rw [h.code_eq]
  exact Program.declaredFields_text (fun entry mem => (h.tidy entry mem).isOneLine)
    (fun e mem => (h.isClosed e mem).tidy) o.indent

/-- The text of a program refers to known fields only. -/
theorem Program.mem_of_mem_fieldPaths {p : Program} {fields : List String}
    (closed : ∀ entry ∈ p.entries, IsClosedLine fields entry.text) (unit : Nat) :
    ∀ f ∈ fieldPaths (p.text unit), f ∈ fields := by
  have lines : ∀ l ∈ (p.lines unit).map fun l => (l.indent, l.text), IsClosedLine fields l.2 := by
    rw [List.forall_mem_map]
    exact forall_text_lines closed
  have resolves := resolves_lines lines
  rw [List.flatMap_map] at resolves
  refine fun f mem => Text.mem_of_mem_fieldPaths ?_ mem
  rw [Program.text, sheetText, String.toList_ofList]
  exact resolves

/-- The fields that the code of a strategy declares have distinct names, all of them identifiers,
and every field path in the code, outside comments and literals, names one of them. All of this
holds whatever blocks, properties and ports are called. -/
theorem declaredFields_of_compile (h : compile o catalog d = .ok compiled) :
    (declaredFields compiled.code).Nodup
    ∧ (∀ f ∈ declaredFields compiled.code, isIdentifier f = true)
    ∧ ∀ f ∈ fieldPaths compiled.code, f ∈ declaredFields compiled.code := by
  obtain ⟨plans, es, c⟩ := exists_compiles h
  rw [c.declaredFields_eq]
  refine ⟨c.arranged.nodup_fields c.sound c.planned, fun f mem => ?_, ?_⟩
  · obtain ⟨e, known, listed⟩ := List.mem_flatMap.mp mem
    obtain ⟨r, row, rfl⟩ := List.mem_map.mp listed
    obtain ⟨⟨_, name⟩, -⟩ := (c.isClosed e known).tidy.rows r row
    exact name.isIdentifier
  · rw [c.code_eq]
    exact Program.mem_of_mem_fieldPaths (c.isClosedLine (compile_eq_ok h).1) o.indent

/-- A strategy with line feeds and code in its texts refers to the fields that are declared for it.
-/
theorem declaredFields_priceLog : ∃ compiled, compile .default ⟨[]⟩ priceLog = .ok compiled
    ∧ (declaredFields compiled.code).Nodup
    ∧ ∀ f ∈ fieldPaths compiled.code, f ∈ declaredFields compiled.code := by
  obtain ⟨compiled, h⟩ := isOk_compile_priceLog
  obtain ⟨distinct, -, known⟩ := declaredFields_of_compile h
  exact ⟨compiled, h, distinct, known⟩

end StrategyCanvas.Code
