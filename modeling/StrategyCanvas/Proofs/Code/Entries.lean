import StrategyCanvas.Proofs.Code.Program
import StrategyCanvas.Proofs.Code.Rendering

/-!
# The entries of a tidy program

If what its blocks emit is tidy and its names can stand in code, every entry of a program stands on
one line, and the entries of its blocks, the only ones that are marked, begin at the column that is
recorded for them (`Program.isTidy_entries`). What holds of entries holds of the lines that they are
laid out to.
-/

namespace StrategyCanvas.Code

open Text

/-! ## Tidy entries -/

/-- A mark with one of the given ids, where statements are marked as parts of an update. -/
structure Mark.IsTidy (ids : List String) (m : Mark) : Prop where
  known : m.blockId ∈ ids
  statement : m.isStatement = true → m.part = .update

/-- An entry on one line. If it is marked, its mark is tidy and its text begins with a character
other than a space. -/
structure Entry.IsTidy (ids : List String) (entry : Entry) : Prop where
  isOneLine : IsOneLine entry.text
  marked : ∀ m, entry.mark = some m → m.IsTidy ids ∧ beginsSolid entry.text = true

namespace Entry

variable {ids : List String} {e : Emission} {part : Part} {s : Stroke String}

/-- Without a mark, a text on one line is enough. -/
theorem isTidy_plain : (plain s).IsTidy ids ↔ IsOneLine (s.text?.getD "") :=
  ⟨fun h => h.isOneLine, fun line => ⟨line, fun _ none => by contradiction⟩⟩

/-- A line of code that is marked for a known block is tidy. -/
theorem isTidy_ofBlock (known : e.blockId ∈ ids) (line : IsCodeLine (s.text?.getD "")) :
    (ofBlock e part s).IsTidy ids := by
  refine ⟨line.isOneLine, fun m mark => ?_⟩
  obtain rfl := Option.some.inj mark
  exact ⟨⟨known, fun statement => by contradiction⟩, line.solid⟩

/-- A statement is marked as a part of the update. -/
theorem isTidy_ofStatement (known : e.blockId ∈ ids) {s : Statement} (line : IsCodeLine s.text) :
    (ofStatement e s).IsTidy ids := by
  refine ⟨line.isOneLine, fun m mark => ?_⟩
  obtain rfl := Option.some.inj mark
  exact ⟨⟨known, fun _ => rfl⟩, line.solid⟩

end Entry

/-! ## Blocks -/

namespace Emission

variable {e : Emission} {ids : List String}

/-- The comment on a block is a line of code, as its name and type are put on one line. -/
theorem IsTidy.comment (h : e.IsTidy) : IsCodeLine e.comment := by
  unfold Emission.comment
  have front : IsCodeLine "// " := by decide
  exact (((((front.append (isOneLine_oneLine _)).append (by decide)).append
    (isOneLine_oneLine _)).append (by decide)).append h.type).append (by decide)

/-- Each row has the name of a field, with a type and an initial value on one line. -/
theorem IsTidy.rows (h : e.IsTidy) :
    ∀ r ∈ e.rows, (∃ letter, IsFieldName letter r.name) ∧ IsOneLine r.type
      ∧ IsOneLine r.initializer := by
  simp only [Emission.rows, List.forall_mem_append, List.forall_mem_map, Option.mem_toList]
  refine ⟨⟨fun p mem => ?_, fun s mem => ?_⟩, fun o mem => ?_⟩
  · exact ⟨h.named.exists_param mem, p.kind.isOneLine_type, p.isOneLine_initializer⟩
  · exact ⟨⟨'s', (h.state s mem).field⟩, (h.state s mem).type, (h.state s mem).initializer⟩
  · exact ⟨h.named.exists_output mem, o.isOneLine_type, isOneLine_defaultValue o.kind⟩

/-- An assignment is a line of code if what it assigns is on one line. -/
theorem isCodeLine_assignment {a : Assignment} (field : IsWord a.field)
    (value : IsOneLine a.value) : IsCodeLine a.text := by
  have front : IsCodeLine "self." := by decide
  exact (((front.append field.isOneLine).append (by decide)).append value).append (by decide)

/-- What a reset assigns, it assigns line by line. -/
theorem IsTidy.resets (h : e.IsTidy) : ∀ a ∈ e.resets, IsCodeLine a.text := by
  simp only [Emission.resets, List.forall_mem_append, List.forall_mem_map, Option.mem_toList]
  refine ⟨fun s mem => ?_, fun o mem => ?_⟩
  · exact isCodeLine_assignment (h.state s mem).field.isWord (h.state s mem).reset
  · exact isCodeLine_assignment (h.named.isWord_output mem) (isOneLine_defaultValue o.kind)

/-- The assignment that makes a state anew is a line of code. -/
theorem IsTidy.rebuild (h : e.IsTidy) {p : Param} {a : Assignment} (made : e.rebuild? p = some a) :
    IsCodeLine a.text := by
  obtain ⟨s, kept, rfl⟩ := Option.map_eq_some_iff.mp made
  have state := h.state s (Option.filter_eq_some_iff.mp kept).1
  exact isCodeLine_assignment state.field.isWord state.reset

theorem isTidy_declarations (h : e.IsTidy) (known : e.blockId ∈ ids) :
    ∀ entry ∈ e.declarations, entry.IsTidy ids := by
  rw [declarations, List.forall_mem_cons, List.forall_mem_map]
  refine ⟨Entry.isTidy_ofBlock known h.comment, fun r mem => Entry.isTidy_ofBlock known ?_⟩
  obtain ⟨⟨_, name⟩, type, -⟩ := h.rows r mem
  exact ((name.isCodeLine.append (by decide)).append type).append (by decide)

theorem isTidy_initializers (h : e.IsTidy) (known : e.blockId ∈ ids) :
    ∀ entry ∈ e.initializers, entry.IsTidy ids := by
  rw [initializers, List.forall_mem_map]
  refine fun r mem => Entry.isTidy_ofBlock known ?_
  obtain ⟨⟨_, name⟩, -, initializer⟩ := h.rows r mem
  exact ((name.isCodeLine.append (by decide)).append initializer).append (by decide)

theorem isTidy_updates (h : e.IsTidy) (known : e.blockId ∈ ids) :
    ∀ entry ∈ e.updates, entry.IsTidy ids := by
  rw [updates, List.forall_mem_cons, List.forall_mem_cons, List.forall_mem_map]
  exact ⟨Entry.isTidy_plain.mpr (by decide), Entry.isTidy_ofBlock known h.comment,
    fun s mem => Entry.isTidy_ofStatement known (h.update s mem)⟩

theorem isTidy_resetLines (h : e.IsTidy) (known : e.blockId ∈ ids) :
    ∀ entry ∈ e.resetLines, entry.IsTidy ids := by
  rw [resetLines, List.forall_mem_map]
  exact fun a mem => Entry.isTidy_ofBlock known (h.resets a mem)

theorem isTidy_getterArms (h : e.IsTidy) (known : e.blockId ∈ ids) :
    ∀ entry ∈ e.getterArms, entry.IsTidy ids := by
  rw [getterArms, List.forall_mem_map]
  refine fun p mem => Entry.isTidy_ofBlock known ?_
  have getter := p.isOneLine_getter (h.named.isWord_param mem)
  exact (((isCodeLine_quote p.key).append (by decide)).append getter).append (by decide)

/-- The cases that take parameters in are tidy, in braces or on one line. -/
theorem isTidy_setterArms (h : e.IsTidy) (known : e.blockId ∈ ids) :
    ∀ entry ∈ e.setterArms, entry.IsTidy ids := by
  rw [setterArms, List.forall_mem_flatMap]
  intro p mem
  have setter := p.isCodeLine_setter (h.named.isWord_param mem)
  have key := isCodeLine_quote p.key
  unfold setterArm
  split
  · rw [List.forall_mem_singleton]
    exact Entry.isTidy_ofBlock known
      (((key.append (by decide)).append setter.isOneLine).append (by decide))
  · rename_i a made
    simp only [List.forall_mem_cons]
    exact ⟨Entry.isTidy_ofBlock known (key.append (by decide)),
      Entry.isTidy_ofBlock known (setter.append (by decide)),
      Entry.isTidy_ofBlock known (h.rebuild made), Entry.isTidy_plain.mpr (by decide), by simp⟩

theorem isTidy_keyLines (known : e.blockId ∈ ids) :
    ∀ entry ∈ e.keyLines, entry.IsTidy ids := by
  rw [keyLines, List.forall_mem_map]
  exact fun p _ => Entry.isTidy_ofBlock known ((isCodeLine_quote p.key).append (by decide))

/-- All entries of a block are tidy. -/
theorem isTidy_entries (h : e.IsTidy) (known : e.blockId ∈ ids) :
    ∀ entry ∈ e.entries, entry.IsTidy ids := by
  simp only [entries, List.forall_mem_append]
  exact ⟨⟨⟨⟨⟨⟨isTidy_declarations h known, isTidy_initializers h known⟩, isTidy_updates h known⟩,
    isTidy_resetLines h known⟩, isTidy_getterArms h known⟩, isTidy_setterArms h known⟩,
    isTidy_keyLines known⟩

end Emission

/-! ## Programs -/

namespace Program

variable {p : Program} {ids : List String} {unit : Nat} {m : Mark} {l : LaidLine}

/-- Around the entries of blocks, only the names in the heading and the name of the structure are
not fixed texts. -/
theorem isTidy_bare (structName : IsOneLine p.structName) (supportPath : IsOneLine p.supportPath) :
    ∀ entry ∈ p.bare.entries, entry.IsTidy ids := by
  simp only [entries, heading, declaration, functionsOpening, construction, execution, resetting,
    getter, setter, keyList, defaulting, closingBrace, bare, List.flatMap_nil, List.append_nil,
    List.map_cons, List.map_nil, List.forall_mem_append, List.forall_mem_cons, List.not_mem_nil,
    false_imp_iff, implies_true, and_true, Entry.isTidy_plain, Stroke.text?, Option.getD_some,
    Option.getD_none, isOneLine_append, isOneLine_quote, isOneLine_oneLine, isOneLine_toString,
    structName, supportPath]
  repeat' apply And.intro
  all_goals exact isOneLine_ofList (by decide)

/-- All entries of a program are tidy, marked for one of its blocks. -/
theorem isTidy_entries (structName : IsOneLine p.structName) (supportPath : IsOneLine p.supportPath)
    (tidy : ∀ e ∈ p.blocks, e.IsTidy) :
    ∀ entry ∈ p.entries, entry.IsTidy (p.blocks.map (·.blockId)) :=
  forall_mem_entries (isTidy_bare structName supportPath) fun e mem =>
    Emission.isTidy_entries (tidy e mem) (List.mem_map_of_mem mem)

/-! ## Lines -/

/-- What holds of the texts of all entries holds of the texts of all lines. -/
theorem forall_text_lines {P : String → Prop} (h : ∀ entry ∈ p.entries, P entry.text) :
    ∀ l ∈ p.lines unit, P l.text := by
  intro l mem
  have text : l.text ∈ (p.lines unit).map LaidLine.text := List.mem_map_of_mem mem
  rw [lines, map_text_lay, List.map_map] at text
  obtain ⟨entry, known, same⟩ := List.mem_map.mp text
  rw [← same]
  exact h entry known

/-- The lines of the text are those of the program, with nothing after the last line feed. -/
theorem linesOf_text (clean : ∀ entry ∈ p.entries, IsOneLine entry.text) (unit : Nat) :
    linesOf (p.text unit) = (p.lines unit).map LaidLine.chars ++ [[]] :=
  linesOf_sheetText (forall_text_lines clean)

/-- Every marked line has a tidy mark, and its text does not begin with a space. -/
theorem isTidy_of_mem_markedLines (tidy : ∀ entry ∈ p.entries, entry.IsTidy ids)
    (h : (m, l) ∈ p.markedLines unit) : m.IsTidy ids ∧ beginsSolid l.text = true := by
  obtain ⟨entry, mem, mark, text⟩ := exists_entry_of_mem_markedLines h
  rw [← text]
  exact (tidy entry mem).marked m mark

end Program

/-! ## Compiled strategies -/

/-- How a strategy is compiled: from its plans and the blocks that are emitted, in a program whose
entries are tidy. -/
structure Compiles (o : Options) (catalog : Catalog) (d : Definition) (compiled : Compiled)
    (plans : List BlockPlan) (es : List Emission) : Prop where
  sound : d.IsSound
  planned : plan catalog d = .ok plans
  arranged : Arranged d plans es
  tidy : ∀ entry ∈ (o.program d es).entries, entry.IsTidy (es.map (·.blockId))
  result : compiled = o.finish d es

section

variable {o : Options} {catalog : Catalog} {d : Definition} {compiled : Compiled}
  {plans : List BlockPlan} {es : List Emission}

/-- The code is the text of the program for what is emitted, in its order. -/
theorem Compiles.code_eq (h : Compiles o catalog d compiled plans es) :
    compiled.code = (o.program d es).text o.indent := by
  rw [h.result]
  rfl

/-- The source map is that of the same program. -/
theorem Compiles.sourceMap_eq (h : Compiles o catalog d compiled plans es) :
    compiled.sourceMap = (o.program d es).sourceMap o.indent d.connections := by
  rw [h.result]
  rfl

/-- The lines of the code are those of the program, with nothing after the last line feed. -/
theorem Compiles.linesOf_code (h : Compiles o catalog d compiled plans es) :
    linesOf compiled.code = ((o.program d es).lines o.indent).map LaidLine.chars ++ [[]] := by
  rw [h.code_eq]
  exact Program.linesOf_text (fun entry mem => (h.tidy entry mem).isOneLine) o.indent

/-- Options that pass the check name the structure by an identifier and the support code by a module
path. -/
theorem check_eq_ok (h : o.check = .ok ()) :
    isIdentifier o.structName = true ∧ isModulePath o.supportPath = true := by
  unfold Options.check at h
  split at h
  · contradiction
  · rename_i identifier
    split at h
    · contradiction
    · rename_i path
      simp only [Bool.not_eq_true', Bool.not_eq_false] at identifier path
      exact ⟨identifier, path⟩

/-- A compilation goes through these steps with whatever is emitted. -/
theorem exists_compiles_of_emissions (h : compile o catalog d = .ok compiled)
    (emitted : emissions catalog d = .ok es) : ∃ plans, Compiles o catalog d compiled plans es := by
  obtain ⟨checked, harmless, es', emitted', result⟩ := compile_eq_ok h
  rw [emitted] at emitted'
  obtain rfl := Except.ok.inj emitted'
  have sound := Definition.isSound_of_hasErrors harmless
  obtain ⟨plans, planned, arranged⟩ := arranged_of_emissions sound emitted
  obtain ⟨identifier, path⟩ := check_eq_ok checked
  have structName := (isWord_of_isIdentifier identifier).isOneLine
  have supportPath := isOneLine_of_isModulePath path
  refine ⟨plans, ⟨sound, planned, arranged, ?_, result⟩⟩
  refine Program.isTidy_entries structName supportPath fun e mem => ?_
  obtain ⟨known, emits⟩ := arranged.emits e mem
  exact emits.isTidy (planned_of_plan planned).1 (isNamed_of_planBlocks planned) sound known

/-- Every compilation that succeeds goes through these steps. -/
theorem exists_compiles (h : compile o catalog d = .ok compiled) :
    ∃ plans es, Compiles o catalog d compiled plans es := by
  obtain ⟨-, -, es, emitted, -⟩ := compile_eq_ok h
  obtain ⟨plans, comp⟩ := exists_compiles_of_emissions h emitted
  exact ⟨plans, es, comp⟩

end

end StrategyCanvas.Code
