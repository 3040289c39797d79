import StrategyCanvas.Proofs.Code.Initializers

/-!
# The functions of generated code

The lines of a function are read off the text of the code: those between the line at which the
function begins and the next one at which a function does. Only fixed lines begin functions,
whatever the blocks are called, so that the lines of every function are known
(`Compiles.functionLines_eq`).
-/

namespace StrategyCanvas.Code

open Text

/-! ## Reading functions -/

/-- Whether a function begins at a line. -/
def opensFunction (line : List Char) : Bool := "pub fn ".toList.isPrefixOf line

/-- Whether the function of that name begins at a line. -/
def opensNamed (name : String) (line : List Char) : Bool :=
  ("pub fn " ++ name ++ "(").toList.isPrefixOf line

/-- The lines between the one at which a function begins and the next one at which one does. -/
def linesOfFunction (name : String) (lines : List (List Char)) : List (List Char) :=
  ((lines.dropWhile (!opensNamed name ·)).drop 1).takeWhile (!opensFunction ·)

/-- The lines of a function in a text of code, without their indentation. -/
def functionLines (name code : String) : List (List Char) :=
  linesOfFunction name ((linesOf code).map unindented)

/-- The characters with which a function begins. -/
def functionStart : List Char := ['p', 'u', 'b', ' ', 'f', 'n', ' ']

theorem opensFunction_eq (line : List Char) : opensFunction line = functionStart.isPrefixOf line :=
  congrArg (List.isPrefixOf · line) String.toList_ofList

/-- What stands in front of the first character that ends it. -/
theorem takeWhile_append_stop {α : Type} {p : α → Bool} {front : List α} {a : α}
    (h : ∀ x ∈ front, p x = true) (stop : p a = false) (rest : List α) :
    (front ++ a :: rest).takeWhile p = front := by
  rw [List.takeWhile_append_of_pos h, List.takeWhile_cons_of_neg (by simp [stop]), List.append_nil]

/-- What stands in front of the first such character. -/
theorem takeWhile_ne_append {cs : List Char} {c : Char} (h : c ∉ cs) (rest : List Char) :
    (cs ++ c :: rest).takeWhile (· ≠ c) = cs := by
  refine takeWhile_append_stop (fun d mem => decide_eq_true ?_) (by simp) rest
  rintro rfl
  exact h mem

/-- A function has the name in front of its arguments. -/
theorem opensNamed_opening {name : String} {cs rest : List Char} (h : '(' ∉ name.toList)
    (h' : '(' ∉ cs) : opensNamed name (functionStart ++ (cs ++ '(' :: rest))
      = decide (String.ofList cs = name) := by
  have looked : ("pub fn " ++ name ++ "(").toList = functionStart ++ (name.toList ++ ['(']) := by
    have start : "pub fn ".toList = functionStart := String.toList_ofList
    have bracket : "(".toList = ['('] := String.toList_ofList
    rw [String.toList_append, String.toList_append, start, bracket, List.append_assoc]
  rw [opensNamed, looked, Bool.eq_iff_iff, List.isPrefixOf_iff_prefix, List.prefix_append_right_inj,
    decide_eq_true_iff]
  constructor
  · rintro ⟨more, same⟩
    have names := congrArg (List.takeWhile (· ≠ '(')) same
    rw [List.append_assoc, List.singleton_append, takeWhile_ne_append h,
      takeWhile_ne_append h'] at names
    rw [← names, String.ofList_toList]
  · rintro rfl
    rw [String.toList_ofList]
    exact ⟨rest, by simp⟩

/-- A line that opens no function opens none of any name. -/
theorem opensNamed_of_opensFunction {line : List Char} (h : opensFunction line = false)
    (name : String) : opensNamed name line = false := by
  rw [← Bool.not_eq_true] at h ⊢
  simp only [opensFunction, opensNamed, List.isPrefixOf_iff_prefix, String.toList_append] at h ⊢
  rw [List.append_assoc]
  exact fun named => h ((List.prefix_append _ _).trans named)

/-- Lines in front that do not open the function are passed over. -/
theorem linesOfFunction_append {name : String} {front : List (List Char)}
    (h : ∀ l ∈ front, opensNamed name l = false) (lines : List (List Char)) :
    linesOfFunction name (front ++ lines) = linesOfFunction name lines := by
  unfold linesOfFunction
  rw [List.dropWhile_append_of_pos]
  exact fun l mem => by simp [h l mem]

/-- The line of an entry without its indentation. -/
def Entry.line (entry : Entry) : List Char := unindented entry.text.toList

/-- A text that does not begin with a space is the whole line without its indentation. -/
theorem Entry.line_of_text {entry : Entry} {cs : List Char} (text : entry.text = String.ofList cs)
    (solid : cs.head?.all (· ≠ ' ') = true) : entry.line = cs := by
  rw [line, text, String.toList_ofList]
  cases cs with
  | nil => rfl
  | cons c rest => exact List.dropWhile_cons_of_neg (by simpa using solid)

/-- A function of a program: its name, the line at which it begins, and the entries between this
line and the next function. -/
structure FunctionPart where
  name : String
  opening : String
  body : List Entry

/-- The entries of a function. -/
def FunctionPart.entries (f : FunctionPart) : List Entry := .plain (.opening f.opening) :: f.body

/-- A function begins at its first line, which has the name that is looked for if the function has
it, and no other function begins before it ends. -/
structure FunctionPart.IsApart (name : String) (f : FunctionPart) : Prop where
  opens : opensFunction (unindented f.opening.toList) = true
  named : opensNamed name (unindented f.opening.toList) = decide (f.name = name)
  inside : ∀ entry ∈ f.body, opensFunction entry.line = false

/-- Of functions that are kept apart the one with the name is read. -/
theorem linesOfFunction_flatMap {name : String} {fs : List FunctionPart} {f : FunctionPart}
    (apart : ∀ g ∈ fs, g.IsApart name) (found : fs.find? (·.name = name) = some f) :
    linesOfFunction name ((fs.flatMap FunctionPart.entries).map Entry.line)
      = f.body.map Entry.line := by
  induction fs with
  | nil => contradiction
  | cons g rest ih =>
    rw [List.forall_mem_cons] at apart
    obtain ⟨⟨-, named, inside⟩, others⟩ := apart
    have lines : ((g :: rest).flatMap FunctionPart.entries).map Entry.line
        = unindented g.opening.toList :: (g.body.map Entry.line
          ++ (rest.flatMap FunctionPart.entries).map Entry.line) := by
      simp [FunctionPart.entries, Entry.line, Entry.text, Entry.plain, Stroke.text?]
    rw [lines]
    by_cases same : g.name = name
    · rw [List.find?_cons_of_pos (by simpa using same)] at found
      obtain rfl := Option.some.inj found
      have stop : ((rest.flatMap FunctionPart.entries).map Entry.line).takeWhile
          (!opensFunction ·) = [] := by
        cases rest with
        | nil => rfl
        | cons next more =>
          have opens := (others next List.mem_cons_self).opens
          exact List.takeWhile_cons_of_neg (by
            simpa [FunctionPart.entries, Entry.line, Entry.text, Entry.plain, Stroke.text?]
              using opens)
      rw [linesOfFunction, List.dropWhile_cons_of_neg (by simp [named, same]), List.drop_one,
        List.tail_cons, List.takeWhile_append_of_pos, stop, List.append_nil]
      rw [List.forall_mem_map]
      exact fun entry mem => by simp [inside entry mem]
    · rw [List.find?_cons_of_neg (by simpa using same)] at found
      rw [← List.cons_append, linesOfFunction_append, ih others found]
      rw [List.forall_mem_cons, List.forall_mem_map]
      exact ⟨by simp [named, same], fun entry mem =>
        opensNamed_of_opensFunction (inside entry mem) name⟩

/-! ## Lines that begin no function -/

/-- An entry at whose line no function begins. -/
def Entry.IsInner (entry : Entry) : Prop := opensFunction entry.line = false

/-- A line that begins with a character of its own does not have a front that begins otherwise. -/
theorem isPrefixOf_unindented {c d : Char} (solid : c ≠ ' ') (other : d ≠ c)
    (front cs : List Char) : (d :: front).isPrefixOf (unindented (c :: cs)) = false := by
  rw [unindented, List.dropWhile_cons_of_neg (by simpa using solid)]
  simp [List.isPrefixOf, other]

/-- The characters with which comments, assignments, keys and the ends of braces begin. -/
def marks : List Char := ['/', 's', '"', '\x7d']

/-- The text of an entry begins with one of these characters. -/
def Entry.IsMarked (entry : Entry) : Prop := ∃ c ∈ marks, entry.text.toList.head? = some c

/-- A marked line does not have a front that begins with another character. -/
theorem Entry.IsMarked.isPrefixOf_line {entry : Entry} (h : entry.IsMarked) {front : List Char}
    (other : front.head?.any (· ∉ marks) = true) : front.isPrefixOf entry.line = false := by
  obtain ⟨c, mark, first⟩ := h
  obtain ⟨cs, chars⟩ := List.head?_eq_some_iff.mp first
  obtain ⟨d, begins, absent⟩ := (Option.any_eq_true ..).mp other
  obtain ⟨rest, rfl⟩ := List.head?_eq_some_iff.mp begins
  rw [Entry.line, chars]
  refine isPrefixOf_unindented ?_ ?_ rest cs
  · rintro rfl
    exact absurd mark (by decide)
  · rintro rfl
    exact of_decide_eq_true absent mark

/-- A marked line opens no function. -/
theorem Entry.IsMarked.isInner {entry : Entry} (h : entry.IsMarked) : entry.IsInner := by
  rw [IsInner, opensFunction_eq]
  exact h.isPrefixOf_line (by decide)

/-- The name of a field is no public function. -/
theorem opensFunction_field {letter : Char} {name : String} (h : IsFieldName letter name)
    (more : String) : opensFunction (unindented (name ++ more).toList) = false := by
  have solid := beginsSolid_append h.isCodeLine.solid more
  obtain ⟨-, word, chars, -⟩ := h
  rw [unindented_of_beginsSolid solid, String.toList_append, chars, opensFunction_eq]
  simp [functionStart, List.isPrefixOf]

/-- A piece begins with a character that neither indents a line nor begins a function, whatever the
block. -/
def Piece.isInner : Piece → Bool
  | .text s => s.toList.head?.any fun c => c ≠ ' ' && c ≠ 'p'
  | .output _ | .state => true
  | _ => false

/-- No line of a rule begins like a function. -/
theorem Rule.isInner_ofType (type : BlockType) : ∀ s ∈ (ofType type).update,
    (s.text?.any fun pieces => pieces.head?.any (·.isInner)) = true := by
  cases type <;> decide +kernel

/-- A line of a rule opens no function, whatever the block brings to it. -/
theorem BlockView.opensFunction_line (v : BlockView) {pieces : List Piece}
    (h : pieces.head?.any (·.isInner) = true) :
    opensFunction (unindented (v.line pieces).toList) = false := by
  cases pieces with
  | nil => contradiction
  | cons piece rest =>
    have path (f t : String) : ∃ cs, ("self." ++ f ++ t).toList = 's' :: cs := by
      simp
    have text : ∃ c cs, (v.line (piece :: rest)).toList = c :: cs ∧ c ≠ ' ' ∧ c ≠ 'p' := by
      rw [line, List.map_cons, String.join_cons]
      cases piece with
      | text s =>
        have inner : (Piece.text s).isInner = true := h
        obtain ⟨c, first, other⟩ := (Option.any_eq_true ..).mp inner
        obtain ⟨cs, chars⟩ := List.head?_eq_some_iff.mp first
        rw [render, String.toList_append, chars]
        exact ⟨c, cs ++ _, rfl, by simpa using other⟩
      | output name =>
        obtain ⟨cs, chars⟩ := path (((v.output? name).map (·.field)).getD "") _
        exact ⟨'s', cs, chars, by decide, by decide⟩
      | state =>
        obtain ⟨cs, chars⟩ := path v.stateName _
        exact ⟨'s', cs, chars, by decide, by decide⟩
      | property | input | inputOr | blockId => contradiction
    obtain ⟨c, cs, chars, solid, other⟩ := text
    rw [opensFunction_eq, chars]
    exact isPrefixOf_unindented solid other.symm _ cs

namespace Emission

variable {e : Emission}

/-- A comment begins with a slash. -/
theorem isMarked_comment (e : Emission) (part : Part) :
    (Entry.ofBlock e part (.line e.comment)).IsMarked :=
  ⟨'/', by decide, by simp [Entry.text, Entry.ofBlock, Stroke.text?, comment]⟩

theorem isMarked_assignment (e : Emission) (part : Part) (a : Assignment) :
    (Entry.ofBlock e part (.line a.text)).IsMarked :=
  ⟨'s', by decide, by simp [Entry.text, Entry.ofBlock, Stroke.text?, Assignment.text]⟩

/-- A key begins with a quote. -/
theorem isMarked_key (e : Emission) (part : Part) (key more : String)
    (stroke : String → Stroke String) (text : ∀ s, (stroke s).text? = some s) :
    (Entry.ofBlock e part (stroke (quote key ++ more))).IsMarked :=
  ⟨'"', by decide, by simp [Entry.text, Entry.ofBlock, text, quote]⟩

/-- The cases that give parameters out begin with their keys. -/
theorem isMarked_getterArms (e : Emission) : ∀ entry ∈ e.getterArms, entry.IsMarked := by
  rw [getterArms, List.forall_mem_map]
  intro p _
  rw [String.append_assoc, String.append_assoc]
  exact e.isMarked_key _ _ _ .line fun _ => rfl

/-- The cases that take parameters in begin with their keys, their fields or a brace. -/
theorem isMarked_setterArms (e : Emission) : ∀ entry ∈ e.setterArms, entry.IsMarked := by
  rw [setterArms, List.forall_mem_flatMap]
  intro p _
  unfold setterArm
  split
  · rw [List.forall_mem_singleton, String.append_assoc, String.append_assoc]
    exact e.isMarked_key _ _ _ .line fun _ => rfl
  · rename_i a made
    simp only [List.forall_mem_cons]
    exact ⟨e.isMarked_key _ _ _ .opening fun _ => rfl,
      ⟨'s', by decide, by simp [Entry.text, Entry.ofBlock, Stroke.text?, Param.setter]⟩,
      e.isMarked_assignment _ a,
      ⟨'\x7d', by decide, congrArg List.head? String.toList_ofList⟩, by simp⟩

/-- A line that begins with the name of a field opens no function. -/
theorem isInner_row (h : e.IsTidy) {r : FieldRow} (mem : r ∈ e.rows) (part : Part) (more : String) :
    (Entry.ofBlock e part (.line (r.name ++ more))).IsInner := by
  obtain ⟨⟨_, name⟩, -⟩ := h.rows r mem
  exact opensFunction_field name more

/-- No function begins in what a block contributes. -/
theorem isInner_entries (h : e.IsTidy)
    (update : ∀ s ∈ e.update, opensFunction (unindented s.text.toList) = false) :
    ∀ entry ∈ e.entries, entry.IsInner := by
  simp only [entries, declarations, initializers, updates, resetLines, keyLines,
    List.forall_mem_append, List.forall_mem_cons, List.forall_mem_map]
  refine ⟨⟨⟨⟨⟨⟨⟨(e.isMarked_comment _).isInner, fun r mem => ?_⟩, fun r mem => ?_⟩, rfl,
    (e.isMarked_comment _).isInner, update⟩, fun a _ => (e.isMarked_assignment _ a).isInner⟩,
    fun entry mem => (e.isMarked_getterArms entry mem).isInner⟩,
    fun entry mem => (e.isMarked_setterArms entry mem).isInner⟩,
    fun p _ => (e.isMarked_key _ _ _ .line fun _ => rfl).isInner⟩
  · rw [String.append_assoc, String.append_assoc]
    exact isInner_row h mem _ _
  · rw [String.append_assoc, String.append_assoc]
    exact isInner_row h mem _ _

end Emission

/-! ## Programs -/

/-- Whether characters, whatever stands behind them, are not indented and begin no function. -/
def isInnerFront (cs : List Char) : Bool :=
  cs.head?.any (· ≠ ' ') && !cs.isPrefixOf functionStart && !functionStart.isPrefixOf cs

namespace Entry

variable {entry : Entry} {front : List Char}

/-- A text in front of which it is seen that no function begins. -/
theorem isInner_of_front {more : String} (text : entry.text = String.ofList front ++ more)
    (h : isInnerFront front = true) : entry.IsInner := by
  simp only [isInnerFront, Bool.and_eq_true, Bool.not_eq_true', ← Bool.not_eq_true,
    List.isPrefixOf_iff_prefix] at h
  obtain ⟨⟨solid, short⟩, long⟩ := h
  have bare : unindented (front ++ more.toList) = front ++ more.toList := by
    obtain ⟨c, first, solid⟩ := (Option.any_eq_true ..).mp solid
    obtain ⟨cs, rfl⟩ := List.head?_eq_some_iff.mp first
    exact List.dropWhile_cons_of_neg (by simpa using solid)
  rw [IsInner, line, text, String.toList_append, String.toList_ofList, bare, opensFunction_eq,
    ← Bool.not_eq_true, List.isPrefixOf_iff_prefix]
  intro opens
  rcases List.prefix_or_prefix_of_prefix opens (List.prefix_append front _) with other | other
  · exact long other
  · exact short other

/-- The front of a line decides that it opens no function. -/
theorem isInner_of_text (text : entry.text = String.ofList front)
    (h : isInnerFront front = true) : entry.IsInner :=
  isInner_of_front (text.trans String.append_empty.symm) h

theorem isInner_blank : (plain .blank).IsInner := rfl

end Entry

namespace Program

variable {p : Program}

/-- The entries above the first function. -/
def introduction (p : Program) : List Entry := p.heading ++ p.declaration ++ p.functionsOpening

/-- The functions. What stands above a function, such as a comment, is counted to the function
before; what stands behind the last one, with the empty line at the end, is counted to this. -/
def functions (p : Program) : List FunctionPart := [
  ⟨"new", "pub fn new() -> Self \x7b", p.construction.drop 1 ++ p.execution.take 1⟩,
  ⟨"execute", "pub fn execute(&mut self, tick: &Tick) -> Vec<Signal> \x7b",
    p.execution.drop 2 ++ p.resetting.take 1⟩,
  ⟨"reset", "pub fn reset(&mut self) \x7b", p.resetting.drop 2⟩,
  ⟨"get_parameter", "pub fn get_parameter(&self, key: &str) -> Option<ParamValue> \x7b",
    p.getter.drop 1 ++ p.setter.take 1⟩,
  ⟨"set_parameter", "pub fn set_parameter(&mut self, key: &str, value: ParamValue) "
    ++ "-> Result<(), ParamError> \x7b", p.setter.drop 2⟩,
  ⟨"parameter_keys", "pub fn parameter_keys() -> &'static [&'static str] \x7b",
    p.keyList.drop 1 ++ p.defaulting ++ [.plain .blank]⟩]

/-- A program is what stands in front of its functions, and the functions one after the other. -/
theorem entries_eq_functions (p : Program) :
    p.entries ++ [.plain .blank] = p.introduction ++ p.functions.flatMap FunctionPart.entries := by
  simp [entries, introduction, functions, FunctionPart.entries, construction, execution, resetting,
    getter, setter, keyList]

/-- The lines of the blocks make up the reset. -/
theorem find?_reset (p : Program) : p.functions.find? (·.name = "reset") = some ⟨"reset",
    "pub fn reset(&mut self) \x7b",
    p.blocks.flatMap Emission.resetLines ++ [closingBrace, .plain .blank]⟩ := rfl

theorem isInner_closingBrace : closingBrace.IsInner := Entry.isInner_of_text rfl (by decide)

/-- No function begins above the first one. -/
theorem isInner_introduction (inner : ∀ e ∈ p.blocks, ∀ entry ∈ e.entries, entry.IsInner) :
    ∀ entry ∈ p.introduction, entry.IsInner := by
  simp only [Emission.entries, List.forall_mem_append, imp_and, forall_and] at inner
  obtain ⟨⟨⟨⟨⟨⟨declarations, -⟩, -⟩, -⟩, -⟩, -⟩, -⟩ := inner
  have origin : (Entry.plain (.line ("// Generated from strategy " ++ quote p.strategyName ++ " ("
      ++ oneLine p.strategyId ++ "), version " ++ toString p.version.toNat ++ "."))).IsInner := by
    obtain ⟨more, text⟩ : ∃ more, "// Generated from strategy " ++ quote p.strategyName ++ " ("
        ++ oneLine p.strategyId ++ "), version " ++ toString p.version.toNat ++ "."
          = "// Generated from strategy " ++ more :=
      ⟨_, by simp only [String.append_assoc]; rfl⟩
    exact Entry.isInner_of_front text (by decide)
  simp only [introduction, heading, declaration, functionsOpening, List.map_cons, List.map_nil,
    List.forall_mem_append, List.forall_mem_cons, List.forall_mem_flatMap]
  exact ⟨⟨⟨origin, Entry.isInner_of_text rfl (by decide), Entry.isInner_blank,
    Entry.isInner_of_front String.append_assoc (by decide), Entry.isInner_blank, by simp⟩,
    ⟨⟨Entry.isInner_of_front rfl (by decide), Entry.isInner_of_text rfl (by decide),
      Entry.isInner_of_front String.append_assoc (by decide), by simp⟩, declarations⟩,
    isInner_closingBrace, Entry.isInner_blank, by simp⟩,
    Entry.isInner_of_text rfl (by decide),
    Entry.isInner_of_front String.append_assoc (by decide), by simp⟩

/-- Nothing in a function begins another one. -/
theorem isInner_of_mem_body (inner : ∀ e ∈ p.blocks, ∀ entry ∈ e.entries, entry.IsInner) :
    ∀ entry ∈ p.functions.flatMap (·.body), entry.IsInner := by
  simp only [Emission.entries, List.forall_mem_append, imp_and, forall_and] at inner
  obtain ⟨⟨⟨⟨⟨⟨-, initializers⟩, updates⟩, resets⟩, getters⟩, setters⟩, keys⟩ := inner
  simp only [functions, construction, execution, resetting, getter, setter, keyList, defaulting,
    List.map_cons, List.map_nil, List.flatMap_cons, List.flatMap_nil, List.append_nil,
    List.cons_append, List.nil_append, List.append_assoc, List.drop_succ_cons, List.drop_zero,
    List.take_succ_cons, List.take_zero, List.forall_mem_append, List.forall_mem_cons,
    List.forall_mem_flatMap, List.not_mem_nil, false_imp_iff, implies_true, and_true,
    Entry.isInner_blank, isInner_closingBrace, true_and]
  repeat' apply And.intro
  all_goals first
    | with_reducible assumption
    | exact Entry.isInner_of_text rfl (by decide)
    | exact Entry.isInner_of_front String.append_assoc (by decide)

/-- Every function begins with its name. -/
theorem exists_opening (p : Program) : ∀ f ∈ p.functions, ∃ cs rest, f.name = String.ofList cs
    ∧ f.opening.toList = functionStart ++ (cs ++ '(' :: rest) ∧ '(' ∉ cs := by
  have both {cs ds : List Char} :
      (String.ofList cs ++ String.ofList ds).toList = cs ++ ds := by
    rw [String.toList_append, String.toList_ofList, String.toList_ofList]
  have signature : ("pub fn set_parameter(&mut self, key: &str, value: ParamValue) "
      ++ "-> Result<(), ParamError> \x7b").toList = _ := both
  simp only [functions, List.forall_mem_cons]
  exact ⟨⟨_, _, rfl, String.toList_ofList, by decide⟩, ⟨_, _, rfl, String.toList_ofList, by decide⟩,
    ⟨_, _, rfl, String.toList_ofList, by decide⟩, ⟨_, _, rfl, String.toList_ofList, by decide⟩,
    ⟨_, _, rfl, signature, by decide⟩, ⟨_, _, rfl, String.toList_ofList, by decide⟩, by simp⟩

/-- No line within a function opens another one, so that each is found by its name. -/
theorem isApart_functions {f : FunctionPart} (known : f ∈ p.functions)
    (inner : ∀ e ∈ p.blocks, ∀ entry ∈ e.entries, entry.IsInner) :
    ∀ g ∈ p.functions, g.IsApart f.name := by
  intro g mem
  obtain ⟨cs, rest, name, opening, closed⟩ := p.exists_opening g mem
  obtain ⟨ds, -, name', -, closed'⟩ := p.exists_opening f known
  have bare : unindented g.opening.toList = g.opening.toList := by
    rw [opening]
    rfl
  refine ⟨?_, ?_, fun entry listed =>
    isInner_of_mem_body inner entry (List.mem_flatMap.mpr ⟨g, mem, listed⟩)⟩
  · rw [bare, opening, opensFunction_eq, List.isPrefixOf_iff_prefix]
    exact List.prefix_append _ _
  · rw [bare, opening, name', opensNamed_opening (by rwa [String.toList_ofList]) closed, name]

/-- The lines of a function are those of its entries. -/
theorem functionLines_text (tidy : ∀ entry ∈ p.entries, IsOneLine entry.text)
    (inner : ∀ e ∈ p.blocks, ∀ entry ∈ e.entries, entry.IsInner) {f : FunctionPart} {name : String}
    (found : p.functions.find? (·.name = name) = some f) (unit : Nat) :
    functionLines name (p.text unit) = f.body.map Entry.line := by
  have known := List.mem_of_find?_eq_some found
  have same : f.name = name := by simpa using List.find?_some found
  have lines : (linesOf (p.text unit)).map unindented
      = (p.introduction ++ p.functions.flatMap FunctionPart.entries).map Entry.line := by
    rw [map_unindented_linesOf tidy, ← entries_eq_functions, List.map_append]
    rfl
  rw [functionLines, lines, List.map_append, linesOfFunction_append,
    linesOfFunction_flatMap (same ▸ isApart_functions known inner) found]
  rw [List.forall_mem_map]
  exact fun entry mem => opensNamed_of_opensFunction (isInner_introduction inner entry mem) name

end Program

/-! ## Compiled strategies -/

section

variable {o : Options} {catalog : Catalog} {d : Definition} {compiled : Compiled}
  {plans : List BlockPlan} {es : List Emission}

/-- What is emitted for a block opens no function. -/
theorem Compiles.isInner (h : Compiles o catalog d compiled plans es) :
    ∀ e ∈ es, ∀ entry ∈ e.entries, entry.IsInner := by
  intro e mem
  obtain ⟨known, emits⟩ := h.arranged.emits e mem
  obtain ⟨v, view⟩ := emits.exists_view (planned_of_plan h.planned).1 h.sound known
  refine Emission.isInner_entries (h.isClosed e mem).tidy fun s listed => ?_
  have text := List.mem_map_of_mem (f := Statement.text) listed
  rw [view.emission, BlockView.map_text_update] at text
  obtain ⟨stroke, ruled, same⟩ := List.mem_map.mp text
  obtain ⟨pieces, read, first⟩ :=
    (Option.any_eq_true ..).mp (Rule.isInner_ofType e.plan.type stroke ruled)
  rw [← same, read]
  exact v.opensFunction_line first

/-- The lines of a function in the code are those of its entries. -/
theorem Compiles.functionLines_eq (h : Compiles o catalog d compiled plans es) {f : FunctionPart}
    {name : String} (found : (o.program d es).functions.find? (·.name = name) = some f) :
    functionLines name compiled.code = f.body.map Entry.line := by
  rw [h.code_eq]
  exact Program.functionLines_text (fun entry mem => (h.tidy entry mem).isOneLine) h.isInner found _

end

end StrategyCanvas.Code
