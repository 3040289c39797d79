import StrategyCanvas.Proofs.Code.Assignments
import StrategyCanvas.Proofs.Text.Literal

/-!
# The parameters of generated code

The functions that give parameters out, take them in and list their keys are read off the text of
the code, case by case. They have the same keys in the same order, no key twice, and each case reads
or sets the field of its parameter. A state that a reset makes from a parameter is made anew in the
same way when the parameter is set (`parameterKeys_of_compile`).
-/

namespace StrategyCanvas.Code

open Text

/-! ## Reading cases -/

/-- The lines between the one that is `first` and the next one that ends them. -/
def linesBetween (first : List Char) (ends : List Char → Bool) (lines : List (List Char)) :
    List (List Char) :=
  ((lines.dropWhile (· ≠ first)).drop 1).takeWhile (!ends ·)

/-- A text without the character at its end, if this is the given one. -/
def ended? (c : Char) (cs : List Char) : Option String :=
  if cs.getLast? = some c then some (String.ofList cs.dropLast) else none

/-- The key of a case, and what stands behind its arrow. -/
def caseOf? (line : List Char) : Option (String × List Char) :=
  match readLiteral line with
  | some (key, ' ' :: '=' :: '>' :: ' ' :: code) => some (key, code)
  | _ => none

/-- Cases with their statements, given the part of a case that has been read: a single statement
with a comma behind it, or statements in braces, each with a semicolon behind it. -/
def readCases : Option (String × List String) → List (List Char) →
    Option (List (String × List String))
  | none, [] => some []
  | some _, [] => none
  | none, line :: rest =>
    (caseOf? line).bind fun (key, code) =>
      if code = ['\x7b'] then readCases (some (key, [])) rest
      else (ended? ',' code).bind fun statement =>
        (readCases none rest).map ((key, [statement]) :: ·)
  | some (key, statements), line :: rest =>
    if line = ['\x7d'] then (readCases none rest).map ((key, statements) :: ·)
    else (ended? ';' line).bind fun statement =>
      readCases (some (key, statements ++ [statement])) rest

/-- The keys that a function in a text of code tells apart, with the statements for each. -/
def casesIn (name code : String) : Option (List (String × List String)) :=
  readCases none (linesBetween "match key \x7b".toList ("_ =>".toList.isPrefixOf ·)
    (functionLines name code))

/-- The key on a line of its own. -/
def listedKey? (line : List Char) : Option String :=
  match readLiteral line with
  | some (key, [',']) => some key
  | _ => none

/-- The keys that a text of code lists. -/
def listedKeys (code : String) : Option (List String) :=
  (linesBetween "&[".toList (· = [']']) (functionLines "parameter_keys" code)).mapM listedKey?

/-- The lines between are those up to the first one that ends them. -/
theorem linesBetween_eq {first last : List Char} {ends : List Char → Bool}
    {body : List (List Char)} (inside : ∀ l ∈ body, ends l = false) (stop : ends last = true)
    (rest : List (List Char)) :
    linesBetween first ends (first :: (body ++ last :: rest)) = body := by
  rw [linesBetween, List.dropWhile_cons_of_neg (by simp), List.drop_one, List.tail_cons,
    takeWhile_append_stop (by simpa using inside) (by simp [stop])]

/-- The character at the end is taken off. -/
theorem ended?_append (s : String) (c : Char) : ended? c (s.toList ++ [c]) = some s := by
  simp [ended?]

theorem ended?_of_append {t : String} (s : String) (c : Char) (h : t.toList = [c]) :
    ended? c (s ++ t).toList = some s := by
  rw [String.toList_append, h, ended?_append]

/-- A key is read back from its literal, whatever it says. -/
theorem caseOf?_quote (key : String) (code : List Char) :
    caseOf? ((quote key).toList ++ (' ' :: '=' :: '>' :: ' ' :: code)) = some (key, code) := by
  rw [caseOf?, readLiteral_quote]
  rfl

/-- A case on one line. -/
theorem readCases_line (key statement : String) (rest : List (List Char)) :
    readCases none ((quote key ++ " => " ++ statement ++ ",").toList :: rest)
      = (readCases none rest).map ((key, [statement]) :: ·) := by
  have line : (quote key ++ " => " ++ statement ++ ",").toList
      = (quote key).toList ++ (' ' :: '=' :: '>' :: ' ' :: (statement.toList ++ [','])) := by
    simp
  have closed : statement.toList ++ [','] ≠ ['\x7b'] := by
    intro same
    have last := congrArg List.getLast? same
    simp at last
  rw [line, readCases, caseOf?_quote, Option.bind_some]
  dsimp only
  rw [if_neg closed, ended?_append]
  rfl

/-- The statements of a case in braces. -/
theorem readCases_statements (key : String) (before statements : List String)
    (rest : List (List Char)) : readCases (some (key, before))
      (statements.map (fun s => (s ++ ";").toList) ++ ['\x7d'] :: rest)
        = (readCases none rest).map ((key, before ++ statements) :: ·) := by
  induction statements generalizing before with
  | nil => simp [readCases]
  | cons s others ih =>
    have inside : (s ++ ";").toList ≠ ['\x7d'] := by
      intro same
      have last := congrArg List.getLast? same
      simp at last
    rw [List.map_cons, List.cons_append, readCases, if_neg inside,
      ended?_of_append s ';' (by decide), Option.bind_some, ih, List.append_assoc,
      List.singleton_append]

/-- A case in braces. -/
theorem readCases_block (key : String) (statements : List String) (rest : List (List Char)) :
    readCases none ((quote key ++ " => \x7b").toList
      :: (statements.map (fun s => (s ++ ";").toList) ++ ['\x7d'] :: rest))
        = (readCases none rest).map ((key, statements) :: ·) := by
  have line : (quote key ++ " => \x7b").toList
      = (quote key).toList ++ (' ' :: '=' :: '>' :: ' ' :: ['\x7b']) := by
    simp
  rw [line, readCases, caseOf?_quote, Option.bind_some]
  dsimp only
  rw [if_pos rfl, readCases_statements]
  rfl

/-- Cases that are read one after the other. -/
theorem readCases_flatMap {α : Type} {l : List α} {lines : α → List (List Char)}
    {case : α → String × List String}
    (h : ∀ x ∈ l, ∀ rest,
      readCases none (lines x ++ rest) = (readCases none rest).map (case x :: ·)) :
    readCases none (l.flatMap lines) = some (l.map case) := by
  induction l with
  | nil => rfl
  | cons x rest ih =>
    rw [List.forall_mem_cons] at h
    rw [List.flatMap_cons, h.1, ih h.2]
    rfl

/-- A key that is listed is read back. -/
theorem listedKey?_quote (key : String) : listedKey? (quote key ++ ",").toList = some key := by
  rw [String.toList_append, listedKey?, readLiteral_quote]
  rfl

/-! ## Parameters -/

namespace ParamKind

/-- The code that takes a value of a kind in: the value from the outside under its key, which is
refused if it is of another kind. -/
def taken : ParamKind → String
  | .number => "value.as_number(key)?"
  | .text => "value.as_text(key)?"
  | .boolean => "value.as_bool(key)?"

/-- The code that gives a value of a kind out, for the place where it is kept. Text is copied. -/
def given (path : String) : ParamKind → String
  | .number => "Some(ParamValue::Number(" ++ path ++ "))"
  | .text => "Some(ParamValue::Text(" ++ path ++ ".clone()))"
  | .boolean => "Some(ParamValue::Boolean(" ++ path ++ "))"

/-- The value that is given out is that of the field. -/
theorem fieldPaths_given {f : String} {letter : Char} (h : IsFieldName letter f)
    (kind : ParamKind) : fieldPaths (kind.given ("self." ++ f)) = [f] := by
  cases kind <;>
    exact fieldPaths_path h.isWord h.ne_empty h.ne_self (by decide) (by decide) (by decide)
      (by decide)

/-- The value that is taken in goes to the field. -/
theorem assignedFields_taken {f : String} {letter : Char} (h : IsFieldName letter f)
    (kind : ParamKind) :
    assignedFields ("self." ++ f ++ " = " ++ kind.taken).toList = [f] := by
  obtain ⟨value, same, fixed, begins⟩ : ∃ value, kind.taken = String.ofList value
      ∧ isFixed value = true ∧ beginsQuiet value = true := by
    cases kind <;> exact ⟨_, rfl, by decide, by decide⟩
  obtain ⟨word, rest, read, quiet⟩ := exists_words_of_beginsQuiet fixed begins
  have confined : Confined [] (word :: rest) :=
    read ▸ confined_of_isClosed (isClosed_of_isFixed fixed)
  have assigned := assigned_path (fun same => h.ne_self (String.toList_inj.mp same)) quiet
    confined []
  rw [List.append_nil, String.ofList_toList] at assigned
  rw [assignedFields, same, Emission.words_assigning h, read, assigned]
  rfl

end ParamKind

namespace Param

/-- What stands behind the arrow when a parameter is given out: the value of its field, as one of
its kind. -/
theorem some_getter_eq (p : Param) :
    "Some(" ++ p.getter ++ ")" = p.kind.given ("self." ++ p.field) := by
  unfold getter
  cases p.kind <;> dsimp only [ParamKind.variant, ParamKind.given] <;> simp [String.ext_iff]

/-- A parameter that is taken in is stored in its field. -/
theorem setter_eq (p : Param) : p.setter = "self." ++ p.field ++ " = " ++ p.kind.taken := by
  unfold setter
  cases p.kind <;> dsimp only [ParamKind.accessor, ParamKind.taken] <;> simp [String.ext_iff]

end Param

/-! ## Blocks -/

/-- The statement of an assignment. -/
def Assignment.statement (a : Assignment) : String := "self." ++ a.field ++ " = " ++ a.value

/-- A line that is not indented by its text. -/
theorem Entry.line_of_beginsSolid {entry : Entry} {s : String} (text : entry.text = s)
    (solid : beginsSolid s = true) : entry.line = s.toList := by
  rw [line, text, unindented_of_beginsSolid solid]

/-- A line that begins with a key does not begin with a space. -/
theorem beginsSolid_quote_append (key more : String) : beginsSolid (quote key ++ more) = true :=
  beginsSolid_append (isCodeLine_quote key).solid more

namespace Emission

/-- The case that gives a parameter out. -/
def getterArm (e : Emission) (p : Param) : Entry :=
  .ofBlock e .parameter (.line (quote p.key ++ " => Some(" ++ p.getter ++ "),"))

theorem getterArms_eq (e : Emission) : e.getterArms = e.plan.params.map e.getterArm := rfl

/-- The statements that take a parameter in: its value is stored, and then the state is made anew if
it depends on the parameter. -/
def storing (e : Emission) (p : Param) : List String :=
  p.setter :: (e.rebuild? p).toList.map Assignment.statement

/-- The case that gives a parameter out has its key and the value of its field. -/
theorem readCases_getterArm (e : Emission) (p : Param) (rest : List (List Char)) :
    readCases none ((e.getterArm p).line :: rest)
      = (readCases none rest).map ((p.key, ["Some(" ++ p.getter ++ ")"]) :: ·) := by
  have text : (e.getterArm p).text
      = quote p.key ++ " => " ++ ("Some(" ++ p.getter ++ ")") ++ "," := by
    simp [getterArm, Entry.text, Entry.ofBlock, Stroke.text?, String.ext_iff]
  rw [Entry.line_of_beginsSolid text, readCases_line]
  rw [String.append_assoc, String.append_assoc]
  exact beginsSolid_quote_append p.key _

/-- The case that takes a parameter in has its key and all statements, in braces or on one line. -/
theorem readCases_setterArm (e : Emission) (p : Param) (rest : List (List Char)) :
    readCases none ((e.setterArm p).map Entry.line ++ rest)
      = (readCases none rest).map ((p.key, e.storing p) :: ·) := by
  unfold setterArm storing
  cases e.rebuild? p with
  | none =>
    have line : (Entry.ofBlock e .parameter (.line (quote p.key ++ " => " ++ p.setter ++ ","))).line
        = (quote p.key ++ " => " ++ p.setter ++ ",").toList := by
      refine Entry.line_of_beginsSolid rfl ?_
      rw [String.append_assoc, String.append_assoc]
      exact beginsSolid_quote_append p.key _
    dsimp only
    rw [List.map_singleton, List.singleton_append, line, readCases_line]
    rfl
  | some a =>
    have first : (Entry.ofBlock e .parameter (.opening (quote p.key ++ " => \x7b"))).line
        = (quote p.key ++ " => \x7b").toList :=
      Entry.line_of_beginsSolid rfl (beginsSolid_quote_append p.key _)
    have store : (Entry.ofBlock e .parameter (.line (p.setter ++ ";"))).line
        = (p.setter ++ ";").toList :=
      Entry.line_of_beginsSolid rfl (by simp [beginsSolid, Param.setter])
    have again : (Entry.ofBlock e .parameter (.line a.text)).line = (a.statement ++ ";").toList :=
      Entry.line_of_beginsSolid rfl (by simp [beginsSolid, Assignment.statement])
    have last : (Entry.plain (.closing "\x7d")).line = ['\x7d'] :=
      Entry.line_of_text rfl (by decide)
    simp only [List.map_cons, List.map_nil, first, store, again, last]
    exact readCases_block p.key [p.setter, a.statement] rest

end Emission

/-! ## Compiled strategies -/

/-- The parameters of all blocks, each with what is emitted for its block. -/
def parametersOf (es : List Emission) : List (Emission × Param) :=
  es.flatMap fun e => e.plan.params.map (e, ·)

theorem flatMap_parametersOf {α : Type} (es : List Emission) (f : Emission → Param → List α) :
    (parametersOf es).flatMap (fun x => f x.1 x.2)
      = es.flatMap fun e => e.plan.params.flatMap (f e) := by
  simp only [parametersOf, List.flatMap_assoc, List.flatMap_map]

section

variable {o : Options} {catalog : Catalog} {d : Definition} {compiled : Compiled}
  {plans : List BlockPlan} {es : List Emission}

/-- The keys are those of all parameters, in their order. -/
theorem Compiles.parameterKeys_eq (h : Compiles o catalog d compiled plans es) :
    compiled.parameterKeys = (parametersOf es).map (·.2.key) := by
  rw [h.result, parametersOf, List.map_flatMap]
  simp only [List.map_map, Function.comp_def]
  rfl

/-- No two parameters have the same key. -/
theorem Compiles.nodup_parameterKeys (h : Compiles o catalog d compiled plans es) :
    compiled.parameterKeys.Nodup := by
  have perm := h.arranged.map_plan_perm (planned_of_plan h.planned).1 h.sound
  have keys := (perm.flatMap_right fun p => p.params.map (·.key)).nodup_iff.mpr
    (nodup_keys_of_planBlocks h.planned)
  rw [List.flatMap_map] at keys
  rw [h.result]
  exact keys

/-- The cases of a function stand between its first line and the one for all other keys. -/
theorem Compiles.casesIn_eq (h : Compiles o catalog d compiled plans es) {f : FunctionPart}
    {name : String} (found : (o.program d es).functions.find? (·.name = name) = some f)
    {arms rest : List Entry} {otherwise : Entry} {cs : List Char}
    (body : f.body = .plain (.opening "match key \x7b") :: (arms ++ otherwise :: rest))
    (inside : ∀ entry ∈ arms, entry.IsMarked)
    (stop : otherwise.line = '_' :: ' ' :: '=' :: '>' :: cs) :
    casesIn name compiled.code = readCases none (arms.map Entry.line) := by
  have first : (Entry.plain (.opening "match key \x7b")).line = "match key \x7b".toList :=
    (Entry.line_of_text rfl (by decide)).trans String.toList_ofList.symm
  have arrow : "_ =>".toList = ['_', ' ', '=', '>'] := String.toList_ofList
  rw [casesIn, h.functionLines_eq found, body, List.map_cons, List.map_append, List.map_cons, first,
    arrow, stop]
  refine congrArg _ (linesBetween_eq (List.forall_mem_map.mpr fun entry mem => ?_) ?_ _)
  · exact (inside entry mem).isPrefixOf_line (by decide)
  · rfl

/-- The function that gives parameters out has a case for each of them, in their order. -/
theorem Compiles.casesIn_getter (h : Compiles o catalog d compiled plans es) :
    casesIn "get_parameter" compiled.code
      = some ((parametersOf es).map fun x => (x.2.key, ["Some(" ++ x.2.getter ++ ")"])) := by
  have found : (o.program d es).functions.find? (·.name = "get_parameter") = some ⟨"get_parameter",
      "pub fn get_parameter(&self, key: &str) -> Option<ParamValue> \x7b",
      (o.program d es).getter.drop 1 ++ (o.program d es).setter.take 1⟩ := rfl
  have body : (o.program d es).getter.drop 1 ++ (o.program d es).setter.take 1
      = .plain (.opening "match key \x7b") :: (es.flatMap Emission.getterArms
        ++ .plain (.line "_ => None,")
          :: ([Program.closingBrace, Program.closingBrace, .plain .blank]
            ++ (o.program d es).setter.take 1)) :=
    congrArg (_ :: ·) (List.append_assoc ..)
  have lines : (es.flatMap Emission.getterArms).map Entry.line
      = (parametersOf es).flatMap fun x => [(x.1.getterArm x.2).line] := by
    rw [flatMap_parametersOf es fun e p => [(e.getterArm p).line], List.map_flatMap]
    refine List.flatMap_congr fun e _ => ?_
    rw [Emission.getterArms_eq, List.map_map, List.map_eq_flatMap]
    simp only [Function.comp_apply]
  rw [h.casesIn_eq found body ?_ (Entry.line_of_text rfl (by decide)), lines]
  · exact readCases_flatMap fun x _ rest => x.1.readCases_getterArm x.2 rest
  · exact List.forall_mem_flatMap.mpr fun e _ => e.isMarked_getterArms

/-- The function that takes parameters in has a case for each of them, in their order. -/
theorem Compiles.casesIn_setter (h : Compiles o catalog d compiled plans es) :
    casesIn "set_parameter" compiled.code
      = some ((parametersOf es).map fun x => (x.2.key, x.1.storing x.2)) := by
  have found : (o.program d es).functions.find? (·.name = "set_parameter") = some ⟨"set_parameter",
      "pub fn set_parameter(&mut self, key: &str, value: ParamValue) "
        ++ "-> Result<(), ParamError> \x7b", (o.program d es).setter.drop 2⟩ := rfl
  have body : (o.program d es).setter.drop 2 = .plain (.opening "match key \x7b")
      :: (es.flatMap Emission.setterArms
        ++ .plain (.line "_ => return Err(ParamError::Unknown(key.to_string())),")
          :: [Program.closingBrace, .plain (.line "Ok(())"), Program.closingBrace,
            .plain .blank]) := rfl
  have lines : (es.flatMap Emission.setterArms).map Entry.line = (parametersOf es).flatMap
      fun x => (x.1.setterArm x.2).map Entry.line := by
    rw [flatMap_parametersOf es fun e p => (e.setterArm p).map Entry.line, List.map_flatMap]
    refine List.flatMap_congr fun e _ => ?_
    rw [Emission.setterArms, List.map_flatMap]
  rw [h.casesIn_eq found body ?_ (Entry.line_of_text rfl (by decide)), lines]
  · exact readCases_flatMap fun x _ rest => x.1.readCases_setterArm x.2 rest
  · exact List.forall_mem_flatMap.mpr fun e _ => e.isMarked_setterArms

/-- The keys are listed in the order of the parameters. -/
theorem Compiles.listedKeys_eq (h : Compiles o catalog d compiled plans es) :
    listedKeys compiled.code = some ((parametersOf es).map (·.2.key)) := by
  have found : (o.program d es).functions.find? (·.name = "parameter_keys")
      = some ⟨"parameter_keys", "pub fn parameter_keys() -> &'static [&'static str] \x7b",
        (o.program d es).keyList.drop 1 ++ (o.program d es).defaulting ++ [.plain .blank]⟩ := rfl
  have body : (o.program d es).keyList.drop 1 ++ (o.program d es).defaulting ++ [.plain .blank]
      = .plain (.opening "&[") :: (es.flatMap Emission.keyLines ++ .plain (.closing "]")
        :: ([Program.closingBrace, Program.closingBrace, .plain .blank]
          ++ (o.program d es).defaulting ++ [.plain .blank])) :=
    congrArg (_ :: ·) ((List.append_assoc ..).trans (List.append_assoc ..))
  have first : (Entry.plain (.opening "&[")).line = "&[".toList :=
    (Entry.line_of_text rfl (by decide)).trans String.toList_ofList.symm
  have last : (Entry.plain (.closing "]")).line = [']'] := Entry.line_of_text rfl (by decide)
  have lines : (es.flatMap Emission.keyLines).map Entry.line
      = ((parametersOf es).map (·.2.key)).map fun key => (quote key ++ ",").toList := by
    rw [parametersOf, List.map_flatMap, List.map_flatMap, List.map_flatMap]
    refine List.flatMap_congr fun e _ => ?_
    simp only [Emission.keyLines, List.map_map, Function.comp_def]
    exact List.map_congr_left fun p _ =>
      Entry.line_of_beginsSolid (s := quote p.key ++ ",") rfl (beginsSolid_quote_append p.key _)
  have keys (keys : List String) :
      (keys.map fun key => (quote key ++ ",").toList).mapM listedKey? = some keys := by
    induction keys with
    | nil => rfl
    | cons key rest ih =>
      rw [List.map_cons, List.mapM_cons, listedKey?_quote, ih]
      rfl
  rw [listedKeys, h.functionLines_eq found, body, List.map_cons, List.map_append, List.map_cons,
    first, last, linesBetween_eq ?_ (by simp), lines, keys]
  rw [lines, List.forall_mem_map]
  intro key _
  simp [quote]

/-! ## States -/

/-- The code that makes a state refers to parameters of the properties that it is made from, and to
no other fields. -/
theorem BlockView.exists_property_of_mem_fieldPaths {v : BlockView} (h : v.IsTidy) {s : StateRule}
    (spaced : Text.isSpaced (s.make.map (·.fixed?)) = true) {f : String}
    (mem : f ∈ fieldPaths (renderState v.readProperty s.make)) :
    ∃ name ∈ s.properties, ∃ p, v.param? name = some p ∧ p.field = f := by
  have closed : IsClosed (s.properties.filterMap fun name => (v.param? name).map (·.field))
      (renderState v.readProperty s.make) := by
    rw [renderState_eq]
    refine isClosed_join spaced (renderStatePiece_of_fixed? _) fun piece here given => ?_
    cases piece with
    | text => contradiction
    | property name =>
      show IsClosed _ (v.readProperty name)
      unfold readProperty
      cases found : v.param? name with
      | none => exact isClosed_empty
      | some p =>
        obtain ⟨_, field⟩ := h.named.exists_param (List.mem_of_find?_eq_some found)
        refine p.isClosed_read (field.isClosed_path (List.mem_filterMap.mpr ⟨name, ?_, ?_⟩))
        · exact List.mem_filterMap.mpr ⟨.property name, here, rfl⟩
        · rw [found]
          rfl
  obtain ⟨name, listed, found⟩ := List.mem_filterMap.mp (mem_of_mem_fieldPaths closed.resolves mem)
  obtain ⟨p, here, rfl⟩ := Option.map_eq_some_iff.mp found
  exact ⟨name, listed, p, here, rfl⟩

/-- The fields of parameters tell the parameters apart. -/
theorem Compiles.eq_of_field_eq (h : Compiles o catalog d compiled plans es)
    {x y : Emission × Param} (hx : x ∈ parametersOf es) (hy : y ∈ parametersOf es)
    (same : x.2.field = y.2.field) : x = y := by
  have distinct := (List.nodup_append'.mp h.nodup_parameters_and_running).1
  have fields : ((parametersOf es).map (·.2.field)).Nodup := by
    rw [parametersOf, List.map_flatMap]
    simpa only [List.map_map, Function.comp_def] using distinct
  exact List.inj_on_of_nodup_map fields hx hy same

/-- A state that a reset makes from a parameter is made anew when the parameter is taken in. -/
theorem Compiles.storing_eq (h : Compiles o catalog d compiled plans es) {e : Emission}
    (known : e ∈ es) {a : Assignment} (reset : a ∈ e.resets) {x : Emission × Param}
    (given : x ∈ parametersOf es) (reads : x.2.field ∈ fieldPaths a.value) :
    x.1.storing x.2 = [x.2.setter, a.statement] := by
  have planned := (planned_of_plan h.planned).1
  obtain ⟨listed, emits⟩ := h.arranged.emits e known
  obtain ⟨v, view⟩ := emits.exists_view planned h.sound listed
  have tidy := view.isTidy_view (isNamed_of_planBlocks h.planned) listed
  rcases List.mem_append.mp reset with state | output
  · obtain ⟨s, kept, rfl⟩ := List.mem_map.mp state
    have made : e.state = some s := Option.mem_toList.mp kept
    obtain ⟨rule, ruled, rfl⟩ : ∃ rule, (Rule.ofType e.plan.type).state = some rule
        ∧ v.stateField rule = s := by
      rw [view.emission] at made
      exact Option.map_eq_some_iff.mp made
    have spaced := (Bool.and_eq_true_iff.mp (Rule.isSpaced_ofType e.plan.type)).1
    rw [ruled, Option.all_some, Bool.and_eq_true] at spaced
    obtain ⟨name, asked, p, found, field⟩ :=
      BlockView.exists_property_of_mem_fieldPaths tidy spaced.2 reads
    -- the parameter whose field is read is that of the block itself
    have own : (e, p) ∈ parametersOf es := by
      have mem := List.mem_of_find?_eq_some found
      rw [view.plan] at mem
      exact List.mem_flatMap.mpr ⟨e, known, List.mem_map_of_mem mem⟩
    obtain rfl := h.eq_of_field_eq own given field
    have property : p.property = name := by simpa using List.find?_some found
    have depends : (v.stateField rule).dependsOn.contains p.property = true := by
      rw [property]
      exact List.elem_eq_true_of_mem asked
    rw [Emission.storing, Emission.rebuild?, made, Option.filter_some, if_pos depends]
    rfl
  · obtain ⟨port, -, rfl⟩ := List.mem_map.mp output
    have closed : IsClosed [] (defaultValue port.kind) := isClosed_defaultValue _
    exact absurd (mem_of_mem_fieldPaths closed.resolves reads) List.not_mem_nil

/-- An assignment is told by its text. -/
theorem Assignment.eq_of_text {a b : Assignment} (ha : IsWord a.field) (hb : IsWord b.field)
    (same : a.text.toList = b.text.toList) : a = b := by
  have chars (a : Assignment) : a.text.toList = "self.".toList
      ++ (a.field.toList ++ ' ' :: '=' :: ' ' :: (a.value.toList ++ [';'])) := by
    simp [Assignment.text]
  have spaceless {s : String} (word : IsWord s) : ' ' ∉ s.toList :=
    fun mem => absurd (word ' ' mem) (by decide)
  rw [chars, chars, List.append_cancel_left_eq] at same
  have fields : a.field.toList = b.field.toList := by
    have fronts := congrArg (List.takeWhile (· ≠ ' ')) same
    rwa [takeWhile_ne_append (spaceless ha), takeWhile_ne_append (spaceless hb)] at fronts
  rw [fields, List.append_cancel_left_eq] at same
  have values : a.value.toList = b.value.toList := by simpa using same
  cases a
  cases b
  exact congrArg₂ Assignment.mk (String.toList_inj.mp fields) (String.toList_inj.mp values)

/-- What a reset assigns, line by line. -/
theorem Compiles.functionLines_reset (h : Compiles o catalog d compiled plans es) :
    functionLines "reset" compiled.code
      = (es.flatMap Emission.resets).map (·.text.toList) ++ [['\x7d'], []] := by
  have brace : Program.closingBrace.line = ['\x7d'] := Entry.line_of_text rfl (by decide)
  have last : [Program.closingBrace, Entry.plain .blank].map Entry.line = [['\x7d'], []] :=
    congrArg (· :: [[]]) brace
  have lines : (es.flatMap Emission.resetLines).map Entry.line
      = (es.flatMap Emission.resets).map (·.text.toList) := by
    rw [List.map_flatMap, List.map_flatMap]
    refine List.flatMap_congr fun e _ => ?_
    rw [Emission.resetLines, List.map_map]
    exact List.map_congr_left fun a _ => Entry.line_of_beginsSolid (s := a.text) rfl
      (by simp [beginsSolid, Assignment.text])
  rw [h.functionLines_eq (o.program d es).find?_reset, List.map_append, last]
  exact congrArg (· ++ _) lines

/-- A line of the reset that assigns a value is an assignment of one of the blocks. -/
theorem Compiles.exists_reset (h : Compiles o catalog d compiled plans es) {f value : String}
    (name : isIdentifier f = true) (mem : ("self." ++ f ++ " = " ++ value ++ ";").toList
      ∈ functionLines "reset" compiled.code) : ∃ e ∈ es, ⟨f, value⟩ ∈ e.resets := by
  rw [h.functionLines_reset, List.mem_append] at mem
  rcases mem with line | other
  · obtain ⟨a, reset, same⟩ := List.mem_map.mp line
    obtain ⟨e, known, mine⟩ := List.mem_flatMap.mp reset
    obtain ⟨_, field⟩ := (h.isClosed e known).tidy.exists_letter_reset mine
    obtain rfl := Assignment.eq_of_text (b := ⟨f, value⟩) field.isWord
      (isWord_of_isIdentifier name) same
    exact ⟨e, known, mine⟩
  · simp at other

/-- No two parameters have the same key. The functions that list the keys, give parameters out and
take parameters in have all the keys in the same order. For each parameter the value of its field is
given out as one of its kind, and a value that is taken in is checked to be of its kind and stored
in its field. If a line of the reset assigns a value that reads this field, the same assignment is
made after the parameter is stored. -/
theorem parameterKeys_of_compile (h : compile o catalog d = .ok compiled) :
    compiled.parameterKeys.Nodup ∧ listedKeys compiled.code = some compiled.parameterKeys
    ∧ ∃ es getters setters, emissions catalog d = .ok es
      ∧ casesIn "get_parameter" compiled.code = some getters
      ∧ casesIn "set_parameter" compiled.code = some setters
      ∧ compiled.parameterKeys = (es.flatMap (·.plan.params)).map (·.key)
      ∧ getters.map (·.1) = compiled.parameterKeys ∧ setters.map (·.1) = compiled.parameterKeys
      ∧ ∀ (i : Nat) (p : Param), (es.flatMap (·.plan.params))[i]? = some p →
        (∃ value, getters[i]? = some (p.key, [value])
          ∧ value = p.kind.given ("self." ++ p.field) ∧ fieldPaths value = [p.field])
        ∧ ∃ store rebuild, setters[i]? = some (p.key, store :: rebuild)
          ∧ store = "self." ++ p.field ++ " = " ++ p.kind.taken
          ∧ assignedFields store.toList = [p.field]
          ∧ ∀ f value, isIdentifier f = true →
            ("self." ++ f ++ " = " ++ value ++ ";").toList ∈ functionLines "reset" compiled.code →
            p.field ∈ fieldPaths value → rebuild = ["self." ++ f ++ " = " ++ value] := by
  obtain ⟨-, -, es, emitted, -⟩ := compile_eq_ok h
  obtain ⟨plans, c⟩ := exists_compiles_of_emissions h emitted
  have params : es.flatMap (·.plan.params) = (parametersOf es).map (·.2) := by
    rw [parametersOf, List.map_flatMap]
    simp
  have keys := c.parameterKeys_eq
  refine ⟨c.nodup_parameterKeys, keys ▸ c.listedKeys_eq, es, _, _, emitted, c.casesIn_getter,
    c.casesIn_setter, ?_, ?_, ?_, fun i p here => ?_⟩
  · rw [keys, params, List.map_map]
    rfl
  · rw [keys, List.map_map]
    rfl
  · rw [keys, List.map_map]
    rfl
  · rw [params, List.getElem?_map] at here
    obtain ⟨⟨e, q⟩, there, rfl⟩ := Option.map_eq_some_iff.mp here
    have given := List.mem_of_getElem? there
    obtain ⟨_, field⟩ : ∃ letter, IsFieldName letter q.field := by
      obtain ⟨e', known, mem⟩ := List.mem_flatMap.mp given
      obtain ⟨q', mine, same⟩ := List.mem_map.mp mem
      obtain ⟨rfl, rfl⟩ := Prod.mk.inj same
      exact (c.isClosed e' known).tidy.named.exists_param mine
    refine ⟨⟨_, by rw [List.getElem?_map, there]; rfl, q.some_getter_eq, ?_⟩, q.setter, _,
      by rw [List.getElem?_map, there]; rfl, q.setter_eq, ?_, fun f value name line reads => ?_⟩
    · rw [q.some_getter_eq]
      exact q.kind.fieldPaths_given field
    · rw [q.setter_eq]
      exact q.kind.assignedFields_taken field
    obtain ⟨e', known, reset⟩ := c.exists_reset name line
    exact (List.cons.inj (c.storing_eq known reset given reads)).2

/-- The period of an average is given out, and after it is stored the average starts anew. -/
theorem parameterKeys_averageLog : ∃ compiled, compile .default ⟨[]⟩ averageLog = .ok compiled
    ∧ compiled.parameterKeys.Nodup
    ∧ ∃ getters setters, casesIn "get_parameter" compiled.code = some getters
      ∧ casesIn "set_parameter" compiled.code = some setters
      ∧ getters[0]?
        = some ("Average_period", ["Some(ParamValue::Number(self.p_average_period))"])
      ∧ setters[0]? = some ("Average_period", ["self.p_average_period = value.as_number(key)?",
        "self.s_average = SMA::new(period_of(self.p_average_period))"]) := by
  obtain ⟨compiled, h⟩ := isOk_compile_averageLog
  obtain ⟨distinct, -, es, getters, setters, emitted, given, taken, -, -, -, served⟩ :=
    parameterKeys_of_compile h
  obtain ⟨plans, c⟩ := exists_compiles_of_emissions h emitted
  have emits : (emissions ⟨[]⟩ averageLog).toOption.map (fun es =>
      (((es.flatMap (·.plan.params)).map fun p => (p.key, p.field, p.kind))[0]?,
        (es.flatMap Emission.resets)[3]?))
          = some (some ("Average_period", "p_average_period", .number),
            some ⟨"s_average", "SMA::new(period_of(self.p_average_period))"⟩) := by decide +kernel
  rw [emitted] at emits
  obtain ⟨first, reset⟩ := Prod.mk.inj (Option.some.inj emits)
  rw [List.getElem?_map] at first
  obtain ⟨p, here, same⟩ := Option.map_eq_some_iff.mp first
  obtain ⟨key, same⟩ := Prod.mk.inj same
  obtain ⟨field, kind⟩ := Prod.mk.inj same
  have line := List.mem_append_left [['\x7d'], []]
    (List.mem_map_of_mem (f := fun a : Assignment => a.text.toList) (List.mem_of_getElem? reset))
  rw [← c.functionLines_reset] at line
  obtain ⟨⟨value, get, shown, -⟩, store, rebuild, set, stored, -, again⟩ := served 0 p here
  rw [key, field, kind] at *
  have rebuilt := again "s_average" _ (by decide +kernel) line (by decide +kernel)
  have getter : ParamKind.number.given ("self." ++ "p_average_period")
      = "Some(ParamValue::Number(self.p_average_period))" := by decide +kernel
  have setter : "self." ++ "p_average_period" ++ " = " ++ ParamKind.number.taken
      = "self.p_average_period = value.as_number(key)?" := by decide +kernel
  have restart : "self." ++ "s_average" ++ " = " ++ "SMA::new(period_of(self.p_average_period))"
      = "self.s_average = SMA::new(period_of(self.p_average_period))" := by decide +kernel
  rw [shown, getter] at get
  rw [stored, rebuilt, setter, restart] at set
  exact ⟨compiled, h, distinct, getters, setters, given, taken, get, set⟩

end

end StrategyCanvas.Code
