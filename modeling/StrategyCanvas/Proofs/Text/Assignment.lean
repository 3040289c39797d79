import Mathlib.Data.List.TakeWhile
import StrategyCanvas.Proofs.Text.FieldPath

/-!
# Assignments in code

The fields that a text of code assigns: those whose paths, outside comments and literals, stand in
front of an assignment operator. Where a path and an operator can meet at a joint, what is assigned
depends on what follows. A text that refers to some fields only assigns no others, whatever follows
(`confined_of_resolves`); the value of a parameter is not assigned where something else than an
operator follows, and lines are put together from such pieces (`confined_pieces`).
-/

namespace StrategyCanvas.Text

/-! ## Reading assignments -/

/-- Characters that can stand in front of an equals sign in an assignment. -/
def operators : List Char := ['+', '-', '*', '/', '%', '&', '|', '^']

/-- Words that begin with an assignment operator. Comparisons and the arrows of cases are none. -/
def isAssignment : List (List Char) → Bool
  | ['='] :: rest => rest.head?.all fun next => next ≠ ['='] && next ≠ ['>']
  | [c] :: ['='] :: _ => operators.contains c
  | ['<'] :: ['<'] :: ['='] :: _ => true
  | ['>'] :: ['>'] :: ['='] :: _ => true
  | _ => false

/-- The name behind `self` and a dot, if that is how a list of words begins and if an assignment
operator follows. -/
def assignedField? : List (List Char) → Option String
  | word :: dot :: name :: rest =>
    if word = selfWord ∧ dot = ['.'] ∧ isAssignment rest = true then some (String.ofList name)
    else none
  | _ => none

/-- The fields that are assigned in a list of words, in order. -/
def assigned (ws : List (List Char)) : List String := ws.tails.filterMap assignedField?

/-- The fields that a text of code assigns, in order. -/
def assignedFields (code : List Char) : List String := assigned (words (visible .code code))

example : assignedFields "self.a = self.b; self.c += \"self.d = 1\" // self.e = 2".toList
    = ["a", "c"] := by decide +kernel

/-- Assigned fields are read off word by word. -/
theorem assigned_cons (word : List Char) (ws : List (List Char)) :
    assigned (word :: ws) = (assignedField? (word :: ws)).toList ++ assigned ws := by
  unfold assigned
  rw [List.tails_cons, List.filterMap_cons]
  cases assignedField? (word :: ws) <;> rfl

/-- Only `self` can begin an assignment. -/
theorem assigned_cons_of_ne {word : List Char} (h : word ≠ selfWord) (ws : List (List Char)) :
    assigned (word :: ws) = assigned ws := by
  have none : assignedField? (word :: ws) = none := by
    unfold assignedField?
    split
    · rename_i same
      obtain ⟨rfl, -⟩ := List.cons.inj same
      exact if_neg fun both => h both.1
    · rfl
  rw [assigned_cons, none]
  rfl

/-- What is assigned has a path. -/
theorem fieldPath?_of_assignedField? {ws : List (List Char)} {f : String}
    (h : assignedField? ws = some f) : fieldPath? ws = some f := by
  unfold assignedField? at h
  split at h
  · split at h
    · rename_i word dot name rest all
      obtain ⟨rfl, rfl, -⟩ := all
      exact h
    · contradiction
  · contradiction

/-- Whether a word is no part of an assignment operator. -/
def isQuiet (word : List Char) : Bool :=
  match word with
  | [c] => c ≠ '=' && c ≠ '<' && c ≠ '>' && !operators.contains c
  | _ => true

/-- A quiet word is no sign of assignment. -/
theorem isAssignment_of_isQuiet {word : List Char} (h : isQuiet word = true)
    (ws : List (List Char)) : isAssignment (word :: ws) = false := by
  unfold isAssignment
  split
  all_goals simp_all [isQuiet]

/-! ## Confined texts -/

section

variable {fields : List String} {ws vs : List (List Char)} {word : List Char}

/-- Words that, whatever follows, assign no fields but the given ones. -/
def Confined (fields : List String) (ws : List (List Char)) : Prop :=
  ∀ more, ∃ fs ⊆ fields, assigned (ws ++ more) = fs ++ assigned more

/-- Words that assign no fields but the given ones if no assignment operator follows. -/
def Restrained (fields : List String) (ws : List (List Char)) : Prop :=
  ∀ more, isAssignment more = false → ∃ fs ⊆ fields, assigned (ws ++ more) = fs ++ assigned more

theorem confined_nil : Confined fields [] := fun _ => ⟨[], List.nil_subset _, rfl⟩

/-- Texts that assign to known fields only do so one after the other. -/
theorem Confined.append (h : Confined fields ws) (h' : Confined fields vs) :
    Confined fields (ws ++ vs) := by
  intro more
  obtain ⟨fs, sub, first⟩ := h (vs ++ more)
  obtain ⟨gs, sub', second⟩ := h' more
  refine ⟨fs ++ gs, List.append_subset.mpr ⟨sub, sub'⟩, ?_⟩
  rw [List.append_assoc, first, second, List.append_assoc]

/-- Words that assign to known fields only do so before whatever follows quietly. -/
theorem Confined.restrained (h : Confined fields ws) : Restrained fields ws :=
  fun more _ => h more

/-- All fields that are assigned are known. -/
theorem Confined.subset (h : Confined fields ws) : assigned ws ⊆ fields := by
  obtain ⟨fs, sub, same⟩ := h []
  have nothing : assigned [] = [] := rfl
  rw [List.append_nil, nothing, List.append_nil] at same
  rwa [same]

/-- Words that assign nothing can be left out. -/
theorem Confined.assigned_append (h : Confined [] ws) (more : List (List Char)) :
    assigned (ws ++ more) = assigned more := by
  obtain ⟨fs, sub, same⟩ := h more
  rw [same, List.subset_nil.mp sub, List.nil_append]

/-- Any number of confined texts are confined together. -/
theorem Confined.flatMap {α : Type} {l : List α} {text : α → List (List Char)}
    (h : ∀ x ∈ l, Confined fields (text x)) : Confined fields (l.flatMap text) := by
  induction l with
  | nil => exact confined_nil
  | cons x rest ih =>
    rw [List.forall_mem_cons] at h
    exact h.1.append (ih h.2)

/-- Of texts that each assign one field, one after the other, the fields are assigned in order. -/
theorem assigned_flatMap {α : Type} {l : List α} {text : α → List (List Char)} {field : α → String}
    (h : ∀ x ∈ l, ∀ more, assigned (text x ++ more) = field x :: assigned more)
    (more : List (List Char)) :
    assigned (l.flatMap text ++ more) = l.map field ++ assigned more := by
  induction l with
  | nil => rfl
  | cons x rest ih =>
    rw [List.forall_mem_cons] at h
    rw [List.flatMap_cons, List.append_assoc, h.1, ih h.2, List.map_cons, List.cons_append]

/-- A word in front assigns to known fields if it does whatever follows. -/
theorem confined_cons (word : List Char) (known : ∀ more, ∀ f ∈ assignedField? (word :: ws ++ more),
    f ∈ fields) (h : Confined fields ws) : Confined fields (word :: ws) := by
  intro more
  obtain ⟨fs, sub, same⟩ := h more
  refine ⟨(assignedField? (word :: ws ++ more)).toList ++ fs, ?_, ?_⟩
  · refine List.append_subset.mpr ⟨fun f mem => ?_, sub⟩
    exact known more f (Option.mem_toList.mp mem)
  · rw [List.append_assoc, ← same]
    exact assigned_cons word (ws ++ more)

/-- Words whose field paths are complete assign only fields that they refer to. -/
theorem confined_of_resolves (h : Resolves fields ws) : Confined fields ws := by
  induction ws with
  | nil => exact confined_nil
  | cons word rest ih =>
    rw [resolves_cons] at h
    refine confined_cons word (fun more f found => ?_) (ih h.2)
    exact mem_of_isResolved (isResolved_append h.1) (fieldPath?_of_assignedField? found)

/-- The path of a field at the end of some words. -/
theorem restrained_path {front : List (List Char)} {name : List Char} (h : selfWord ∉ front)
    (other : name ≠ selfWord) : Restrained fields (front ++ [selfWord, ['.'], name]) := by
  intro more quiet
  refine ⟨[], List.nil_subset _, ?_⟩
  have path : assigned ([selfWord, ['.'], name] ++ more) = assigned more := by
    have unassigned : assignedField? (selfWord :: ['.'] :: name :: more) = none :=
      if_neg fun all => by simp [quiet] at all
    rw [List.cons_append, assigned_cons]
    simp only [List.cons_append, List.nil_append, unassigned, Option.toList_none]
    rw [assigned_cons_of_ne (by decide), assigned_cons_of_ne other]
  have before : Confined [] front := confined_of_resolves (resolves_of_not_mem h)
  rw [List.append_assoc, before.assigned_append, path, List.nil_append]

/-- Whether the first word of a fixed text is no part of an assignment operator. -/
def beginsQuiet (cs : List Char) : Bool := (words cs).head?.any isQuiet

/-- Whether each guarded piece of a text has a fixed piece behind it that does not begin like an
operator. -/
def areGuarded : List (Bool × Option (List Char)) → Bool
  | [] => true
  | piece :: rest => (!piece.1 || rest.head?.any (·.2.any beginsQuiet)) && areGuarded rest

/-- The first word of a text that begins quietly is quiet. -/
theorem exists_words_of_beginsQuiet {cs : List Char} (fixed : isFixed cs = true)
    (h : beginsQuiet cs = true) : ∃ word rest,
      words (visible .code (String.ofList cs).toList) = word :: rest ∧ isQuiet word = true := by
  rw [String.toList_ofList, visible_of_isPlain (isPlain_of_isFixed fixed)]
  obtain ⟨word, first, quiet⟩ := (Option.any_eq_true ..).mp h
  obtain ⟨rest, all⟩ := List.head?_eq_some_iff.mp first
  exact ⟨word, rest, all, quiet⟩

section

variable {α : Type} {pieces : List α} {isGuarded : α → Bool} {text? : α → Option (List Char)}
  {render : α → String}

/-- A text that is put together from fixed pieces and from given ones, some of which are guarded,
assigns no fields but the given ones. -/
theorem confined_pieces (guards : areGuarded (pieces.map fun x => (isGuarded x, text? x)) = true)
    (spaced : isSpaced (pieces.map text?) = true)
    (texts : ∀ piece cs, text? piece = some cs → render piece = String.ofList cs)
    (free : ∀ piece ∈ pieces, isGuarded piece = false →
      Confined fields (words (visible .code (render piece).toList)))
    (guarded : ∀ piece ∈ pieces, isGuarded piece = true →
      Restrained fields (words (visible .code (render piece).toList))) :
    Confined fields (pieces.flatMap fun piece => words (visible .code (render piece).toList)) := by
  induction pieces with
  | nil => exact confined_nil
  | cons piece rest ih =>
    rw [List.map_cons, areGuarded, Bool.and_eq_true] at guards
    rw [List.forall_mem_cons] at free guarded
    have later := ih guards.2 (isSpaced_tail spaced) free.2 guarded.2
    rw [List.flatMap_cons]
    cases held : isGuarded piece with
    | false => exact (free.1 held).append later
    | true =>
      cases rest with
      | nil => simp [held] at guards
      | cons next rest =>
        have ends : (text? next).any beginsQuiet = true := by simpa [held] using guards.1
        obtain ⟨cs, fixed, begins⟩ := (Option.any_eq_true ..).mp ends
        obtain ⟨word, others, first, quiet⟩ := exists_words_of_beginsQuiet
          (isFixed_of_isSpaced (isSpaced_tail spaced) List.mem_cons_self fixed) begins
        rw [← texts next cs fixed] at first
        intro more
        obtain ⟨gs, sub', second⟩ := later more
        have silent : isAssignment ((next :: rest).flatMap
            (fun piece => words (visible .code (render piece).toList)) ++ more) = false := by
          rw [List.flatMap_cons, first, List.cons_append, List.cons_append]
          exact isAssignment_of_isQuiet quiet _
        obtain ⟨fs, sub, same⟩ := guarded.1 held _ silent
        refine ⟨fs ++ gs, List.append_subset.mpr ⟨sub, sub'⟩, ?_⟩
        rw [List.append_assoc, same, second, List.append_assoc]

end

end

/-! ## Assignments -/

/-- A value that assigns nothing and does not begin like an operator is assigned to a field. -/
theorem assigned_path {name word : List Char} {value : List (List Char)} (other : name ≠ selfWord)
    (quiet : isQuiet word = true) (confined : Confined [] (word :: value))
    (more : List (List Char)) :
    assigned ([selfWord, ['.'], name, ['=']] ++ word :: value ++ more)
      = String.ofList name :: assigned more := by
  have operator : isAssignment (['='] :: word :: (value ++ more)) = true := by
    have apart : word ≠ ['='] ∧ word ≠ ['>'] := by
      constructor
      · rintro rfl
        contradiction
      · rintro rfl
        contradiction
    simp [isAssignment, apart]
  have path : assignedField? ([selfWord, ['.'], name, ['=']] ++ word :: value ++ more)
      = some (String.ofList name) := if_pos ⟨rfl, rfl, operator⟩
  rw [List.cons_append, List.cons_append, assigned_cons]
  rw [List.cons_append, List.cons_append] at path
  rw [path]
  simp only [List.cons_append, List.nil_append, Option.toList_some]
  rw [assigned_cons_of_ne (by decide), assigned_cons_of_ne other, assigned_cons_of_ne (by decide),
    ← List.cons_append, confined.assigned_append]

/-! ## Lines -/

/-- The words of a line. -/
def lineWords (line : List Char) : List (List Char) := words (visible .code (line ++ ['\n']))

section

variable {fields : List String} {s : String}

/-- The words of a closed line are those that are seen of it. -/
theorem IsClosed.lineWords_eq (h : IsClosed fields s) :
    lineWords s.toList = words (visible .code s.toList) := by
  rw [lineWords, h.settled, words_append (.inr rfl)]
  exact List.append_nil _

/-- A closed line assigns only fields that it refers to. -/
theorem IsClosedLine.confined (h : IsClosedLine fields s) :
    Confined fields (lineWords s.toList) := by
  obtain ⟨seen, read, resolves⟩ := h
  rw [lineWords, read, words_append (.inr rfl)]
  exact (confined_of_resolves resolves).append confined_nil

/-- A comment has no words. -/
theorem lineWords_comment (h : IsOneLine s) (front : ['/', '/'] <+: s.toList) :
    lineWords s.toList = [] := by
  obtain ⟨cs, chars⟩ := front
  rw [IsOneLine, ← chars, List.mem_append, not_or] at h
  rw [lineWords, ← chars]
  exact congrArg words (visible_comment h.2 [])

/-- The words of closed lines, however they were indented, are those of one line after the other. -/
theorem words_lines {lines : List String} (h : ∀ s ∈ lines, IsClosedLine fields s) :
    words (visible .code (lines.flatMap fun s => s.toList.dropWhile (· = ' ') ++ ['\n']))
      = lines.flatMap fun s => lineWords s.toList := by
  induction lines with
  | nil => rfl
  | cons s rest ih =>
    rw [List.forall_mem_cons] at h
    obtain ⟨⟨seen, read, -⟩, later⟩ := h
    -- what is seen of the line and of the rest is the same with the indentation and without it
    have blank : ∀ c ∈ s.toList.takeWhile (· = ' '), c = ' ' := fun c mem => by
      simpa using List.mem_takeWhile_imp mem
    have plain : isPlain (s.toList.takeWhile (· = ' ')) = true :=
      List.all_eq_true.mpr fun c mem => by simp [blank c mem]
    have indented (more : List Char) :
        words (visible .code (s.toList.dropWhile (· = ' ') ++ '\n' :: more))
          = words (seen ++ '\n' :: visible .code more) := by
      rw [← read, ← words_indent blank, ← visible_append plain, ← List.append_assoc,
        List.takeWhile_append_dropWhile]
    have alone : lineWords s.toList = words seen := by
      rw [lineWords, read, words_append (.inr rfl)]
      exact List.append_nil _
    have feed (cs : List Char) : words ('\n' :: cs) = words cs := by
      rw [← List.singleton_append, words_append (.inl rfl)]
      rfl
    rw [List.flatMap_cons, List.append_assoc, List.singleton_append, indented,
      words_append (.inr rfl), feed, ih later, List.flatMap_cons, alone]

end

end StrategyCanvas.Text
