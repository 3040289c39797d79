import StrategyCanvas.Code.Writer
import StrategyCanvas.Proofs.Code.Sheet
import StrategyCanvas.Proofs.Run

/-!
# What is written

A writer keeps three accounts of what it writes, the text, the number of lines and the depth. They
agree with each other and with the strokes laid out as a sheet (`Writer.stateAfter_write`), and so
does each answer (`Writer.write_eq`).
-/

namespace StrategyCanvas.Code

open Text

namespace Writer

/-- The line that a stroke writes. -/
def next (w : Writer) (s : Stroke String) : LaidLine :=
  ⟨w.lines + 1, s.level w.depth * w.unit, s.text?.getD ""⟩

theorem repeat_push (c : Char) (n : Nat) (text : String) :
    n.repeat (String.push · c) text = text ++ String.ofList (List.replicate n c) := by
  induction n with
  | zero => simp [Nat.repeat]
  | succ n ih =>
    rw [Nat.repeat, ih, ← String.toList_inj]
    simp [List.replicate_succ']

/-- A stroke adds one line to the text, and counts one line. -/
theorem write_eq (w : Writer) (s : Stroke String) :
    w.write s = (s.text?.map fun _ => ⟨(w.next s).number, (w.next s).indent⟩,
      { text := w.text ++ String.ofList ((w.next s).chars ++ ['\n'])
        lines := w.lines + 1
        depth := s.depthAfter w.depth
        unit := w.unit }) := by
  cases s <;>
    simp [write, line, lineAt, blank, opening, closing, next, repeat_push, Stroke.text?,
      Stroke.level, Stroke.depthAfter, LaidLine.chars, ← String.toList_inj]

/-- A writer has written the sheet on which the strokes are laid out. -/
theorem stateAfter_write (w : Writer) (strokes : List (Stroke String)) :
    stateAfter write w strokes =
      { text := w.text ++ sheetText (lay w.unit w.depth w.lines strokes)
        lines := w.lines + strokes.length
        depth := strokes.foldl Stroke.depthAfter w.depth
        unit := w.unit } := by
  induction strokes generalizing w with
  | nil => simp [stateAfter, lay, sheetText]
  | cons s rest ih =>
    have first : stateAfter write w (s :: rest) = stateAfter write (w.write s).2 rest := rfl
    rw [first, ih, write_eq]
    simp only [lay, sheetText, List.flatMap_cons, String.ofList_append, String.append_assoc, next,
      List.length_cons, List.foldl_cons, Nat.add_assoc, Nat.add_comm 1]

theorem text_stateAfter (unit : Nat) (strokes : List (Stroke String)) :
    (stateAfter write (new unit) strokes).text = sheetText (lay unit 0 0 strokes) := by
  rw [stateAfter_write]
  exact String.empty_append

theorem depth_stateAfter (unit : Nat) (strokes : List (Stroke String)) :
    (stateAfter write (new unit) strokes).depth = strokes.foldl Stroke.depthAfter 0 := by
  rw [stateAfter_write]
  rfl

section

variable {unit k : Nat} {strokes : List (Stroke String)} {s : Stroke String}

/-- What is written by some of the first strokes. -/
def after (unit : Nat) (strokes : List (Stroke String)) (k : Nat) : Writer :=
  stateAfter write (new unit) (strokes.take k)

theorem getElem?_answers_write (h : strokes[k]? = some s) :
    (answers write (new unit) strokes)[k]? = some (((after unit strokes k).write s).1) := by
  rw [getElem?_answers, h]
  rfl

theorem after_succ (h : strokes[k]? = some s) :
    after unit strokes (k + 1) = ((after unit strokes k).write s).2 := by
  rw [after, List.take_add_one, h]
  exact stateAfter_append_singleton ..

theorem lines_after (h : k ≤ strokes.length) : (after unit strokes k).lines = k := by
  rw [after, stateAfter_write]
  simp [new, Nat.min_eq_left h]

theorem unit_after : (after unit strokes k).unit = unit := by
  rw [after, stateAfter_write]
  rfl

/-- The strokes are laid out as the lines that they write one after the other. -/
theorem getElem?_lay_eq_next (h : strokes[k]? = some s) :
    (lay unit 0 0 strokes)[k]? = some ((after unit strokes k).next s) := by
  have bound := (List.getElem?_eq_some_iff.mp h).1
  rw [getElem?_lay, h, after, stateAfter_write]
  simp [next, new, Nat.min_eq_left (Nat.le_of_lt bound)]

/-- What the finished text is made of, if no stroke brings a line feed of its own: as many lines as
there are strokes, each ended by a line feed, and the line that a stroke writes in its place. -/
theorem linesOf_stateAfter (clean : ∀ s ∈ strokes, IsOneLine (s.text?.getD "")) (unit : Nat) :
    let finished := (stateAfter write (new unit) strokes).text
    finished.toList.count '\n' = strokes.length
    ∧ (linesOf finished).length = strokes.length + 1
    ∧ ∀ k s, strokes[k]? = some s →
      (linesOf finished)[k]? = some ((after unit strokes k).next s).chars := by
  have lines : ∀ l ∈ lay unit 0 0 strokes, IsOneLine l.text := by
    intro l mem
    obtain ⟨k, here⟩ := List.getElem?_of_mem mem
    rw [getElem?_lay, Option.map_eq_some_iff] at here
    obtain ⟨s, stands, rfl⟩ := here
    exact clean s (List.mem_of_getElem? stands)
  intro finished
  have text : finished = sheetText (lay unit 0 0 strokes) := text_stateAfter unit strokes
  refine ⟨?_, ?_, fun k s h => ?_⟩
  · rw [text, count_sheetText lines, length_lay]
  · rw [text, linesOf_sheetText lines]
    simp
  · have here : (lay unit 0 0 strokes)[k]? = some ((after unit strokes k).next s) :=
      getElem?_lay_eq_next h
    have bound := (List.getElem?_eq_some_iff.mp here).1
    rw [text, linesOf_sheetText lines, List.getElem?_append_left (by simpa using bound),
      List.getElem?_map, here]
    rfl

/-- What the writer does at a stroke: it adds a line to the text, and answers with the number and
the indentation of that line, or with nothing where the stroke has no text. -/
theorem write_next (h : strokes[k]? = some s) :
    let line := ((after unit strokes k).next s).chars
    (after unit strokes (k + 1)).text
      = (after unit strokes k).text ++ String.ofList (line ++ ['\n'])
    ∧ match s.text? with
      | some text => ∃ indent, indent = s.level (after unit strokes k).depth * unit
          ∧ (answers write (new unit) strokes)[k]? = some (some ⟨k + 1, indent⟩)
          ∧ line = List.replicate indent ' ' ++ text.toList
      | none => (answers write (new unit) strokes)[k]? = some none ∧ line = [] := by
  have bound := (List.getElem?_eq_some_iff.mp h).1
  rw [after_succ h, getElem?_answers_write h, write_eq]
  refine ⟨rfl, ?_⟩
  cases text : s.text? with
  | some t =>
    refine ⟨_, rfl, ?_, ?_⟩
    · simp [next, lines_after (Nat.le_of_lt bound), unit_after]
    · simp [next, LaidLine.chars, text, unit_after]
  | none =>
    -- only the blank line has no text, and it is written at the margin
    obtain rfl : s = .blank := by
      cases s <;> first | rfl | contradiction
    simp [next, LaidLine.chars, Stroke.text?, Stroke.level]

end

end Writer

end StrategyCanvas.Code
