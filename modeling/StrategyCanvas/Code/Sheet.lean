/-!
# Sheets of code

Code is written as a list of strokes: lines, blank lines, and lines that begin or end an indented
part. Laying the strokes out gives every stroke its own line with a number and an indentation, and
both the finished text and all positions in it are read off these lines.
-/

namespace StrategyCanvas.Code

/-- One act of writing. -/
inductive Stroke (α : Type)
  /-- A line at the current depth. -/
  | line (text : α)
  /-- A line some levels deeper than the current depth. -/
  | lineAt (extra : Nat) (text : α)
  /-- An empty line. -/
  | blank
  /-- A line at the current depth; what follows is one level deeper. -/
  | opening (text : α)
  /-- A line one level out; what follows stays there. -/
  | closing (text : α)
  deriving DecidableEq, Repr

/-- A line in its place: its number, counted from one, its indentation and its text. -/
structure LaidLine where
  number : Nat
  indent : Nat
  text : String
  deriving DecidableEq, Repr

namespace Stroke

/-- The text of a stroke, if it is not a blank line. -/
def text? {α : Type} : Stroke α → Option α
  | line t | lineAt _ t | opening t | closing t => some t
  | blank => none

/-- The same stroke with another text. -/
def map {α β : Type} (f : α → β) : Stroke α → Stroke β
  | line t => .line (f t)
  | lineAt extra t => .lineAt extra (f t)
  | blank => .blank
  | opening t => .opening (f t)
  | closing t => .closing (f t)

/-- The depth at which a stroke writes. There is nothing further out than the margin. -/
def level {α : Type} (depth : Nat) : Stroke α → Nat
  | line _ | opening _ => depth
  | lineAt extra _ => depth + extra
  | blank => 0
  | closing _ => depth - 1

/-- The depth behind a stroke. -/
def depthAfter {α : Type} (depth : Nat) : Stroke α → Nat
  | line _ | lineAt _ _ | blank => depth
  | opening _ => depth + 1
  | closing _ => depth - 1

end Stroke

/-- Lays strokes out, with `unit` spaces a level, from a depth and behind a number of lines. -/
def lay (unit depth written : Nat) : List (Stroke String) → List LaidLine
  | [] => []
  | s :: rest =>
    ⟨written + 1, s.level depth * unit, s.text?.getD ""⟩
      :: lay unit (s.depthAfter depth) (written + 1) rest

namespace LaidLine

/-- The column of the first character of the text, counted from one. -/
def column (l : LaidLine) : Nat := l.indent + 1

/-- The whole line. -/
def chars (l : LaidLine) : List Char := List.replicate l.indent ' ' ++ l.text.toList

end LaidLine

/-- The text of a sheet; every line ends in a line feed. -/
def sheetText (lines : List LaidLine) : String :=
  String.ofList (lines.flatMap fun l => l.chars ++ ['\n'])

@[simp] theorem length_lay (unit depth written : Nat) (strokes : List (Stroke String)) :
    (lay unit depth written strokes).length = strokes.length := by
  induction strokes generalizing depth written with
  | nil => rfl
  | cons s rest ih => simp [lay, ih]

/-- The lines of a sheet are numbered one after the other. -/
@[simp] theorem map_number_lay (unit depth written : Nat) (strokes : List (Stroke String)) :
    (lay unit depth written strokes).map LaidLine.number
      = List.range' (written + 1) strokes.length := by
  induction strokes generalizing depth written with
  | nil => rfl
  | cons s rest ih => simp [lay, ih, List.range'_succ]

/-- What is written later depends on what stands before it only by depth and number of lines. -/
theorem lay_append (unit depth written : Nat) (strokes more : List (Stroke String)) :
    lay unit depth written (strokes ++ more)
      = lay unit depth written strokes
        ++ lay unit (strokes.foldl Stroke.depthAfter depth) (written + strokes.length) more := by
  induction strokes generalizing depth written with
  | nil => rfl
  | cons s rest ih => simp [lay, ih, Nat.add_assoc, Nat.add_comm 1]

example : sheetText (lay 2 0 0 [.opening "(", .line "a", .lineAt 1 "b", .blank, .closing ")"])
    = "(\n  a\n    b\n\n)\n" := by cbv

end StrategyCanvas.Code
