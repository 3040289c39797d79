import StrategyCanvas.Code.Sheet

/-!
# Writing a sheet

A sheet written stroke by stroke. The writer adds to the text, and counts lines and depth beside it,
without looking at the text again. Whoever writes a text is told where it stands.
-/

namespace StrategyCanvas.Code

/-- Where a line is: its number, counted from one, and its indentation. -/
structure LinePlace where
  number : Nat
  indent : Nat
  deriving DecidableEq, Repr

/-- What is written so far, with `unit` spaces a level. -/
structure Writer where
  text : String
  lines : Nat
  depth : Nat
  unit : Nat
  deriving DecidableEq, Repr

namespace Writer

/-- Nothing is written yet. -/
def new (unit : Nat) : Writer := ⟨"", 0, 0, unit⟩

/-- Writes a line some levels deeper than the current depth. -/
def lineAt (w : Writer) (extra : Nat) (text : String) : LinePlace × Writer :=
  let indent := (w.depth + extra) * w.unit
  let indented := indent.repeat (String.push · ' ') w.text
  (⟨w.lines + 1, indent⟩, { w with text := (indented ++ text).push '\n', lines := w.lines + 1 })

/-- Writes a line at the current depth. -/
def line (w : Writer) (text : String) : LinePlace × Writer := w.lineAt 0 text

/-- Writes an empty line. -/
def blank (w : Writer) : Writer := { w with text := w.text.push '\n', lines := w.lines + 1 }

/-- Writes a line; what follows is one level deeper. -/
def opening (w : Writer) (text : String) : LinePlace × Writer :=
  let (place, w) := w.line text
  (place, { w with depth := w.depth + 1 })

/-- Writes a line one level out, but no further than the margin; what follows stays there. -/
def closing (w : Writer) (text : String) : LinePlace × Writer :=
  { w with depth := w.depth - 1 }.line text

/-- Writes a stroke, and says where its text stands if it has one. -/
def write (w : Writer) : Stroke String → Option LinePlace × Writer
  | .line text => (w.line text).map some id
  | .lineAt extra text => (w.lineAt extra text).map some id
  | .blank => (none, w.blank)
  | .opening text => (w.opening text).map some id
  | .closing text => (w.closing text).map some id

end Writer

end StrategyCanvas.Code
