/-!
# Slugs

The slug of a display name: its runs of ASCII letters and digits in lower case, joined by single
underscores. Port ids and the names of generated fields are built from slugs.
-/

namespace StrategyCanvas.Text

/-- The maximal runs of ASCII letters and digits, in order. -/
def alphanumericRuns (cs : List Char) : List (List Char) :=
  (cs.splitOnP fun c => !c.isAlphanum).filter fun run => !run.isEmpty

/-- The slug of a name, `block` for a name without any letter or digit. -/
def slug (name : String) : String :=
  match alphanumericRuns name.toList with
  | [] => "block"
  | runs => String.ofList (List.intercalate ['_'] (runs.map fun run => run.map Char.toLower))

/-- A slug that starts with a letter: one that starts with a digit is put behind `b_`. -/
def handle (name : String) : String :=
  let s := slug name
  match s.toList with
  | c :: _ => if c.isDigit then "b_" ++ s else s
  | [] => s

example : slug "  RSI (14) " = "rsi_14" := by cbv

example : slug "-" = "block" := by cbv

example : handle "50-Day SMA" = "b_50_day_sma" := by cbv

end StrategyCanvas.Text
