import StrategyCanvas.Market.Conversion
import StrategyCanvas.Proofs.Decimal.Layout
import StrategyCanvas.Proofs.Decimal.RoundTrip
import StrategyCanvas.Proofs.Text.Blank

/-!
# Series as texts

A series that is written as a text is read from it again, number for number
(`seriesOfText_textOfSeries`): the text of a number has no comma and no blank, and the number is
read from it.
-/

namespace StrategyCanvas.Decimal

theorem isBlank_of_isNumeralChar {c : Char} (h : isNumeralChar c = true) :
    Text.isBlank c = false := by
  simp only [isNumeralChar, Bool.or_eq_true, decide_eq_true_eq] at h
  obtain (((digit | rfl) | rfl) | rfl) | rfl := h
  · exact Text.isBlank_of_isDigit digit
  all_goals rfl

/-- Whether a character separates no numbers: it is neither a comma nor blank. -/
def isSolid (c : Char) : Bool := c ≠ ',' && !Text.isBlank c

/-- The text of a number has no character that separates numbers. -/
theorem Layout.all_isSolid_text (l : Layout) (x : Float) :
    (l.text x).toList.all isSolid = true := by
  unfold text
  split
  · rfl
  · rfl
  · rfl
  · rename_i b _
    rw [String.toList_ofList, List.all_eq_true]
    intro c mem
    have numeral := isNumeralChar_of_mem_finiteText b c mem
    have noComma : c ≠ ',' := by
      rintro rfl
      contradiction
    simp [isSolid, noComma, isBlank_of_isNumeralChar numeral]

end StrategyCanvas.Decimal

namespace StrategyCanvas.Market

/-- The text between two commas is the text of one number. -/
theorem splitOn_textOfSeries {xs : List Float} (h : xs ≠ []) :
    (textOfSeries xs).toList.splitOn ',' = xs.map fun x => (textOfNumber x).toList := by
  rw [textOfSeries, String.toList_intercalate, List.map_map]
  refine List.splitOn_intercalate ',' ?_ (by simpa using h)
  intro part mem comma
  obtain ⟨x, -, rfl⟩ := List.mem_map.mp mem
  have solid := List.all_eq_true.mp (Decimal.Layout.all_isSolid_text .message x) ',' comma
  contradiction

/-- A series is read from its text, number for number. -/
theorem seriesOfText_textOfSeries (xs : List Float) : seriesOfText (textOfSeries xs) = xs := by
  by_cases empty : xs = []
  · subst empty
    rfl
  · have solid (x : Float) : Text.trim (textOfNumber x) = textOfNumber x := by
      refine Text.trim_of_forall fun c mem => ?_
      have := List.all_eq_true.mp (Decimal.Layout.all_isSolid_text .message x) c mem
      simp only [Decimal.isSolid, Bool.and_eq_true, Bool.not_eq_true'] at this
      exact this.2
    have read (x : Float) : Decimal.read? (textOfNumber x) = some x := Decimal.read?_text .message x
    rw [seriesOfText, splitOn_textOfSeries empty, List.filterMap_map]
    calc xs.filterMap _ = xs.filterMap some := List.filterMap_congr fun x _ => by
          rw [Function.comp_apply, String.ofList_toList, solid, read]
      _ = xs := List.filterMap_some

end StrategyCanvas.Market
