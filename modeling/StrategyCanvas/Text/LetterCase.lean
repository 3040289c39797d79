/-!
# Letter case

Names of ports and of choices are compared without regard to the case of their ASCII letters.
-/

namespace StrategyCanvas.Text

/-- Equality up to the case of ASCII letters. -/
def sameIgnoringCase (a b : String) : Bool :=
  a.toList.map Char.toLower == b.toList.map Char.toLower

end StrategyCanvas.Text
