import StrategyCanvas.Text.LetterCase

/-!
# Crossings

One series crosses another when the sign of their difference changes. Only two differences in a row
count, and one that is no number breaks the row.
-/

namespace StrategyCanvas.Series

/-- Which way a crossing goes. -/
inductive Direction
  | above
  | below
  deriving DecidableEq, Repr

/-- The direction of a name; whatever is not `below`, in any case, is above. -/
def Direction.ofName (name : String) : Direction :=
  if Text.sameIgnoringCase name "below" then .below else .above

/-- A watch on the difference of two series. -/
structure Crossover where
  direction : Direction
  /-- The difference seen last, unless it was no number. -/
  previous : Option Float
  deriving Repr

namespace Crossover

/-- A watch that has seen nothing. -/
def ofName (direction : String) : Crossover := ⟨.ofName direction, none⟩

/-- Whether the difference has changed its sign in a direction. Zero counts as the side that is
left. -/
def hasCrossed (direction : Direction) (previous difference : Float) : Bool :=
  match direction with
  | .above => previous ≤ 0 && 0 < difference
  | .below => 0 ≤ previous && difference < 0

/-- Looks at the next values, and tells whether they have crossed. -/
def update (c : Crossover) (fast slow : Float) : Bool × Crossover :=
  let difference := fast - slow
  if difference.isNaN then (false, { c with previous := none })
  else
    ((c.previous.map fun p => hasCrossed c.direction p difference).getD false,
      { c with previous := some difference })

end Crossover

end StrategyCanvas.Series
