import StrategyCanvas.Series.Indicator.MovingAverage

/-!
# Relative strength

The share of the ups in the ups and downs of a series, from 0 to 100, both of them as exponential
means. One change needs two values, so the warm-up is one value longer than the period.
-/

namespace StrategyCanvas.Series

/-- The value seen last and the means of the ups and downs. -/
structure Strength where
  previous : Option Float
  up : Option Float
  down : Option Float
  deriving Repr

namespace Strength

/-- How far the series has gone up and down. Small equal changes stand in for the first. -/
def changes (previous : Option Float) (x : Float) : Float × Float :=
  match previous with
  | none => (0.1, 0.1)
  | some p => if p < x then (x - p, 0) else (0, p - x)

/-- Takes a value, and gives the share of the ups. -/
def step (k : Float) (s : Strength) (x : Float) : Strength × Float :=
  let (up, down) := changes s.previous x
  let ups := smooth k s.up up
  let downs := smooth k s.down down
  (⟨some x, some ups, some downs⟩, 100 * ups / (ups + downs))

/-- The share of the ups. -/
def calculation (period : Nat) : Calculation Strength Float where
  start := ⟨none, none, none⟩
  step := step (smoothing period)
  clear _ := ⟨none, none, none⟩

/-- Relative strength over periods; there is none of no values. -/
def method : Method Nat Strength Float := .refusing (· = 0) calculation 14

end Strength

/-- The relative strength by a method. -/
def relativeStrengthBy {σ : Type} (m : Method Nat σ Float) (period : Nat) : Indicator σ Float :=
  .ofPeriod "RSI" 1 m period

/-- The relative strength. -/
def relativeStrength (period : Nat) : Indicator Strength Float :=
  relativeStrengthBy Strength.method period

end StrategyCanvas.Series
