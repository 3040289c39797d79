import StrategyCanvas.Series.Indicator
import StrategyCanvas.Series.Window

/-!
# Moving averages

The mean of the latest values, kept as a running sum, and the exponential mean, in which every value
counts for a fixed share of what came before it.
-/

namespace StrategyCanvas.Series

/-! ## The simple moving average -/

/-- The latest values and their running sum. -/
structure RunningSum where
  window : Window
  sum : Float
  deriving Repr

namespace RunningSum

/-- No values yet. -/
def ofCapacity (capacity : Nat) : RunningSum := ⟨.ofCapacity capacity, 0⟩

/-- Adds a value, takes away the one that leaves, and gives the mean. -/
def step (s : RunningSum) (x : Float) : RunningSum × Float :=
  let window := s.window.push x
  let sum := s.sum - s.window.leaving?.getD 0 + x
  (⟨window, sum⟩, sum / Float.ofNat window.size)

/-- The mean of the latest values. -/
def calculation (period : Nat) : Calculation RunningSum Float where
  start := ofCapacity period
  step := step
  clear s := ⟨s.window.clear, 0⟩

/-- Means over periods; there is none of no values. -/
def method : Method Nat RunningSum Float := .refusing (· = 0) calculation 9

end RunningSum

/-- The simple moving average by a method. -/
def simpleMovingAverageBy {σ : Type} (m : Method Nat σ Float) (period : Nat) : Indicator σ Float :=
  .ofPeriod "SMA" 0 m period

/-- The mean of the latest values. -/
def simpleMovingAverage (period : Nat) : Indicator RunningSum Float :=
  simpleMovingAverageBy RunningSum.method period

/-! ## The exponential moving average -/

/-- The share of a new value in an exponential mean over a number of values. -/
def smoothing (period : Nat) : Float := 2 / Float.ofNat (period + 1)

/-- Takes a value into an exponential mean. The first value is the first mean. -/
def smooth (k : Float) (mean : Option Float) (x : Float) : Float :=
  match mean with
  | none => x
  | some m => k * x + (1 - k) * m

/-- The exponential mean, which is not there before the first value. -/
def exponentialMean (period : Nat) : Calculation (Option Float) Float where
  start := none
  step mean x :=
    let next := smooth (smoothing period) mean x
    (some next, next)
  clear _ := none

/-- Exponential means over periods; there is none of no values. -/
def exponentialMethod : Method Nat (Option Float) Float := .refusing (· = 0) exponentialMean 9

/-- The exponential moving average by a method. -/
def exponentialMovingAverageBy {σ : Type} (m : Method Nat σ Float) (period : Nat) :
    Indicator σ Float :=
  .ofPeriod "EMA" 0 m period

/-- The exponential mean. -/
def exponentialMovingAverage (period : Nat) : Indicator (Option Float) Float :=
  exponentialMovingAverageBy exponentialMethod period

end StrategyCanvas.Series
