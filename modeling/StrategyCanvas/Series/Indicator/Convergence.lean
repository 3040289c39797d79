import StrategyCanvas.Series.Indicator.MovingAverage

/-!
# Convergence of moving averages

The difference of a fast and a slow exponential mean, and the exponential mean of that difference as
its signal line.
-/

namespace StrategyCanvas.Series

/-- The means so far. -/
structure Convergence where
  fast : Option Float
  slow : Option Float
  signal : Option Float
  deriving Repr

/-- The lines that are shown. -/
structure ConvergenceLines where
  macd : Float
  signal : Float
  histogram : Float
  deriving Repr

/-- The lines in order. -/
def ConvergenceLines.toList (l : ConvergenceLines) : List Float := [l.macd, l.signal, l.histogram]

/-- The periods of the two means and of the signal line. -/
structure ConvergencePeriods where
  fast : Nat
  slow : Nat
  signal : Nat
  deriving DecidableEq, Repr

/-- Periods of one value at least. -/
def ConvergencePeriods.atLeastOne (p : ConvergencePeriods) : ConvergencePeriods :=
  ⟨max p.fast 1, max p.slow 1, max p.signal 1⟩

namespace Convergence

/-- Takes a value, and gives the lines. -/
def step (kFast kSlow kSignal : Float) (s : Convergence) (x : Float) :
    Convergence × ConvergenceLines :=
  let fast := smooth kFast s.fast x
  let slow := smooth kSlow s.slow x
  let macd := fast - slow
  let signal := smooth kSignal s.signal macd
  (⟨some fast, some slow, some signal⟩, ⟨macd, signal, macd - signal⟩)

/-- The lines of three means. -/
def calculation (p : ConvergencePeriods) : Calculation Convergence ConvergenceLines where
  start := ⟨none, none, none⟩
  step := step (smoothing p.fast) (smoothing p.slow) (smoothing p.signal)
  clear _ := ⟨none, none, none⟩

/-- Convergence over periods; there is none if a mean is of no values. -/
def method : Method ConvergencePeriods Convergence ConvergenceLines :=
  .refusing (fun p => p.fast = 0 || p.slow = 0 || p.signal = 0) calculation ⟨12, 26, 9⟩

end Convergence

/-- The convergence and divergence of two exponential means by a method. -/
def convergenceBy {σ : Type} (m : Method ConvergencePeriods σ ConvergenceLines)
    (fast slow signal : Nat) : Indicator σ ConvergenceLines :=
  let periods := ConvergencePeriods.atLeastOne ⟨fast, slow, signal⟩
  .wrap "MACD" (m.make periods) ConvergenceLines.macd periods.slow
    (periods.slow + periods.signal + 1)

/-- The convergence and divergence of two exponential means. -/
def convergence (fast slow signal : Nat) : Indicator Convergence ConvergenceLines :=
  convergenceBy Convergence.method fast slow signal

end StrategyCanvas.Series
