import StrategyCanvas.Series.Indicator
import StrategyCanvas.Series.Window

/-!
# Bands around a mean

The mean of the latest values between two bands, each a number of standard deviations away. Mean and
squared deviation are kept up to date with each value that comes and goes.
-/

namespace StrategyCanvas.Series

/-- The latest values, their mean, and the sum of the squared deviations from it. -/
structure Deviation where
  window : Window
  mean : Float
  squares : Float
  deriving Repr

/-- The lines that are shown. -/
structure BandLines where
  upper : Float
  middle : Float
  lower : Float
  deriving Repr

/-- The lines in order. -/
def BandLines.toList (l : BandLines) : List Float := [l.upper, l.middle, l.lower]

/-- The period, and how many standard deviations there are between the mean and a band. -/
structure BandSettings where
  period : Nat
  width : Float
  deriving Repr

namespace Deviation

/-- Takes a value into a window that is not full. -/
def grow (s : Deviation) (x : Float) : Deviation :=
  let window := s.window.push x
  let delta := x - s.mean
  let mean := s.mean + delta / Float.ofNat window.size
  ⟨window, mean, s.squares + delta * (x - mean)⟩

/-- Takes a value into a full window, from which `old` leaves. -/
def replace (s : Deviation) (old x : Float) : Deviation :=
  let delta := x - old
  let mean := s.mean + delta / Float.ofNat s.window.capacity
  ⟨s.window.push x, mean, s.squares + delta * (x - mean + old - s.mean)⟩

/-- Takes a value. A sum of squares that rounding has made negative becomes zero. -/
def take (s : Deviation) (x : Float) : Deviation :=
  let next := match s.window.leaving? with
    | none => s.grow x
    | some old => s.replace old x
  if next.squares < 0 then { next with squares := 0 } else next

/-- The standard deviation. -/
def root (s : Deviation) : Float := (s.squares / Float.ofNat s.window.size).sqrt

/-- Takes a value, and gives the lines. -/
def step (width : Float) (s : Deviation) (x : Float) : Deviation × BandLines :=
  let next := s.take x
  (next, ⟨next.mean + next.root * width, next.mean, next.mean - next.root * width⟩)

/-- The lines of a mean and its standard deviation. -/
def calculation (s : BandSettings) : Calculation Deviation BandLines where
  start := ⟨.ofCapacity s.period, 0, 0⟩
  step := step s.width
  clear s := ⟨s.window.clear, 0, 0⟩

/-- Bands over periods; there are none of no values. -/
def method : Method BandSettings Deviation BandLines := .refusing (·.period = 0) calculation ⟨9, 2⟩

end Deviation

/-- The number of standard deviations between the mean and a band; two, if what is asked for is not
finite and positive. -/
def bandWidth (asked : Float) : Float := if asked.isFinite && 0 < asked then asked else 2

/-- A mean between two bands by a method. -/
def bandsBy {σ : Type} (m : Method BandSettings σ BandLines) (period : Nat) (width : Float) :
    Indicator σ BandLines :=
  .wrap "BollingerBands" (m.make ⟨max period 1, bandWidth width⟩) BandLines.middle (max period 1)
    (max period 1)

/-- A mean between two bands. -/
def bands (period : Nat) (width : Float) : Indicator Deviation BandLines :=
  bandsBy Deviation.method period width

end StrategyCanvas.Series
