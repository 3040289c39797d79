/-!
# Indicators

An indicator is a calculation that takes the values of a series one after the other. Nothing is
shown before a number of values, its warm-up, have been seen, and values that are not finite are
passed over. The calculations themselves are in the modules below this one, each as one method among
those that an indicator can be made with.
-/

namespace StrategyCanvas.Series

/-! ## Calculations -/

/-- A calculation with states `σ` and outputs `ο`. -/
structure Calculation (σ ο : Type) where
  start : σ
  /-- Takes the next value. -/
  step : σ → Float → σ × ο
  /-- Forgets all values. -/
  clear : σ → σ

/-- A method of calculating that is set up with settings `π`. -/
structure Method (π σ ο : Type) where
  /-- The calculation for the settings, unless they are refused. -/
  make? : π → Option (Calculation σ ο)
  /-- The calculation for the usual settings. -/
  usual : Calculation σ ο

namespace Method

variable {π σ ο : Type}

/-- A calculation for all settings but those that are refused. -/
def refusing (refused : π → Bool) (calculation : π → Calculation σ ο) (usual : π) :
    Method π σ ο where
  make? settings := if refused settings then none else some (calculation settings)
  usual := calculation usual

/-- The calculation for the settings, or the usual one in place of a refusal. -/
def make (m : Method π σ ο) (settings : π) : Calculation σ ο := (m.make? settings).getD m.usual

end Method

/-! ## Indicators -/

/-- A calculation whose outputs are shown after a warm-up. -/
structure Indicator (σ ο : Type) where
  name : String
  /-- The length of the main window. -/
  period : Nat
  /-- How many values have to be seen before the first output is shown. -/
  warmup : Nat
  calculation : Calculation σ ο
  /-- The one number that an output is reduced to. -/
  headline : ο → Float

/-- How far a calculation has come. -/
structure Progress (σ ο : Type) where
  state : σ
  seen : Nat
  shown : Option ο
  deriving Repr

namespace Indicator

variable {σ ο : Type}

/-- An indicator with a warm-up of one value at least. -/
def wrap (name : String) (calculation : Calculation σ ο) (headline : ο → Float)
    (period warmup : Nat) : Indicator σ ο :=
  ⟨name, period, max warmup 1, calculation, headline⟩

/-- An indicator of one number over a period, which is one at least. Its warm-up is the period and a
number of values more. -/
def ofPeriod (name : String) (more : Nat) (m : Method Nat σ Float) (period : Nat) :
    Indicator σ Float :=
  wrap name (m.make (max period 1)) id (max period 1) (max period 1 + more)

/-- Nothing seen yet. -/
def fresh (i : Indicator σ ο) : Progress σ ο := ⟨i.calculation.start, 0, none⟩

/-- Takes the next value. -/
def update (i : Indicator σ ο) (p : Progress σ ο) (x : Float) : Progress σ ο :=
  if x.isFinite then
    let (state, output) := i.calculation.step p.state x
    let seen := p.seen + 1
    ⟨state, seen, if i.warmup ≤ seen then some output else p.shown⟩
  else p

/-- Forgets all values. -/
def reset (i : Indicator σ ο) (p : Progress σ ο) : Progress σ ο :=
  ⟨i.calculation.clear p.state, 0, none⟩

/-- Whether the warm-up is over. -/
def isReady (i : Indicator σ ο) (p : Progress σ ο) : Bool := i.warmup ≤ p.seen

/-- The number to show, once the warm-up is over. -/
def value? (i : Indicator σ ο) (p : Progress σ ο) : Option Float := p.shown.map i.headline

end Indicator

/-- The length of a window from a number: rounded, halves away from zero, at least one and at most
what 64 bits hold. What is no number, or too small, gives one. -/
def periodOf (x : Float) : Nat :=
  if x.isFinite && 1 ≤ x then x.round.toUInt64.toNat else 1

end StrategyCanvas.Series
