/-!
# Windows

The latest values of a series, the oldest first, up to a fixed number of them.
-/

namespace StrategyCanvas.Series

/-- The latest values of a series. -/
structure Window where
  capacity : Nat
  values : List Float
  deriving Repr

namespace Window

/-- An empty window, which has room for one value at least. -/
def ofCapacity (capacity : Nat) : Window := ⟨max capacity 1, []⟩

/-- Whether the next value takes the place of the oldest one. -/
def isFull (w : Window) : Bool := w.values.length = w.capacity

/-- The value that the next one takes the place of. -/
def leaving? (w : Window) : Option Float := if w.isFull then w.values.head? else none

/-- Adds a value. -/
def push (w : Window) (x : Float) : Window :=
  { w with values := (if w.isFull then w.values.tail else w.values) ++ [x] }

/-- Drops all values. -/
def clear (w : Window) : Window := { w with values := [] }

/-- The number of values. -/
def size (w : Window) : Nat := w.values.length

/-- Whether there is no value yet. -/
def isEmpty (w : Window) : Bool := w.values.isEmpty

/-- A window keeps its capacity when it is cleared. -/
@[simp] theorem clear_push (w : Window) (x : Float) : (w.push x).clear = w.clear := rfl

end Window

end StrategyCanvas.Series
