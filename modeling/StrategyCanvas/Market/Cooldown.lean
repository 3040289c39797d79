import StrategyCanvas.Time.Instant

/-!
# Cooldowns

The least time between two orders of one block.
-/

namespace StrategyCanvas.Market

/-- A wait after each order. -/
structure Cooldown where
  /-- The wait in seconds, finite and not negative. -/
  seconds : Float
  lastFired : Option Time.Instant
  deriving Repr

namespace Cooldown

/-- A wait that nothing has started. A length that is not finite, or is negative, means no wait. -/
def ofSeconds (seconds : Float) : Cooldown :=
  ⟨if seconds.isFinite && 0 < seconds then seconds else 0, none⟩

/-- Whether enough time, in whole milliseconds, lies between two instants. -/
def isSpaced (seconds : Float) (later earlier : Time.Instant) : Bool :=
  seconds * 1000 ≤ Float.ofInt (later.elapsedMillis earlier)

/-- Whether the wait is over. -/
def isReady (c : Cooldown) (now : Time.Instant) : Bool :=
  match c.lastFired with
  | none => true
  | some last => isSpaced c.seconds now last

/-- Starts the wait. -/
def mark (c : Cooldown) (now : Time.Instant) : Cooldown := { c with lastFired := some now }

end Cooldown

end StrategyCanvas.Market
