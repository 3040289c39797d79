import StrategyCanvas.Time.Calendar

/-!
# Instants

A point in time in UTC with nanoseconds, its RFC 3339 text, and the time elapsed between two of
them. A leap second is kept as a surplus of a thousand million nanoseconds on second 59.
-/

namespace StrategyCanvas.Time

/-- Seconds since 1970-01-01T00:00:00Z and nanoseconds, the latter with the surplus of a leap
second. -/
structure Instant where
  seconds : Int
  nanos : Nat
  deriving DecidableEq, Repr

namespace Instant

/-- The nanoseconds of a second. -/
def second : Nat := 1000000000

/-- Whether the instant lies within a leap second. -/
def isLeap (t : Instant) : Bool := second ≤ t.nanos

/-- The second of the day, leap seconds counted with the second before them. -/
def secondOfDay (t : Instant) : Int := t.seconds % 86400

/-- Nanoseconds from `earlier` to `later`. A leap second counts in full once the clock of the day
has left it: one more second for a later time of day, one less for an earlier one. -/
def elapsed (later earlier : Instant) : Int :=
  let skipped : Int :=
    if earlier.secondOfDay < later.secondOfDay ∧ earlier.isLeap then 1
    else if later.secondOfDay < earlier.secondOfDay ∧ later.isLeap then -1
    else 0
  (later.seconds - earlier.seconds + skipped) * second + (later.nanos - earlier.nanos : Int)

/-- Whole milliseconds from `earlier` to `later`, rounded toward zero. -/
def elapsedMillis (later earlier : Instant) : Int :=
  (later.elapsed earlier).tdiv 1000000

/-- A natural number with leading zeros up to a width. -/
def padded (width n : Nat) : List Char :=
  let digits := Nat.toDigits 10 n
  List.replicate (width - digits.length) '0' ++ digits

/-- A year has four digits; beyond four digits, and before year 0, it carries a sign. -/
def yearText (year : Int) : List Char :=
  if 0 ≤ year ∧ year ≤ 9999 then padded 4 year.toNat
  else (if year < 0 then '-' else '+') :: padded 4 year.natAbs

/-- The fraction of a second with as few groups of three digits as hold it. -/
def fractionText (nanos : Nat) : List Char :=
  if nanos = 0 then []
  else if nanos % 1000000 = 0 then '.' :: padded 3 (nanos / 1000000)
  else if nanos % 1000 = 0 then '.' :: padded 6 (nanos / 1000)
  else '.' :: padded 9 nanos

/-- The RFC 3339 text of an instant, in UTC. -/
def text (t : Instant) : String :=
  let date := Date.ofDays (t.seconds / 86400)
  let second := t.secondOfDay.toNat
  let leap := if t.isLeap then 1 else 0
  String.ofList <|
    yearText date.year ++ '-' :: padded 2 date.month ++ '-' :: padded 2 date.day
      ++ 'T' :: padded 2 (second / 3600) ++ ':' :: padded 2 (second / 60 % 60)
      ++ ':' :: padded 2 (second % 60 + leap) ++ fractionText (t.nanos - leap * Instant.second)
      ++ ['Z']

end Instant

example : Instant.text ⟨1735689600, 500000000⟩ = "2025-01-01T00:00:00.500Z" := by cbv

end StrategyCanvas.Time
