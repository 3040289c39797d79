import StrategyCanvas.Decimal.Reader
import StrategyCanvas.Text.Blank
import StrategyCanvas.Time.Instant

/-!
# Reading instants

RFC 3339 with some latitude: blanks before each number, a `T`, `t` or space between date and time,
any number of fraction digits, of which nine count, and a zone that is `Z`, `UTC` or an offset. The
instant is the same point in time in UTC.
-/

namespace StrategyCanvas.Time

open StrategyCanvas.Text (trimLeft)
open StrategyCanvas.Decimal (natOfDigits)

/-- Why a text is no instant. -/
inductive InstantError
  | invalid
  | tooShort
  | tooLong
  | outOfRange
  | impossible
  deriving DecidableEq, Repr

namespace InstantError

/-- The wording of an unreadable instant. -/
def message : InstantError → String
  | .invalid => "input contains invalid characters"
  | .tooShort => "premature end of input"
  | .tooLong => "trailing input"
  | .outOfRange => "input is out of range"
  | .impossible => "no possible date and time matching input"

end InstantError

namespace Instant

/-- One to `width` digits. -/
def number (width : Nat) (cs : List Char) : Except InstantError (Nat × List Char) :=
  let digits := (cs.take width).takeWhile Char.isDigit
  if cs = [] then .error .tooShort
  else if digits = [] then .error .invalid
  else .ok (natOfDigits digits, cs.drop digits.length)

/-- A number of at most two digits within bounds, blanks before it skipped. -/
def bounded (least greatest : Nat) (cs : List Char) : Except InstantError (Nat × List Char) := do
  let (n, rest) ← number 2 (trimLeft cs)
  if least ≤ n ∧ n ≤ greatest then .ok (n, rest) else .error .outOfRange

/-- A year: four digits at most, or any number of them behind a sign. -/
def year (cs : List Char) : Except InstantError (Int × List Char) := do
  let cs := trimLeft cs
  let (value, rest) ← match cs with
    | '-' :: digits => do
      let (n, rest) ← number digits.length digits
      pure (-(n : Int), rest)
    | '+' :: digits => do
      let (n, rest) ← number digits.length digits
      pure ((n : Int), rest)
    | _ => do
      let (n, rest) ← number 4 cs
      pure ((n : Int), rest)
  if -2147483648 ≤ value ∧ value ≤ 2147483647 then .ok (value, rest) else .error .outOfRange

/-- A fixed separator, blanks before it skipped. -/
def separator (c : Char) (cs : List Char) : Except InstantError (List Char) :=
  match trimLeft cs with
  | [] => .error .tooShort
  | d :: rest => if d = c then .ok rest else .error .invalid

/-- A fraction of a second, if a point announces one; digits beyond the ninth are dropped. -/
def fraction (cs : List Char) : Except InstantError (Nat × List Char) :=
  match cs with
  | '.' :: rest => do
    let (n, behind) ← number 9 rest
    let places := rest.length - behind.length
    pure (n * Nat.pow 10 (9 - places), behind.dropWhile Char.isDigit)
  | _ => .ok (0, cs)

/-- Two characters that should be digits; bytes count when the text ends before them. -/
def twoDigits (cs : List Char) : Except InstantError (Char × Char × List Char) :=
  match cs with
  | a :: b :: rest => if a.isDigit && b.isDigit then .ok (a, b, rest) else .error .invalid
  | [a] => if a.utf8Size < 2 then .error .tooShort else .error .invalid
  | [] => .error .tooShort

/-- Minutes of an offset, at most 59. -/
def offsetMinutes (cs : List Char) : Except InstantError (Nat × List Char) := do
  let (a, b, rest) ← twoDigits cs
  let n := natOfDigits [a, b]
  if n < 60 then .ok (n, rest) else .error .outOfRange

/-- The offset from UTC in seconds: a letter or name for UTC, or a sign, hours and minutes, with
colons or blanks between them. -/
def offset (cs : List Char) : Except InstantError (Int × List Char) :=
  match cs with
  | [] => .error .tooShort
  | c :: rest =>
    if String.ofList ((cs.take 3).map Char.toUpper) = "UTC" then .ok (0, cs.drop 3)
    else if c = 'Z' ∨ c = 'z' then .ok (0, rest)
    else if c = '+' ∨ c = '-' ∨ c = '\u2212' then do
      let (a, b, behind) ← twoDigits rest
      let between := behind.dropWhile fun d => d = ':' || Text.isBlank d
      let (minutes, behind) ← offsetMinutes between
      let seconds : Int := natOfDigits [a, b] * 3600 + minutes * 60
      .ok (if c = '+' then seconds else -seconds, behind)
    else .error .invalid

/-- A date: year, month and day with hyphens between them. -/
def date (cs : List Char) : Except InstantError (Date × List Char) := do
  let (y, cs) ← year cs
  let (m, cs) ← bounded 1 12 (← separator '-' cs)
  let (d, cs) ← bounded 1 31 (← separator '-' cs)
  pure (⟨y, m, d⟩, cs)

/-- A time of day: hours, minutes and seconds with colons between them, and a fraction. -/
def timeOfDay (cs : List Char) : Except InstantError ((Nat × Nat) × List Char) := do
  let (hour, cs) ← bounded 0 23 cs
  let (minute, cs) ← bounded 0 59 (← separator ':' cs)
  let (second, cs) ← bounded 0 60 (← separator ':' cs)
  let (nanos, cs) ← fraction cs
  let leap := if second = 60 then 1 else 0
  pure ((hour * 3600 + minute * 60 + (second - leap), nanos + leap * Instant.second), cs)

/-- The years that dates may have. -/
def isYear (y : Int) : Bool := -262143 ≤ y && y ≤ 262142

/-- The character between date and time. -/
def betweenDateAndTime (cs : List Char) : Except InstantError (List Char) :=
  match cs with
  | [] => .error .tooShort
  | c :: rest => if c = 'T' ∨ c = 't' ∨ c = ' ' then .ok rest else .error .invalid

/-- Reads a whole text as an instant. -/
def read (text : String) : Except InstantError Instant := do
  let (day, cs) ← date text.toList
  let ((second, nanos), cs) ← timeOfDay (← betweenDateAndTime cs)
  let (ahead, cs) ← offset (trimLeft cs)
  if trimLeft cs ≠ [] then throw .tooLong
  if !day.isValid || !isYear day.year || 86400 ≤ ahead.natAbs then throw .outOfRange
  let seconds := day.toDays * 86400 + second - ahead
  if isYear (Date.ofDays (seconds / 86400)).year then pure ⟨seconds, nanos⟩ else throw .impossible

end Instant

end StrategyCanvas.Time
