import StrategyCanvas.Decimal.Layout
import StrategyCanvas.Json.Value

/-!
# Writing JSON

The indented form of a JSON value: two spaces a level, one item or member a line, empty lists and
objects on one line. Texts are written as they are except for quotes, backslashes and controls.
Numbers that are not finite have no JSON form and are written as `null`.
-/

namespace StrategyCanvas.Json

/-- One hexadecimal digit in lower case. -/
def hexDigit (n : Nat) : Char := Nat.digitChar (n % 16)

/-- A character as it stands in a JSON text. -/
def escapeChar (c : Char) : List Char :=
  if c = '"' then ['\\', '"']
  else if c = '\\' then ['\\', '\\']
  else if c = '\x08' then ['\\', 'b']
  else if c = '\x0c' then ['\\', 'f']
  else if c = '\n' then ['\\', 'n']
  else if c = '\r' then ['\\', 'r']
  else if c = '\t' then ['\\', 't']
  else if c.toNat < 0x20 then ['\\', 'u', '0', '0', hexDigit (c.toNat / 16), hexDigit c.toNat]
  else [c]

/-- A text in quotes. -/
def quoteText (s : String) : List Char :=
  '"' :: (s.toList.flatMap escapeChar ++ ['"'])

/-- A floating point number, `null` if it is not finite. -/
def floatText (x : Float) : List Char :=
  match Decimal.Real64.ofFloat x with
  | .finite b => Decimal.Layout.document.finiteText b
  | _ => "null".toList

/-- A whole number. -/
def intText (n : Int) : List Char :=
  if n < 0 then '-' :: Nat.toDigits 10 n.natAbs else Nat.toDigits 10 n.natAbs

/-- The start of a line, `depth` levels in. -/
def newLine (depth : Nat) : List Char := '\n' :: List.replicate (2 * depth) ' '

mutual

/-- A value, on a line that is `depth` levels in. -/
def prettyChars (depth : Nat) : Json → List Char
  | .null => "null".toList
  | .bool b => (if b then "true" else "false").toList
  | .int n => intText n
  | .float x => floatText x
  | .text s => quoteText s
  | .list [] => ['[', ']']
  | .list (v :: vs) =>
    '[' :: (newLine (depth + 1) ++ prettyChars (depth + 1) v
      ++ prettyItems (depth + 1) vs ++ newLine depth ++ [']'])
  | .object [] => ['\x7b', '\x7d']
  | .object ((k, v) :: rest) =>
    '\x7b' :: (newLine (depth + 1) ++ quoteText k ++ [':', ' '] ++ prettyChars (depth + 1) v
      ++ prettyMembers (depth + 1) rest ++ newLine depth ++ ['\x7d'])

/-- The items after the first, each behind a comma and on its own line. -/
def prettyItems (depth : Nat) : List Json → List Char
  | [] => []
  | v :: vs => ',' :: (newLine depth ++ prettyChars depth v ++ prettyItems depth vs)

/-- The members after the first, each behind a comma and on its own line. -/
def prettyMembers (depth : Nat) : List (String × Json) → List Char
  | [] => []
  | (k, v) :: rest =>
    ',' :: (newLine depth ++ quoteText k ++ [':', ' '] ++ prettyChars depth v
      ++ prettyMembers depth rest)

end

/-- The indented text of a value. -/
def pretty (v : Json) : String := String.ofList (prettyChars 0 v)

end StrategyCanvas.Json
