import StrategyCanvas.Decimal.Numeral
import StrategyCanvas.Json.Value

/-!
# JSON tokens

Splits a text into tokens. What is wrong with a token is kept in the token: the reader of values
decides whether it is ever looked at. A part of the text that is skipped is checked less closely
than one that is read: numbers may be out of range and surrogates need not be paired.
-/

namespace StrategyCanvas.Json

open StrategyCanvas.Decimal (Numeral natOfDigits)

/-- Two ways for a text to be no JSON: it breaks the grammar, or it ends too early. -/
inductive Fault
  | malformed
  | unfinished
  deriving DecidableEq, Repr

/-- What a token that cannot be read looks like from its first character on. -/
inductive Shape
  | text
  | scalar
  | nothing
  deriving DecidableEq, Repr

/-- A token: punctuation, a text, another scalar value, or a token with a fault. A broken token has
the fault that reading it meets, and the one that skipping it meets, if that is stopped too. -/
inductive Token
  | listOpen
  | listClose
  | objectOpen
  | objectClose
  | comma
  | colon
  | text (s : String)
  | scalar (v : Json)
  | broken (shape : Shape) (reading : Fault) (skipping : Option Fault)
  deriving Repr

/-- The value of a hexadecimal digit. -/
def hexValue? (c : Char) : Option Nat :=
  if c.isDigit then some (c.toNat - '0'.toNat)
  else if 'a' ≤ c ∧ c ≤ 'f' then some (c.toNat - 'a'.toNat + 10)
  else if 'A' ≤ c ∧ c ≤ 'F' then some (c.toNat - 'A'.toNat + 10)
  else none

/-- Four hexadecimal digits. The text is unfinished when fewer than four bytes are left. -/
def hexUnit (cs : List Char) : Except Fault Nat :=
  if (cs.take 4).foldl (fun size c => size + c.utf8Size) 0 < 4 then .error .unfinished
  else match cs with
    | a :: b :: c :: d :: _ =>
      match hexValue? a, hexValue? b, hexValue? c, hexValue? d with
      | some a, some b, some c, some d => .ok (((a * 16 + b) * 16 + c) * 16 + d)
      | _, _, _, _ => .error .malformed
    | _ => .error .malformed

/-- The low half of a surrogate pair, expected behind a high half. -/
def lowSurrogate : List Char → Except Fault Nat
  | [] => .error .unfinished
  | ['\\'] => .error .unfinished
  | '\\' :: 'u' :: cs => do
    let low ← hexUnit cs
    if 0xdc00 ≤ low ∧ low ≤ 0xdfff then .ok low else .error .malformed
  | _ => .error .malformed

/-- The character that a one-letter escape stands for. -/
def shortEscape? : Char → Option Char
  | '"' => some '"'
  | '\\' => some '\\'
  | '/' => some '/'
  | 'b' => some '\x08'
  | 'f' => some '\x0c'
  | 'n' => some '\n'
  | 'r' => some '\r'
  | 't' => some '\t'
  | _ => none

/-- What has been read of a text: its characters, last first, or the first fault in it. -/
abbrev Reading := Except Fault (List Char)

/-- One more character. -/
def Reading.push (r : Reading) (c : Char) : Reading := r.map (c :: ·)

/-- A text that ends in a fault. An earlier fault met by reading comes first. -/
def brokenText (r : Reading) (f : Fault) : Token × List Char :=
  match r with
  | .ok _ => (.broken .text f (some f), [])
  | .error g => (.broken .text g (some f), [])

/-- The token of a text and what stands behind its closing quote. After a fault that only reading
meets, the search for the closing quote goes on; after any other there is no rest. -/
def scanText : Nat → Reading → List Char → Token × List Char
  | 0, r, _ => brokenText r .unfinished
  | fuel + 1, r, cs =>
    match cs with
    | [] => brokenText r .unfinished
    | '"' :: rest =>
      match r with
      | .ok cs => (.text (String.ofList cs.reverse), rest)
      | .error f => (.broken .text f none, rest)
    | ['\\'] => brokenText r .unfinished
    | '\\' :: 'u' :: rest =>
      match hexUnit rest with
      | .error f => brokenText r f
      | .ok unit =>
        if 0xdc00 ≤ unit ∧ unit ≤ 0xdfff then
          scanText fuel (r.bind fun _ => .error .malformed) (rest.drop 4)
        else if 0xd800 ≤ unit ∧ unit ≤ 0xdbff then
          match lowSurrogate (rest.drop 4) with
          | .error f => scanText fuel (r.bind fun _ => .error f) (rest.drop 4)
          | .ok low =>
            let code := 0x10000 + (unit - 0xd800) * 0x400 + (low - 0xdc00)
            scanText fuel (r.push (Char.ofNat code)) (rest.drop 10)
        else scanText fuel (r.push (Char.ofNat unit)) (rest.drop 4)
    | '\\' :: c :: rest =>
      match shortEscape? c with
      | none => brokenText r .malformed
      | some d => scanText fuel (r.push d) rest
    | c :: rest =>
      if c.toNat < 0x20 then brokenText r .malformed else scanText fuel (r.push c) rest

/-- A scalar token that neither reading nor skipping gets past. -/
def brokenNumber (reading : Fault) : Token × List Char :=
  (.broken .scalar reading (some .malformed), [])

/-- The fault of a missing digit: it may be still to come, or something else stands there. -/
def missingDigit (rest : List Char) : Token × List Char :=
  brokenNumber (if rest = [] then .unfinished else .malformed)

/-- Whole numbers within 64 bits, signed or unsigned, stay whole; minus zero does not. -/
def wholeNumber? (negative : Bool) (digits : List Char) : Option Int :=
  let n := natOfDigits digits
  if negative then
    if n ≠ 0 ∧ n ≤ Nat.pow 2 63 then some (-(n : Int)) else none
  else if n < Nat.pow 2 64 then some n else none

/-- The token of a number; one beyond the largest is readable for those only who skip it. -/
def numberToken (n : Numeral) : Token :=
  match n.read? with
  | some x => .scalar (.float x)
  | none => .broken .scalar .malformed none

/-- The exponent part of a number, if there is one. -/
def scanExponent (negative : Bool) (whole fraction rest : List Char) : Token × List Char :=
  match rest with
  | e :: cs =>
    if e = 'e' ∨ e = 'E' then
      let (down, cs) := Decimal.splitSign cs
      let power := cs.takeWhile Char.isDigit
      if power = [] then missingDigit cs
      else
        let n : Int := natOfDigits power
        (numberToken ⟨negative, whole, fraction, if down then -n else n⟩, cs.drop power.length)
    else (numberToken ⟨negative, whole, fraction, 0⟩, rest)
  | [] => (numberToken ⟨negative, whole, fraction, 0⟩, [])

/-- The token of a number without point and exponent. -/
def integerToken (negative : Bool) (whole : List Char) : Token :=
  match wholeNumber? negative whole with
  | some n => .scalar (.int n)
  | none => numberToken ⟨negative, whole, [], 0⟩

/-- A number behind its sign: digits without a leading zero, an optional fraction, an optional
exponent. -/
def scanNumber (negative : Bool) (cs : List Char) : Token × List Char :=
  let whole := cs.takeWhile Char.isDigit
  let rest := cs.drop whole.length
  if whole = [] then missingDigit cs
  else if whole.head? = some '0' ∧ 1 < whole.length then brokenNumber .malformed
  else match rest with
    | '.' :: behind =>
      let fraction := behind.takeWhile Char.isDigit
      if fraction = [] then missingDigit behind
      else scanExponent negative whole fraction (behind.drop fraction.length)
    | c :: _ =>
      if c = 'e' ∨ c = 'E' then scanExponent negative whole [] rest
      else (integerToken negative whole, rest)
    | [] => (integerToken negative whole, [])

/-- A literal behind its first letter. -/
def scanLiteral (v : Json) : List Char → List Char → Token × List Char
  | [], cs => (.scalar v, cs)
  | _ :: _, [] => (.broken .scalar .unfinished (some .unfinished), [])
  | l :: ls, c :: cs =>
    if l = c then scanLiteral v ls cs else (.broken .scalar .malformed (some .malformed), [])

/-- White space between tokens. -/
def isSpace (c : Char) : Bool := c = ' ' || c = '\n' || c = '\t' || c = '\r'

/-- The first token of a text that starts with `c`, and the text behind it. The fuel must be more
than the length of `cs`. -/
def Token.first (fuel : Nat) (c : Char) (cs : List Char) : Token × List Char :=
  match c with
  | '[' => (.listOpen, cs)
  | ']' => (.listClose, cs)
  | '\x7b' => (.objectOpen, cs)
  | '\x7d' => (.objectClose, cs)
  | ',' => (.comma, cs)
  | ':' => (.colon, cs)
  | '"' => scanText fuel (.ok []) cs
  | '-' => scanNumber true cs
  | 'n' => scanLiteral .null ['u', 'l', 'l'] cs
  | 't' => scanLiteral (.bool true) ['r', 'u', 'e'] cs
  | 'f' => scanLiteral (.bool false) ['a', 'l', 's', 'e'] cs
  | _ =>
    if c.isDigit then scanNumber false (c :: cs)
    else (.broken .nothing .malformed (some .malformed), [])

/-- The tokens of a text, up to the first that cannot even be skipped. The fuel must be more than
the length of the text. -/
def Token.scan : Nat → List Char → List Token
  | 0, _ => []
  | _ + 1, [] => []
  | fuel + 1, c :: cs =>
    if isSpace c then Token.scan fuel cs
    else
      let (token, rest) := Token.first fuel c cs
      token :: Token.scan fuel rest

/-- The tokens of a text. Every token takes at least one character. -/
def tokens (cs : List Char) : List Token := Token.scan (cs.length + 1) cs

end StrategyCanvas.Json
