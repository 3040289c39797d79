import StrategyCanvas.Decimal.Shortest

/-!
# Decimal layouts

A layout says how a shortest decimal is set out: which powers of ten are written positionally,
whether a whole number keeps a `.0`, and whether a positive exponent shows its sign. One function
serves the three number formats of the library.
-/

namespace StrategyCanvas.Decimal

/-- The decisions of one number format. -/
structure Layout where
  /-- The powers of ten of a first digit that are written positionally; without bounds, all are. -/
  positional : Option (Int × Int)
  /-- Whether whole numbers written positionally end in `.0`. -/
  pointZero : Bool
  /-- Whether a positive exponent is written with a plus sign. -/
  plusSign : Bool
  /-- Which of two equally near shortest decimals is written. -/
  tie : Tie
  deriving DecidableEq, Repr

namespace Layout

/-- Numbers in messages to a reader: always positional, whole numbers without a point. -/
def message : Layout := ⟨none, false, false, .up⟩

/-- Number literals of generated code: positional from `10 ^ -4` to below `10 ^ 16`, always
recognisable as floating point. -/
def code : Layout := ⟨some (-4, 15), true, false, .up⟩

/-- Numbers in strategy documents: positional from `10 ^ -5` to below `10 ^ 16`, always
recognisable as floating point, exponents signed. -/
def document : Layout := ⟨some (-5, 15), true, true, .even⟩

/-- Whether a number whose first digit stands at `10 ^ e` is written positionally. -/
def isPositional (l : Layout) (e : Int) : Bool :=
  match l.positional with
  | none => true
  | some (least, greatest) => least ≤ e && e ≤ greatest

/-- The digits of a decimal with a point after the first `whole` of them, padded with zeros where
the digits do not reach the point. -/
def positionalText (l : Layout) (digits : List Char) (whole : Int) : List Char :=
  if whole ≤ 0 then
    '0' :: '.' :: (List.replicate (-whole).toNat '0' ++ digits)
  else if digits.length ≤ whole.toNat then
    digits ++ List.replicate (whole.toNat - digits.length) '0'
      ++ if l.pointZero then ['.', '0'] else []
  else
    digits.take whole.toNat ++ '.' :: digits.drop whole.toNat

/-- The text of an integer exponent. -/
def exponentText (l : Layout) (e : Int) : List Char :=
  if e < 0 then '-' :: Nat.toDigits 10 (-e).toNat
  else (if l.plusSign then ['+'] else []) ++ Nat.toDigits 10 e.toNat

/-- The digits with a point after the first one, and the exponent of that digit. -/
def exponentialText (l : Layout) (digits : List Char) (e : Int) : List Char :=
  digits.take 1 ++ (if digits.length ≤ 1 then [] else '.' :: digits.drop 1)
    ++ 'e' :: l.exponentText e

/-- The text of the unsigned decimal `d`. -/
def scientificText (l : Layout) (d : Scientific) : List Char :=
  let digits := Nat.toDigits 10 d.digits
  let lead := d.exponent + (digits.length - 1 : Nat)
  if l.isPositional lead then l.positionalText digits (lead + 1) else l.exponentialText digits lead

/-- The text of a finite number; a zero keeps its sign. -/
def finiteText (l : Layout) (b : Binary) : List Char :=
  (if b.negative then ['-'] else []) ++
    if b.mantissa = 0 then '0' :: (if l.pointZero then ['.', '0'] else [])
    else l.scientificText (b.shortest l.tie)

/-- The text of a floating point number. -/
def text (l : Layout) (x : Float) : String :=
  match Real64.ofFloat x with
  | .nan => "NaN"
  | .infinite false => "inf"
  | .infinite true => "-inf"
  | .finite b => String.ofList (l.finiteText b)

example : message.scientificText ⟨14, 0⟩ = "14".toList := by decide

example : code.scientificText ⟨14, 0⟩ = "14.0".toList := by decide

example : document.scientificText ⟨15, -6⟩ = "0.000015".toList := by decide

example : code.scientificText ⟨15, -6⟩ = "1.5e-5".toList := by decide

example : document.scientificText ⟨1, 16⟩ = "1e+16".toList := by decide

end Layout

end StrategyCanvas.Decimal
