/-!
# Binary floating point numbers, taken apart

A 64-bit floating point number is not a number, an infinity, or `± m · 2 ^ q` with natural `m` and
integer `q`. `Real64.ofFloat` reads the parts off the bits, and `ofRatio` rounds an exact
ratio of naturals to the nearest 64-bit number, ties to the even one.
-/

namespace StrategyCanvas.Decimal

/-- The finite number `± mantissa · 2 ^ exponent`. -/
structure Binary where
  negative : Bool
  mantissa : Nat
  exponent : Int
  deriving DecidableEq, Repr

/-- What a 64-bit floating point number stands for. -/
inductive Real64
  | nan
  | infinite (negative : Bool)
  | finite (value : Binary)
  deriving DecidableEq, Repr

/-- The least exponent of two that a mantissa is scaled by. -/
def leastExponent : Int := -1074

/-- The leading one of a mantissa, which the bits leave out: the least mantissa of 53 digits. -/
def hiddenBit : Nat := Nat.pow 2 52

/-- Reads sign, mantissa and exponent off the bits. A biased exponent of zero marks the subnormal
numbers, which have no implicit leading one. -/
def Real64.ofBits (bits : UInt64) : Real64 :=
  let negative := decide (bits >>> 63 = 1)
  let biased := ((bits >>> 52) &&& 0x7ff).toNat
  let fraction := (bits &&& 0xfffffffffffff).toNat
  if biased = 0x7ff then
    if fraction = 0 then .infinite negative else .nan
  else if biased = 0 then
    .finite ⟨negative, fraction, leastExponent⟩
  else
    .finite ⟨negative, hiddenBit + fraction, leastExponent + (biased - 1 : Nat)⟩

/-- The parts of a floating point number. -/
def Real64.ofFloat (x : Float) : Real64 := .ofBits x.toBits

/-- Rounds `num / den` to the nearest integer, a half going to the even neighbour. -/
def roundHalfEven (num den : Nat) : Nat :=
  let q := num / den
  let twice := 2 * (num % den)
  if twice < den then q else if den < twice then q + 1 else q + q % 2

/-- The bits of the 64-bit number nearest to `num / den`, for positive `num` and `den`. The
exponent is the least that leaves a mantissa below `2 ^ 53`. A carry of the rounding into
`2 ^ 53`, or from the subnormal numbers into the normal ones, lands on the right bits by itself,
because the exponent field stands directly above the mantissa. -/
def nearestBits (num den : Nat) : Nat :=
  let wide := (num.log2 : Int) - den.log2 - 53
  let scaled (e : Int) : Nat × Nat :=
    if e < 0 then (num * Nat.pow 2 (-e).toNat, den) else (num, den * Nat.pow 2 e.toNat)
  let fits (e : Int) : Bool := (scaled e).1 / (scaled e).2 < 2 * hiddenBit
  let e := max leastExponent (if fits wide then wide else wide + 1)
  let mantissa := roundHalfEven (scaled e).1 (scaled e).2
  let bits := (e - leastExponent).toNat * hiddenBit + mantissa
  min bits (0x7ff * hiddenBit)

/-- The 64-bit number nearest to `± num / den`; a zero keeps its sign. -/
def ofRatio (negative : Bool) (num den : Nat) : Float :=
  let magnitude := if num = 0 then 0 else nearestBits num den
  let sign := if negative then Nat.pow 2 63 else 0
  Float.ofBits (sign + magnitude).toUInt64

/-- The 64-bit number nearest to `± digits · 10 ^ exponent`. Numbers far beyond the range are
recognised by their decimal length, so that no huge power is ever computed. -/
def ofDecimal (negative : Bool) (digits : Nat) (exponent : Int) : Float :=
  let length : Int := (Nat.toDigits 10 digits).length
  if digits = 0 ∨ exponent + length < -330 then
    ofRatio negative 0 1
  else if 330 < exponent + length then
    ofRatio negative (Nat.pow 10 330) 1
  else if exponent < 0 then
    ofRatio negative digits (Nat.pow 10 (-exponent).toNat)
  else
    ofRatio negative (digits * Nat.pow 10 exponent.toNat) 1

end StrategyCanvas.Decimal
