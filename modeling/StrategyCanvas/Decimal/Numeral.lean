import StrategyCanvas.Decimal.Reader

/-!
# Written numbers

The number syntax of documents, taken apart, and the quick reading of it. As many leading digits as
fit into 64 bits make a whole number, which is then multiplied or divided by a power of ten. Each of
these steps rounds, so the result can miss the nearest 64-bit number in its last place. Digits that
all fit are read without a loss: `Numeral.kept_of_fits`.
-/

namespace StrategyCanvas.Decimal

/-- A number as it is written: the digits before and after the point, and a power of ten. -/
structure Numeral where
  negative : Bool
  whole : List Char
  fraction : List Char
  exponent : Int
  deriving DecidableEq, Repr

/-- Puts digits behind a number as long as it stays within 64 bits. The second part is what is left
from the first digit that does not fit. -/
def appendFitting (n : Nat) : List Char → Nat × List Char
  | [] => (n, [])
  | c :: cs =>
    if appendDigit n c < Nat.pow 2 64 then appendFitting (appendDigit n c) cs else (n, c :: cs)

theorem le_foldl_appendDigit (n : Nat) (cs : List Char) : n ≤ cs.foldl appendDigit n := by
  induction cs generalizing n with
  | nil => exact Nat.le_refl n
  | cons c cs ih => exact Nat.le_trans (by unfold appendDigit; omega) (ih (appendDigit n c))

/-- Digits that make a number within 64 bits are all taken. -/
theorem appendFitting_of_fits {n : Nat} {cs : List Char}
    (h : cs.foldl appendDigit n < Nat.pow 2 64) :
    appendFitting n cs = (cs.foldl appendDigit n, []) := by
  induction cs generalizing n with
  | nil => rfl
  | cons c cs ih =>
    have fits : appendDigit n c < Nat.pow 2 64 :=
      Nat.lt_of_le_of_lt (le_foldl_appendDigit (appendDigit n c) cs) h
    unfold appendFitting
    rw [if_pos fits]
    exact ih h

namespace Numeral

/-- The leading digits that fit into 64 bits, and the power of ten that they are scaled by. Digits
of the fraction are taken as far as they fit, whether or not digits before the point were left out;
left-out digits before the point count by their places, left-out digits behind it not at all. -/
def kept (n : Numeral) : Nat × Int :=
  let (digits, skipped) := appendFitting 0 n.whole
  let (digits, ignored) := appendFitting digits n.fraction
  (digits, n.exponent + skipped.length - (n.fraction.length - ignored.length))

/-- When all digits fit, none is lost. -/
theorem kept_of_fits {n : Numeral} (h : natOfDigits (n.whole ++ n.fraction) < Nat.pow 2 64) :
    n.kept = (natOfDigits (n.whole ++ n.fraction), n.exponent - n.fraction.length) := by
  have all : natOfDigits (n.whole ++ n.fraction) =
      n.fraction.foldl appendDigit (n.whole.foldl appendDigit 0) := List.foldl_append
  rw [all] at h ⊢
  have whole := appendFitting_of_fits
    (Nat.lt_of_le_of_lt (le_foldl_appendDigit (n.whole.foldl appendDigit 0) n.fraction) h)
  simp [kept, whole, appendFitting_of_fits h]

end Numeral

/-- The 64-bit number nearest to `10 ^ k`, which is finite up to `k = 308`. -/
def powerOfTen (k : Nat) : Float := ofRatio false (Nat.pow 10 k) 1

/-- Multiplies by `10 ^ k`, unless the product is too large. -/
def timesPower? (x : Float) (k : Nat) : Option Float :=
  if k ≤ 308 then
    let product := x * powerOfTen k
    if product.isInf then none else some product
  else if x == 0 then some x
  else none

/-- Divides by `10 ^ k`, in steps of at most `10 ^ 308`. -/
def overPower (x : Float) (k : Nat) : Float :=
  if k ≤ 308 then x / powerOfTen k
  else if x == 0 then x
  else overPower (x / powerOfTen 308) (k - 308)
  termination_by k

/-- The quick reading of a written number; there is none of a number too large for 64 bits. -/
def Numeral.read? (n : Numeral) : Option Float :=
  let (digits, exponent) := n.kept
  let x := ofRatio false digits 1
  let magnitude :=
    if exponent < 0 then some (overPower x (-exponent).toNat) else timesPower? x exponent.toNat
  magnitude.map fun x => if n.negative then -x else x

example : Numeral.kept ⟨false, "10714829862921516198".toList, ['5'], 0⟩ =
    (10714829862921516198, 0) := by decide

example : Numeral.kept ⟨false, "18446744073709551616".toList, ['5'], 2⟩ =
    (18446744073709551615, 2) := by decide

end StrategyCanvas.Decimal
