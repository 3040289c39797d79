import StrategyCanvas.Decimal.Binary

/-!
# The shortest decimal of a binary number

Of all decimals `n · 10 ^ k` that round to a given 64-bit number, `shortest` takes the ones with the
fewest digits, and of those the nearest. The grids `10 ^ k` are tried from the coarsest on; if any
point of a grid rounds to the number, one of the number's two neighbours on that grid does, so it
is enough to test these two.
-/

namespace StrategyCanvas.Decimal

/-- Where an exact tie between two equally near decimals goes. -/
inductive Tie
  | up
  | even
  deriving DecidableEq, Repr

/-- The decimal `digits · 10 ^ exponent`. -/
structure Scientific where
  digits : Nat
  exponent : Int
  deriving DecidableEq, Repr

/-- The reals that round to `m · 2 ^ q`, in quarters of `2 ^ q`: from `low` to `high` around
`centre`. The ends belong to them when the mantissa is even. Below a power of two the neighbour is
only half as far away, unless the exponent is the least there is. -/
structure Interval where
  low : Nat
  centre : Nat
  high : Nat
  closed : Bool
  deriving DecidableEq, Repr

/-- The interval of a positive binary number. -/
def Binary.interval (b : Binary) : Interval where
  low := 4 * b.mantissa - if b.mantissa = hiddenBit ∧ leastExponent < b.exponent then 1 else 2
  centre := 4 * b.mantissa
  high := 4 * b.mantissa + 2
  closed := b.mantissa % 2 = 0

/-- Whether `x` lies in the interval stretched by `unit`. -/
def Interval.contains (i : Interval) (unit x : Nat) : Bool :=
  if i.closed then i.low * unit ≤ x && x ≤ i.high * unit else i.low * unit < x && x < i.high * unit

/-- The decimal on the grid `10 ^ k` that rounds to `b` and is nearest to it, if there is one. The
grid step and the quarter unit of `b` are both scaled to whole numbers first. -/
def Binary.onGrid? (b : Binary) (tie : Tie) (k : Int) : Option Scientific :=
  let quarter := b.exponent - 2
  let step := Nat.pow 10 k.toNat * Nat.pow 2 (-quarter).toNat
  let unit := Nat.pow 2 quarter.toNat * Nat.pow 10 (-k).toNat
  let interval := b.interval
  let value := interval.centre * unit
  let below := value / step
  let above := below + 1
  let hit (n : Nat) : Bool := interval.contains unit (n * step)
  let upper := match compare (2 * value) ((below + above) * step), tie with
    | .lt, _ => false
    | .gt, _ => true
    | .eq, .up => true
    | .eq, .even => below % 2 = 1
  match hit below, hit above with
  | false, false => none
  | true, false => some ⟨below, k⟩
  | false, true => some ⟨above, k⟩
  | true, true => some ⟨if upper then above else below, k⟩

/-- An exponent of ten above the first digit of a positive binary number: a little more than
`log₁₀ 2` times the position of its leading bit. -/
def Binary.decimalTop (b : Binary) : Int :=
  ((b.mantissa.log2 + b.exponent) * 301029996) / 1000000000 + 1

/-- The shortest decimal that rounds to the positive number `b`, the nearest one of them. Seventeen
digits always suffice, so the search over twenty grids never fails. -/
def Binary.shortest (b : Binary) (tie : Tie) : Scientific :=
  ((List.range 20).findSome? fun (i : Nat) => b.onGrid? tie (b.decimalTop - i)).getD
    ⟨b.mantissa, b.exponent⟩

end StrategyCanvas.Decimal
