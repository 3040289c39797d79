import Mathlib.Tactic.SplitIfs
import StrategyCanvas.Decimal.Binary

/-!
# The bits of a number

Sign, exponent and mantissa are read off 64 bits, and the bits are their sum (`hasBits_ofBits`): a
number that is put together again from its parts has the bits it had.
-/

namespace StrategyCanvas.Decimal

theorem hiddenBit_eq : hiddenBit = 4503599627370496 := rfl

theorem leastExponent_eq : leastExponent = -1074 := rfl

/-- The finite numbers of 64 bits: a mantissa has at most 53 binary digits, and no fewer unless the
exponent is the least one. -/
structure Binary.IsReal64 (b : Binary) : Prop where
  mantissa_lt : b.mantissa < 2 * hiddenBit
  le_exponent : leastExponent ≤ b.exponent
  exponent_le : b.exponent ≤ 971
  le_mantissa : leastExponent < b.exponent → hiddenBit ≤ b.mantissa

/-- The bit that makes a number negative. -/
def signBit (negative : Bool) : Nat := if negative then Nat.pow 2 63 else 0

/-- The bits of a finite number apart from its sign. -/
def Binary.magnitudeBits (b : Binary) : Nat :=
  (b.exponent - leastExponent).toNat * hiddenBit + b.mantissa

/-- Whether a number has these bits. Many rows of bits stand for no number. -/
def Real64.HasBits : Real64 → Nat → Prop
  | .nan, bits => 0x7ff * hiddenBit < bits % Nat.pow 2 63
  | .infinite negative, bits => bits = signBit negative + 0x7ff * hiddenBit
  | .finite b, bits => b.IsReal64 ∧ bits = signBit b.negative + b.magnitudeBits

variable {bits : UInt64}

/-- The exponent is eleven of the bits. -/
theorem toNat_biased : ((bits >>> 52) &&& 0x7ff).toNat = bits.toNat / 4503599627370496 % 2048 := by
  rw [UInt64.toNat_and, UInt64.toNat_shiftRight]
  show bits.toNat >>> 52 &&& (2 ^ 11 - 1) = _
  rw [Nat.and_two_pow_sub_one_eq_mod, Nat.shiftRight_eq_div_pow]

/-- The fraction is the last fifty-two bits. -/
theorem toNat_fraction : (bits &&& 0xfffffffffffff).toNat = bits.toNat % 4503599627370496 := by
  rw [UInt64.toNat_and]
  show bits.toNat &&& (2 ^ 52 - 1) = _
  rw [Nat.and_two_pow_sub_one_eq_mod]

/-- The sign is the first bit. -/
theorem shiftRight_eq_one_iff : bits >>> 63 = 1 ↔ bits.toNat / 9223372036854775808 = 1 := by
  rw [← UInt64.toNat_inj, UInt64.toNat_shiftRight]
  show bits.toNat >>> 63 = 1 ↔ _
  rw [Nat.shiftRight_eq_div_pow]

/-- Sign, exponent and fraction stand side by side. -/
theorem toNat_eq_fields (bits : UInt64) : bits.toNat = signBit (decide (bits >>> 63 = 1))
    + ((bits >>> 52) &&& 0x7ff).toNat * hiddenBit + (bits &&& 0xfffffffffffff).toNat := by
  have size : bits.toNat < 18446744073709551616 := bits.toNat_lt
  have sign : Nat.pow 2 63 = 9223372036854775808 := rfl
  simp only [toNat_biased, toNat_fraction, shiftRight_eq_one_iff, hiddenBit_eq, signBit,
    decide_eq_true_eq]
  split <;> omega

/-- Whatever bits are taken apart are put together again. -/
theorem hasBits_ofBits (bits : UInt64) : (Real64.ofBits bits).HasBits bits.toNat := by
  have fields := toNat_eq_fields bits
  have biased_lt : ((bits >>> 52) &&& 0x7ff).toNat < 2048 := by
    rw [toNat_biased]
    exact Nat.mod_lt _ (by decide)
  have fraction_lt : (bits &&& 0xfffffffffffff).toNat < 4503599627370496 := by
    rw [toNat_fraction]
    exact Nat.mod_lt _ (by decide)
  unfold Real64.ofBits
  dsimp only
  generalize ((bits >>> 52) &&& 0x7ff).toNat = biased at fields biased_lt ⊢
  generalize (bits &&& 0xfffffffffffff).toNat = fraction at fields fraction_lt ⊢
  generalize decide (bits >>> 63 = 1) = negative at fields ⊢
  rw [hiddenBit_eq] at fields
  split_ifs with special nothing subnormal
  · simp [Real64.HasBits, fields, special, nothing, hiddenBit_eq]
  · have sign : Nat.pow 2 63 = 9223372036854775808 := rfl
    simp only [Real64.HasBits, hiddenBit_eq, sign, fields, signBit]
    split <;> omega
  · refine ⟨⟨?_, Int.le_refl _, ?_, fun more => absurd more (Int.lt_irrefl _)⟩, ?_⟩
    · exact Nat.lt_trans fraction_lt (by decide)
    · show leastExponent ≤ 971
      decide
    · simp [fields, subnormal, Binary.magnitudeBits]
  · refine ⟨⟨?_, ?_, ?_, fun _ => Nat.le_add_right _ _⟩, ?_⟩
    all_goals simp only [Binary.magnitudeBits, hiddenBit_eq, leastExponent_eq]; omega

theorem hasBits_ofFloat (x : Float) : (Real64.ofFloat x).HasBits x.toBits.toNat :=
  hasBits_ofBits x.toBits

end StrategyCanvas.Decimal
