import Mathlib
import StrategyCanvas.Proofs.Decimal.Reading
import StrategyCanvas.Proofs.Decimal.Shortest

/-!
# Numbers as texts

A floating point number is read from its text again, bit for bit, in every layout (`read?_text`).
The text stands for a decimal in the interval of the number (`attracts_shortest`), and a reader
rounds whatever lies there to the number (`ofDecimal_of_attracts`).
-/

namespace StrategyCanvas.Decimal

section

variable {x : Float} {b : Binary}

/-- A number is made of its own bits. -/
theorem ofBits_of_toNat {n : ℕ} (h : x.toBits.toNat = n) : Float.ofBits n.toUInt64 = x := by
  rw [← h, Nat.toUInt64_eq, UInt64.ofNat_toNat, Float.ofBits_toBits]

/-! ## Finite numbers -/

/-- The parts of a finite number put its bits together. -/
theorem hasBits_of_finite (h : Real64.ofFloat x = .finite b) :
    b.IsReal64 ∧ x.toBits.toNat = signBit b.negative + b.magnitudeBits := by
  have bits := hasBits_ofFloat x
  rwa [h] at bits

/-- Zero is rounded to itself, with its sign. -/
theorem ofRatio_zero (h : Real64.ofFloat x = .finite b) (zero : b.mantissa = 0) :
    ofRatio b.negative 0 1 = x := by
  obtain ⟨fits, bits⟩ := hasBits_of_finite h
  have least : ¬leastExponent < b.exponent := by
    intro more
    have := fits.le_mantissa more
    rw [zero] at this
    exact absurd this (by decide)
  have exponent : b.exponent = leastExponent := by have := fits.le_exponent; omega
  refine ofBits_of_toNat ?_
  simp [bits, Binary.magnitudeBits, signBit, exponent, zero]

/-- A quotient that a number attracts is rounded to it. -/
theorem ofRatio_of_attracts {num den : ℕ} (h : Real64.ofFloat x = .finite b)
    (pos : 0 < b.mantissa) (num_pos : 0 < num) (den_pos : 0 < den)
    (attracts : b.Attracts (num / den)) : ofRatio b.negative num den = x := by
  obtain ⟨fits, bits⟩ := hasBits_of_finite h
  refine ofBits_of_toNat ?_
  rw [if_neg num_pos.ne', b.nearestBits_of_attracts fits pos num_pos den_pos attracts, bits,
    signBit]

/-- A decimal that a number attracts is rounded to it. -/
theorem ofDecimal_of_attracts {n : ℕ} {e : ℤ} (h : Real64.ofFloat x = .finite b)
    (pos : 0 < b.mantissa) (attracts : b.Attracts (n * 10 ^ e)) :
    ofDecimal b.negative n e = x := by
  obtain ⟨fits, -⟩ := hasBits_of_finite h
  have low : (10 : ℚ) ^ (-330 : ℤ) ≤ n * 10 ^ e :=
    (ten_zpow_le_two_zpow (by decide) (by decide)).trans (attracts.two_zpow_le fits pos)
  have high : (n : ℚ) * 10 ^ e < 10 ^ (330 : ℤ) := by
    refine (attracts.lt_two_zpow fits pos).trans_le ?_
    have inverse := ten_zpow_le_two_zpow (k := -330) (j := -1024) (by decide) (by decide)
    rwa [zpow_neg, zpow_neg, inv_le_inv₀ (by positivity) (by positivity)] at inverse
  obtain ⟨num, den, num_pos, den_pos, value, rounded⟩ := exists_ofDecimal_eq low high b.negative
  rw [← value] at attracts
  rw [rounded, ofRatio_of_attracts h pos num_pos den_pos attracts]

/-! ## All numbers -/

theorem ofBits_of_infinite {negative : Bool} (h : Real64.ofFloat x = .infinite negative) :
    Float.ofBits (signBit negative + 0x7ff * hiddenBit).toUInt64 = x := by
  have bits := hasBits_ofFloat x
  rw [h] at bits
  exact ofBits_of_toNat bits

open Float.Model.UnpackedFloat in
/-- Many rows of bits stand for no number, but only one of them is a floating point number. -/
theorem toBits_of_nan (h : Real64.ofFloat x = .nan) : x.toBits = 0x7ff8000000000000 := by
  have bits := hasBits_ofFloat x
  rw [h] at bits
  have sign : Nat.pow 2 63 = 9223372036854775808 := rfl
  simp only [Real64.HasBits, hiddenBit_eq, sign] at bits
  have exponent : @unpackExponent .binary64 x.toBits.toBitVec = -1#11 := by
    rw [unpackExponent_def, ← BitVec.toNat_inj, BitVec.extractLsb'_toNat]
    show x.toBits.toNat >>> 52 % 2048 = 2047
    rw [Nat.shiftRight_eq_div_pow]
    omega
  have fraction : @unpackMantissa .binary64 x.toBits.toBitVec ≠ 0#52 := by
    rw [unpackMantissa_def, Ne, ← BitVec.toNat_inj, BitVec.extractLsb'_toNat]
    show x.toBits.toNat % 4503599627370496 ≠ 0
    omega
  exact UInt64.toBitVec_inj.mp (x.toModel.valid.eq_packedNaN exponent fraction)

end

/-- A number is read from its text again. -/
theorem read?_text (l : Layout) (x : Float) : read? (l.text x) = some x := by
  unfold Layout.text
  split
  · rename_i nan
    rw [← Float.ofBits_toBits x, toBits_of_nan nan]
    rfl
  · rename_i infinite
    rw [← ofBits_of_infinite infinite]
    rfl
  · rename_i infinite
    rw [← ofBits_of_infinite infinite]
    rfl
  · rename_i b finite
    unfold Layout.finiteText
    by_cases zero : b.mantissa = 0
    · obtain ⟨n, e, value, read⟩ := read?_of_reads l.reads_zero b.negative
      have nothing : n = 0 := by
        simpa [zpow_ne_zero e (by norm_num : (10 : ℚ) ≠ 0)] using value
      rw [if_pos zero, read, nothing, ofDecimal, if_pos (Or.inl rfl), ofRatio_zero finite zero]
    · have pos := Nat.pos_of_ne_zero zero
      obtain ⟨n, e, value, read⟩ :=
        read?_of_reads (l.reads_scientificText (b.shortest l.tie)) b.negative
      have attracts := b.attracts_shortest (hasBits_of_finite finite).1 pos l.tie
      rw [← value] at attracts
      rw [if_neg zero, read, ofDecimal_of_attracts finite pos attracts]

end StrategyCanvas.Decimal
