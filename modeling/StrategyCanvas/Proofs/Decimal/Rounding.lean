import Mathlib.Algebra.Order.Field.Power
import Mathlib.Data.Rat.Cast.Order
import Mathlib.Tactic.FieldSimp
import Mathlib.Tactic.Linarith
import Mathlib.Tactic.Positivity
import Mathlib.Tactic.Ring
import StrategyCanvas.Decimal.Shortest
import StrategyCanvas.Proofs.Decimal.Binary

/-!
# Rounding to 64 bits

The interval of a number of 64 bits holds the rationals that are rounded to it
(`nearestBits_of_attracts`). A rounding picks the exponent by the size of the rational. That is the
exponent of the number, but just below a power of two, where the mantissa is carried
(`Binary.Attracts.exponent_cases`).
-/

namespace StrategyCanvas.Decimal

/-- The mantissas of full length begin at this power of two. -/
theorem hiddenBit_eq_zpow : (hiddenBit : ℚ) = 2 ^ (52 : ℤ) := by
  rw [hiddenBit_eq]
  norm_num

/-! ## To natural numbers -/

/-- Whether `x` is at most a half away from `m`, and less than a half if `m` is odd. -/
structure RoundsTo (x : ℚ) (m : ℕ) : Prop where
  low : 2 * m ≤ 2 * x + 1
  high : 2 * x ≤ 2 * m + 1
  inside : m % 2 = 1 → 2 * m < 2 * x + 1 ∧ 2 * x < 2 * m + 1

section

variable {num den m : ℕ}

/-- A quotient is rounded to the number that it rounds to as a rational. -/
theorem roundHalfEven_eq (pos : 0 < den) (h : RoundsTo (num / den) m) :
    roundHalfEven num den = m := by
  obtain ⟨low, high, inside⟩ := h
  have positive : (0 : ℚ) < den := Nat.cast_pos.mpr pos
  field_simp at low high inside
  norm_cast at low high inside
  have left : 2 * m * den = 2 * (den * m) := by ring
  have right : den * (2 * m + 1) = 2 * (den * m) + den := by ring
  rw [left] at low inside
  rw [right] at high inside
  have split := Nat.div_add_mod num den
  have rest_lt := Nat.mod_lt num pos
  unfold roundHalfEven
  dsimp only
  generalize num / den = q at split ⊢
  generalize num % den = rest at split rest_lt ⊢
  have near : m = q ∨ m = q + 1 := by
    by_contra far
    obtain less | more : m + 1 ≤ q ∨ q + 2 ≤ m := by omega
    · have := Nat.mul_le_mul_left den less
      rw [Nat.mul_add] at this
      omega
    · have := Nat.mul_le_mul_left den more
      rw [Nat.mul_add] at this
      omega
  obtain rfl | rfl := near
  · split_ifs <;> omega
  · rw [Nat.mul_add] at low high inside
    split_ifs <;> omega

/-! ## The exponent of a rounding -/

/-- Numerator and denominator of `num / den / 2 ^ e`. -/
def scaled (num den : ℕ) (e : ℤ) : ℕ × ℕ :=
  if e < 0 then (num * Nat.pow 2 (-e).toNat, den) else (num, den * Nat.pow 2 e.toNat)

/-- The exponent by which `nearestBits` scales. -/
def roundingExponent (num den : ℕ) : ℤ :=
  let wide := (num.log2 : ℤ) - den.log2 - 53
  let fits : Bool := (scaled num den wide).1 / (scaled num den wide).2 < 2 * hiddenBit
  max leastExponent (if fits then wide else wide + 1)

/-- Rounding scales the quotient, rounds it, and puts the exponent in front. -/
theorem nearestBits_eq (num den : ℕ) : nearestBits num den =
    let e := roundingExponent num den
    min ((e - leastExponent).toNat * hiddenBit
      + roundHalfEven (scaled num den e).1 (scaled num den e).2) (0x7ff * hiddenBit) := rfl

theorem scaled_snd_pos (pos : 0 < den) (e : ℤ) : 0 < (scaled num den e).2 := by
  unfold scaled
  split
  · exact pos
  · exact Nat.mul_pos pos (Nat.two_pow_pos _)

/-- Scaling divides by a power of two. -/
theorem scaled_div (num den : ℕ) (e : ℤ) :
    ((scaled num den e).1 : ℚ) / (scaled num den e).2 = num / den / 2 ^ e := by
  unfold scaled
  split
  · obtain ⟨k, rfl⟩ := Int.exists_eq_neg_ofNat (le_of_lt ‹_›)
    simp only [Nat.pow_eq, neg_neg, Int.toNat_natCast, Nat.cast_mul, Nat.cast_pow, Nat.cast_ofNat,
      zpow_neg, zpow_natCast, div_inv_eq_mul]
    exact mul_div_right_comm _ _ _
  · obtain ⟨k, rfl⟩ := Int.eq_ofNat_of_zero_le (not_lt.mp ‹_›)
    simp only [Nat.pow_eq, Int.toNat_natCast, Nat.cast_mul, Nat.cast_pow, Nat.cast_ofNat,
      zpow_natCast, div_div]

/-- Whole quotients are compared like the rationals that they come from. -/
theorem scaled_div_lt_iff (pos : 0 < den) (e : ℤ) (bound : ℕ) :
    (scaled num den e).1 / (scaled num den e).2 < bound ↔ (num / den : ℚ) < bound * 2 ^ e := by
  have positive : (0 : ℚ) < (scaled num den e).2 := Nat.cast_pos.mpr (scaled_snd_pos pos e)
  rw [Nat.div_lt_iff_lt_mul (scaled_snd_pos pos e), ← div_lt_iff₀ (by positivity), ← scaled_div,
    div_lt_iff₀ positive]
  norm_cast

/-- The positions of the leading bits leave a factor of four open. -/
theorem log2_bounds (num_pos : 0 < num) (den_pos : 0 < den) :
    (hiddenBit : ℚ) * 2 ^ ((num.log2 : ℤ) - den.log2 - 53) ≤ num / den
    ∧ (num / den : ℚ) < 4 * hiddenBit * 2 ^ ((num.log2 : ℤ) - den.log2 - 53) := by
  have positive : (0 : ℚ) < den := Nat.cast_pos.mpr den_pos
  have ge {n : ℕ} (pos : 0 < n) : (2 : ℚ) ^ (n.log2 : ℤ) ≤ n := by
    exact_mod_cast Nat.log2_self_le pos.ne'
  have lt (n : ℕ) : (n : ℚ) < 2 ^ (n.log2 + 1 : ℤ) := by exact_mod_cast Nat.lt_log2_self
  constructor
  · calc _ = (2 : ℚ) ^ (num.log2 : ℤ) / 2 ^ (den.log2 + 1 : ℤ) := by
          rw [hiddenBit_eq_zpow, ← zpow_add₀ two_ne_zero, ← zpow_sub₀ two_ne_zero]
          ring_nf
      _ ≤ num / den := div_le_div₀ (by positivity) (ge num_pos) positive (lt den).le
  · calc (num / den : ℚ) < 2 ^ (num.log2 + 1 : ℤ) / 2 ^ (den.log2 : ℤ) :=
          div_lt_div₀ (lt num) (ge den_pos) (by positivity) (by positivity)
      _ = 2 ^ (54 : ℤ) * 2 ^ ((num.log2 : ℤ) - den.log2 - 53) := by
          rw [← zpow_sub₀ two_ne_zero, ← zpow_add₀ two_ne_zero]
          ring_nf
      _ = 4 * hiddenBit * 2 ^ ((num.log2 : ℤ) - den.log2 - 53) := by
          rw [hiddenBit_eq_zpow]
          norm_num

/-- The mantissa gets at most 53 binary digits, and no fewer unless the exponent is the least. -/
theorem roundingExponent_spec (num_pos : 0 < num) (den_pos : 0 < den) :
    leastExponent ≤ roundingExponent num den
    ∧ (num / den : ℚ) < (2 * hiddenBit : ℕ) * 2 ^ roundingExponent num den
    ∧ (leastExponent < roundingExponent num den →
      (hiddenBit : ℚ) * 2 ^ roundingExponent num den ≤ num / den) := by
  obtain ⟨ge, lt⟩ := log2_bounds num_pos den_pos
  unfold roundingExponent
  generalize (num.log2 : ℤ) - den.log2 - 53 = wide at ge lt ⊢
  simp only [decide_eq_true_eq, scaled_div_lt_iff den_pos]
  have step : (2 : ℚ) ^ (wide + 1) = 2 ^ wide * 2 := zpow_add_one₀ two_ne_zero wide
  refine ⟨le_max_left _ _, lt_of_lt_of_le ?_ (mul_le_mul_of_nonneg_left
    (zpow_le_zpow_right₀ one_le_two (le_max_right _ _)) (Nat.cast_nonneg _)), fun more => ?_⟩
  · split
    · assumption
    · rw [step]
      push_cast
      linarith
  · rw [max_eq_right (by omega)]
    split
    · exact ge
    · rename_i large
      push_cast at large
      rw [step]
      linarith

/-- What `nearestBits` does: it picks an exponent by the size and rounds the mantissa. -/
theorem exists_nearestBits_eq (num_pos : 0 < num) (den_pos : 0 < den) : ∃ e : ℤ,
    leastExponent ≤ e ∧ (num / den : ℚ) / 2 ^ e < 2 * hiddenBit
    ∧ (leastExponent < e → (hiddenBit : ℚ) ≤ num / den / 2 ^ e)
    ∧ ∀ m, RoundsTo (num / den / 2 ^ e) m → nearestBits num den
      = min ((e - leastExponent).toNat * hiddenBit + m) (0x7ff * hiddenBit) := by
  obtain ⟨least, lt, ge⟩ := roundingExponent_spec num_pos den_pos
  refine ⟨roundingExponent num den, least, ?_, fun more => ?_, fun m rounds => ?_⟩
  · rw [div_lt_iff₀ (by positivity)]
    exact_mod_cast lt
  · rw [le_div_iff₀ (by positivity)]
    exact ge more
  · rw [← scaled_div] at rounds
    rw [nearestBits_eq]
    dsimp only
    rw [roundHalfEven_eq (scaled_snd_pos den_pos _) rounds]

/-! ## Decimals -/

/-- A number lies between two powers of ten that its digits tell by their count. -/
theorem toDigits_bounds (pos : 0 < m) :
    (10 : ℚ) ^ ((Nat.toDigits 10 m).length - 1 : ℤ) ≤ m
    ∧ (m : ℚ) < 10 ^ ((Nat.toDigits 10 m).length : ℤ) := by
  have long : 0 < (Nat.toDigits 10 m).length := Nat.length_toDigits_pos
  have le_iff (k : ℕ) := Nat.length_toDigits_le_iff (b := 10) (n := m) (k := k) (by decide)
  generalize (Nat.toDigits 10 m).length = length at long le_iff ⊢
  obtain ⟨k, rfl⟩ := Nat.exists_eq_succ_of_ne_zero long.ne'
  have lt := (le_iff (k + 1) long).mp le_rfl
  have ge : 10 ^ k ≤ m := by
    cases k with
    | zero => exact pos
    | succ k => exact not_lt.mp ((le_iff (k + 1) (by omega)).not.mp (by omega))
  rw [Nat.succ_eq_add_one, Nat.cast_succ, add_sub_cancel_right]
  exact ⟨by exact_mod_cast ge, by exact_mod_cast lt⟩

/-- A decimal that is not far beyond the range is rounded as it is. -/
theorem exists_ofDecimal_eq {e : ℤ} (low : (10 : ℚ) ^ (-330 : ℤ) ≤ m * 10 ^ e)
    (high : (m : ℚ) * 10 ^ e < 10 ^ (330 : ℤ)) (negative : Bool) :
    ∃ num den : ℕ, 0 < num ∧ 0 < den ∧ (num / den : ℚ) = m * 10 ^ e
      ∧ ofDecimal negative m e = ofRatio negative num den := by
  have pos : 0 < m := by
    rw [pos_iff_ne_zero]
    rintro rfl
    rw [Nat.cast_zero, zero_mul] at low
    exact absurd low (zpow_pos (by norm_num) _).not_ge
  obtain ⟨ge, lt⟩ := toDigits_bounds pos
  unfold ofDecimal
  dsimp only
  generalize ((Nat.toDigits 10 m).length : ℤ) = length at ge lt ⊢
  have notSmall : ¬e + length < -330 := by
    intro small
    refine absurd low (not_le_of_gt ?_)
    calc (m : ℚ) * 10 ^ e < 10 ^ length * 10 ^ e := mul_lt_mul_of_pos_right lt (by positivity)
      _ = 10 ^ (e + length) := by rw [← zpow_add₀ (by norm_num), add_comm]
      _ ≤ 10 ^ (-330 : ℤ) := zpow_le_zpow_right₀ (by norm_num) small.le
  have notLarge : ¬330 < e + length := by
    intro large
    refine absurd high (not_lt_of_ge ?_)
    calc (10 : ℚ) ^ (330 : ℤ) ≤ 10 ^ (length - 1 + e) :=
          zpow_le_zpow_right₀ (by norm_num) (by omega)
      _ = 10 ^ (length - 1) * 10 ^ e := zpow_add₀ (by norm_num) _ _
      _ ≤ m * 10 ^ e := mul_le_mul_of_nonneg_right ge (by positivity)
  rw [if_neg (not_or.mpr ⟨pos.ne', notSmall⟩), if_neg notLarge]
  have ten_pow_pos (k : ℕ) : 0 < Nat.pow 10 k := Nat.pow_pos (by decide)
  split
  · obtain ⟨k, rfl⟩ := Int.exists_eq_neg_ofNat (le_of_lt ‹_›)
    refine ⟨m, _, pos, ten_pow_pos _, ?_, rfl⟩
    simp [div_eq_mul_inv]
  · obtain ⟨k, rfl⟩ := Int.eq_ofNat_of_zero_le (not_lt.mp ‹_›)
    refine ⟨_, 1, Nat.mul_pos pos (ten_pow_pos _), Nat.one_pos, ?_, rfl⟩
    simp

end

/-! ## To numbers of 64 bits -/

/-- Whether `x` lies in the interval, in quarters of the last place. -/
def Interval.Has (i : Interval) (x : ℚ) : Prop :=
  if i.closed then i.low ≤ x ∧ x ≤ i.high else i.low < x ∧ x < i.high

namespace Binary

/-- Whether `v` is rounded to the number apart from its sign. -/
def Attracts (b : Binary) (v : ℚ) : Prop := b.interval.Has (v / 2 ^ (b.exponent - 2))

variable {b : Binary} {v : ℚ}

/-- The interval begins a half below the number, or a quarter below a power of two. -/
theorem low_bounds (pos : 0 < b.mantissa) :
    4 * (b.mantissa : ℚ) - 2 ≤ b.interval.low ∧ (b.interval.low : ℚ) ≤ 4 * b.mantissa - 1 := by
  unfold interval
  dsimp only
  split
  all_goals rw [Nat.cast_sub (by omega)]; push_cast; constructor <;> linarith

/-- The interval ends a half above the number. -/
theorem cast_high : (b.interval.high : ℚ) = 4 * b.mantissa + 2 := by simp [interval]

/-- The ends of the interval belong to it if the mantissa is even. -/
theorem closed_iff : b.interval.closed = true ↔ b.mantissa % 2 = 0 := by simp [interval]

/-- The interval counts in quarters of the last place. -/
theorem Attracts.has (h : b.Attracts v) : b.interval.Has (v / 2 ^ b.exponent * 4) := by
  unfold Attracts at h
  have quarter : (2 : ℚ) ^ (b.exponent - 2) = 2 ^ b.exponent / 4 := by
    rw [zpow_sub₀ two_ne_zero]
    norm_num
  rwa [quarter, ← div_mul] at h

/-- A rational that is rounded to a number has its scaled value rounded to the mantissa. -/
theorem Attracts.roundsTo (h : b.Attracts v) (pos : 0 < b.mantissa) :
    RoundsTo (v / 2 ^ b.exponent) b.mantissa := by
  have has := h.has
  obtain ⟨low, -⟩ := low_bounds pos
  generalize v / 2 ^ b.exponent = x at has ⊢
  unfold Interval.Has at has
  rw [cast_high] at has
  split at has
  · refine ⟨by linarith, by linarith, fun odd => ?_⟩
    exact absurd (closed_iff.mp ‹_›) (by omega)
  · exact ⟨by linarith, by linarith, fun _ => ⟨by linarith, by linarith⟩⟩

/-- What is rounded to a positive number is not below half of the least one. -/
theorem Attracts.two_zpow_le (h : b.Attracts v) (fits : b.IsReal64) (pos : 0 < b.mantissa) :
    (2 : ℚ) ^ (-1075 : ℤ) ≤ v := by
  have low := (h.roundsTo pos).low
  have mantissa : (1 : ℚ) ≤ b.mantissa := by exact_mod_cast pos
  have least := fits.le_exponent
  rw [leastExponent_eq] at least
  calc (2 : ℚ) ^ (-1075 : ℤ) ≤ 2 ^ (b.exponent - 1) :=
        zpow_le_zpow_right₀ one_le_two (by omega)
    _ = 1 / 2 * 2 ^ b.exponent := by rw [zpow_sub_one₀ two_ne_zero]; ring
    _ ≤ v / 2 ^ b.exponent * 2 ^ b.exponent := by
        refine mul_le_mul_of_nonneg_right ?_ (by positivity)
        linarith
    _ = v := div_mul_cancel₀ _ (by positivity)

/-- What is rounded to a finite number is below the first one that is not. -/
theorem Attracts.lt_two_zpow (h : b.Attracts v) (fits : b.IsReal64) (pos : 0 < b.mantissa) :
    v < 2 ^ (1024 : ℤ) := by
  have high := (h.roundsTo pos).high
  have mantissa : (b.mantissa : ℚ) + 1 ≤ 2 * hiddenBit := by exact_mod_cast fits.mantissa_lt
  calc v = v / 2 ^ b.exponent * 2 ^ b.exponent := (div_mul_cancel₀ _ (by positivity)).symm
    _ < 2 * hiddenBit * 2 ^ b.exponent := by
        refine mul_lt_mul_of_pos_right ?_ (by positivity)
        linarith
    _ ≤ 2 * hiddenBit * 2 ^ (971 : ℤ) := mul_le_mul_of_nonneg_left
        (zpow_le_zpow_right₀ one_le_two fits.exponent_le) (by positivity)
    _ = 2 ^ (1024 : ℤ) := by
        rw [hiddenBit_eq_zpow, ← zpow_one_add₀ two_ne_zero, ← zpow_add₀ two_ne_zero]
        rfl

/-- Below a power of two the numbers are closer. -/
theorem Attracts.le_of_hiddenBit (h : b.Attracts v) (power : b.mantissa = hiddenBit)
    (more : leastExponent < b.exponent) : 4 * (hiddenBit : ℚ) ≤ v / 2 ^ b.exponent * 4 + 1 := by
  have has := h.has
  have low : (b.interval.low : ℚ) = 4 * hiddenBit - 1 := by
    unfold interval
    dsimp only
    rw [if_pos ⟨power, more⟩, power, Nat.cast_sub (by decide)]
    push_cast
    rfl
  generalize v / 2 ^ b.exponent = x at has ⊢
  unfold Interval.Has at has
  split at has <;> linarith

/-- The exponent of a rounding is that of the number, unless the mantissa is carried. -/
theorem Attracts.exponent_cases {d : ℤ} (h : b.Attracts v) (fits : b.IsReal64)
    (pos : 0 < b.mantissa) (least : leastExponent ≤ b.exponent + d)
    (lt : v / 2 ^ b.exponent / 2 ^ d < 2 * hiddenBit)
    (ge : leastExponent < b.exponent + d → (hiddenBit : ℚ) ≤ v / 2 ^ b.exponent / 2 ^ d) :
    d = 0 ∨ d = -1 ∧ b.mantissa = hiddenBit ∧ leastExponent < b.exponent := by
  have near := h.roundsTo pos
  have close := h.le_of_hiddenBit
  generalize v / 2 ^ b.exponent = x at near close lt ge
  have bound : (1 : ℚ) < hiddenBit := by simp [hiddenBit_eq]
  obtain lower | same | higher := lt_trichotomy d 0
  · have half : (2 : ℚ) ^ d ≤ 2⁻¹ := by
      rw [← zpow_neg_one]
      exact zpow_le_zpow_right₀ one_le_two (by omega)
    have more : leastExponent < b.exponent := by omega
    rw [div_lt_iff₀ (by positivity)] at lt
    have full : b.mantissa = hiddenBit := by
      refine le_antisymm (Nat.lt_succ_iff.mp ?_) (fits.le_mantissa more)
      rw [← Nat.cast_lt (α := ℚ), Nat.cast_succ]
      have := near.low
      nlinarith
    have : ¬d ≤ -2 := by
      intro much
      have quarter : (2 : ℚ) ^ d ≤ 2 ^ (-2 : ℤ) := zpow_le_zpow_right₀ one_le_two much
      norm_num at quarter
      have := close full more
      nlinarith
    exact Or.inr ⟨by omega, full, more⟩
  · exact Or.inl same
  · exfalso
    have double : (2 : ℚ) ^ (1 : ℤ) ≤ 2 ^ d := zpow_le_zpow_right₀ one_le_two (by omega)
    rw [zpow_one] at double
    have large := ge (by have := fits.le_exponent; omega)
    rw [le_div_iff₀ (by positivity)] at large
    have mantissa : (b.mantissa : ℚ) + 1 ≤ 2 * hiddenBit := by exact_mod_cast fits.mantissa_lt
    have := near.high
    nlinarith

/-- The bits of a finite number are not beyond those of infinity. -/
theorem IsReal64.magnitudeBits_le (fits : b.IsReal64) : b.magnitudeBits ≤ 0x7ff * hiddenBit := by
  have mantissa_lt := fits.mantissa_lt
  have exponent_le := fits.exponent_le
  rw [magnitudeBits, hiddenBit_eq, leastExponent_eq] at *
  omega

/-- A rational in the interval of a number is rounded to its bits. -/
theorem nearestBits_of_attracts {num den : ℕ} (fits : b.IsReal64) (pos : 0 < b.mantissa)
    (num_pos : 0 < num) (den_pos : 0 < den) (h : b.Attracts (num / den)) :
    nearestBits num den = b.magnitudeBits := by
  obtain ⟨e, least, lt, ge, rounded⟩ := exists_nearestBits_eq num_pos den_pos
  obtain ⟨d, rfl⟩ : ∃ d, e = b.exponent + d := ⟨e - b.exponent, by ring⟩
  simp only [zpow_add₀ (two_ne_zero (α := ℚ)), ← div_div _ ((2 : ℚ) ^ b.exponent)] at lt ge rounded
  suffices same : ∃ m, RoundsTo (num / den / 2 ^ b.exponent / 2 ^ d) m
      ∧ (b.exponent + d - leastExponent).toNat * hiddenBit + m = b.magnitudeBits by
    obtain ⟨m, rounds, bits⟩ := same
    rw [rounded m rounds, bits, min_eq_left fits.magnitudeBits_le]
  have near := h.roundsTo pos
  obtain rfl | ⟨rfl, power, more⟩ := h.exponent_cases fits pos least lt ge
  · exact ⟨b.mantissa, by simpa using near, by rw [add_zero, magnitudeBits]⟩
  · -- the mantissa of the lower exponent is carried to the next power of two
    rw [zpow_neg_one, div_inv_eq_mul] at lt ⊢
    have close := h.le_of_hiddenBit power more
    refine ⟨2 * hiddenBit, ⟨?_, ?_, fun odd => ?_⟩, ?_⟩
    · push_cast
      linarith
    · push_cast
      linarith
    · omega
    · rw [magnitudeBits, power, hiddenBit_eq, leastExponent_eq] at *
      omega

end Binary

end StrategyCanvas.Decimal
