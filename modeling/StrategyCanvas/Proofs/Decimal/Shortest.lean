import StrategyCanvas.Proofs.Decimal.Rounding

/-!
# Shortest decimals

Among the twenty grids that are tried there is always one fine enough to have a point in the
interval of a number of 64 bits, so the shortest decimal of the number is rounded to the number
(`attracts_shortest`).
-/

namespace StrategyCanvas.Decimal

/-! ## Powers of ten and of two -/

theorem pow_toNat_div {a : ℚ} (ne : a ≠ 0) (e : ℤ) : a ^ e.toNat / a ^ (-e).toNat = a ^ e := by
  rw [← zpow_natCast, ← zpow_natCast, ← zpow_sub₀ ne, Int.toNat_sub_toNat_neg]

/-- A decimal digit is worth a little less than 10/3 binary digits and a little more than 93/28. -/
theorem ten_zpow_le_two_zpow {k j : ℤ} (nonneg : 0 ≤ k → 10 * k ≤ 3 * j)
    (neg : k < 0 → 93 * k ≤ 28 * j) : (10 : ℚ) ^ k ≤ 2 ^ j := by
  have root {n : ℕ} (pos : n ≠ 0) (h : ((10 : ℚ) ^ n) ^ k ≤ 2 ^ (n * j)) :
      (10 : ℚ) ^ k ≤ 2 ^ j := by
    refine le_of_pow_le_pow_left₀ pos (by positivity) ?_
    rwa [← zpow_natCast, ← zpow_natCast, ← zpow_mul, ← zpow_mul, mul_comm k, mul_comm j, zpow_mul,
      zpow_natCast]
  obtain large | small := le_or_gt 0 k
  · refine root (n := 3) (by decide) ?_
    calc ((10 : ℚ) ^ 3) ^ k ≤ (2 ^ 10) ^ k := zpow_le_zpow_left₀ large (by norm_num) (by norm_num)
      _ = 2 ^ (10 * k) := (zpow_mul 2 10 k).symm
      _ ≤ 2 ^ (3 * j) := zpow_le_zpow_right₀ one_le_two (nonneg large)
  · refine root (n := 28) (by decide) ?_
    obtain ⟨n, rfl⟩ := Int.exists_eq_neg_ofNat small.le
    calc ((10 : ℚ) ^ 28) ^ (-(n : ℤ)) ≤ (2 ^ 93) ^ (-(n : ℤ)) := by
          rw [zpow_neg, zpow_neg, zpow_natCast, zpow_natCast]
          exact inv_anti₀ (by positivity) (pow_le_pow_left₀ (by norm_num) (by norm_num) n)
      _ = 2 ^ (93 * -(n : ℤ)) := (zpow_mul 2 93 _).symm
      _ ≤ 2 ^ (28 * j) := zpow_le_zpow_right₀ one_le_two (neg small)

/-! ## Grids -/

/-- The last point of a grid that is not above a number is less than a step below it. -/
theorem grid_bounds {step unit : ℕ} (step_pos : 0 < step) (unit_pos : 0 < unit) (x : ℕ) :
    ((x * unit / step : ℕ) : ℚ) * (step / unit) ≤ x
    ∧ (x : ℚ) < (x * unit / step : ℕ) * (step / unit) + step / unit := by
  have positive : (0 : ℚ) < unit := Nat.cast_pos.mpr unit_pos
  have le := Nat.div_mul_le_self (x * unit) step
  have lt := Nat.lt_div_mul_add (a := x * unit) step_pos
  generalize x * unit / step = n at le lt ⊢
  rw [← mul_div_assoc, ← add_div, div_le_iff₀ positive, lt_div_iff₀ positive]
  exact ⟨by exact_mod_cast le, by exact_mod_cast lt⟩

theorem Interval.has_of_lt {i : Interval} {x : ℚ} (low : i.low < x) (high : x < i.high) :
    i.Has x := by
  unfold Has
  split
  · exact ⟨low.le, high.le⟩
  · exact ⟨low, high⟩

theorem Interval.contains_iff {i : Interval} {unit : ℕ} (pos : 0 < unit) (x : ℕ) :
    i.contains unit x = true ↔ i.Has (x / unit) := by
  have positive : (0 : ℚ) < unit := Nat.cast_pos.mpr pos
  unfold contains Has
  split
  · rw [le_div_iff₀ positive, div_le_iff₀ positive, Bool.and_eq_true, decide_eq_true_eq,
      decide_eq_true_eq]
    norm_cast
  · rw [lt_div_iff₀ positive, div_lt_iff₀ positive, Bool.and_eq_true, decide_eq_true_eq,
      decide_eq_true_eq]
    norm_cast

namespace Binary

variable {b : Binary} {tie : Tie} {k : ℤ}

/-- The step of a grid, as a whole number. -/
def gridStep (b : Binary) (k : ℤ) : ℕ := Nat.pow 10 k.toNat * Nat.pow 2 (-(b.exponent - 2)).toNat

/-- A quarter of the last place of a number, in the same measure as the step of a grid. -/
def gridUnit (b : Binary) (k : ℤ) : ℕ := Nat.pow 2 (b.exponent - 2).toNat * Nat.pow 10 (-k).toNat

theorem gridUnit_pos : 0 < b.gridUnit k :=
  Nat.mul_pos (Nat.two_pow_pos _) (Nat.pow_pos (by decide))

theorem gridStep_pos : 0 < b.gridStep k :=
  Nat.mul_pos (Nat.pow_pos (by decide)) (Nat.two_pow_pos _)

theorem gridStep_div_gridUnit (b : Binary) (k : ℤ) :
    (b.gridStep k : ℚ) / b.gridUnit k = 10 ^ k / 2 ^ (b.exponent - 2) := by
  rw [← pow_toNat_div two_ne_zero, ← pow_toNat_div (by norm_num : (10 : ℚ) ≠ 0), gridStep, gridUnit]
  simp only [Nat.pow_eq]
  push_cast
  field_simp

/-- Whether a point of a grid is rounded to the number. -/
theorem attracts_iff (n : ℕ) : b.Attracts (n * 10 ^ k) ↔
    b.interval.contains (b.gridUnit k) (n * b.gridStep k) = true := by
  rw [Interval.contains_iff gridUnit_pos, Attracts, Nat.cast_mul, mul_div_assoc, mul_div_assoc,
    gridStep_div_gridUnit]

theorem attracts_of_onGrid? {s : Scientific} (h : b.onGrid? tie k = some s) :
    b.Attracts (s.digits * 10 ^ s.exponent) := by
  have hit (n : ℕ) := (attracts_iff (b := b) (k := k) n).mpr
  unfold onGrid? at h
  extract_lets quarter step unit interval value below above inside upper at h
  clear_value upper
  split at h
  · cases h
  · obtain rfl := Option.some.inj h
    exact hit _ ‹_›
  · obtain rfl := Option.some.inj h
    exact hit _ ‹_›
  · obtain rfl := Option.some.inj h
    cases upper
    · exact hit _ ‹_›
    · exact hit _ ‹_›

/-- A grid with a step of at most a quarter of the last place has a point in the interval, just
below the number. -/
theorem onGrid?_isSome (pos : 0 < b.mantissa) (fine : (10 : ℚ) ^ k ≤ 2 ^ (b.exponent - 2))
    (tie : Tie) : (b.onGrid? tie k).isSome = true := by
  have below : b.interval.contains (b.gridUnit k)
      (b.interval.centre * b.gridUnit k / b.gridStep k * b.gridStep k) = true := by
    rw [← div_le_one₀ (by positivity), ← gridStep_div_gridUnit] at fine
    rw [← attracts_iff, Attracts, mul_div_assoc, ← gridStep_div_gridUnit]
    obtain ⟨le, lt⟩ := grid_bounds (gridStep_pos (b := b) (k := k)) gridUnit_pos b.interval.centre
    generalize (b.gridStep k : ℚ) / b.gridUnit k = ratio at fine le lt ⊢
    have centre : (b.interval.centre : ℚ) = 4 * b.mantissa := by simp [interval]
    obtain ⟨-, low⟩ := low_bounds pos
    have high := cast_high (b := b)
    exact Interval.has_of_lt (by linarith) (by linarith)
  unfold onGrid?
  dsimp only
  split
  · rename_i none _
    exact absurd (none.symm.trans below) (by decide)
  all_goals rfl

/-- The finest grid that is tried is fine enough. -/
theorem finest_le (fits : b.IsReal64) (pos : 0 < b.mantissa) :
    (10 : ℚ) ^ (b.decimalTop - 19) ≤ 2 ^ (b.exponent - 2) := by
  have exponent_le := fits.exponent_le
  have le_exponent := fits.le_exponent
  have log2_le : b.mantissa.log2 < 53 := by
    rw [Nat.log2_lt pos.ne']
    exact fits.mantissa_lt
  rw [leastExponent_eq] at le_exponent
  unfold decimalTop
  refine ten_zpow_le_two_zpow ?_ ?_
  · omega
  · omega

/-- The shortest decimal of a number is rounded to the number. -/
theorem attracts_shortest (fits : b.IsReal64) (pos : 0 < b.mantissa) (tie : Tie) :
    b.Attracts ((b.shortest tie).digits * 10 ^ (b.shortest tie).exponent) := by
  have finest := onGrid?_isSome pos (finest_le fits pos) tie
  obtain ⟨s, found⟩ : ∃ s, (List.range 20).findSome?
      (fun (i : Nat) => b.onGrid? tie (b.decimalTop - i)) = some s := by
    rw [← Option.isSome_iff_exists, List.findSome?_isSome_iff]
    exact ⟨19, by decide, finest⟩
  obtain ⟨i, -, grid⟩ := List.exists_of_findSome?_eq_some found
  rw [shortest, found]
  exact attracts_of_onGrid? grid

end Binary

end StrategyCanvas.Decimal
