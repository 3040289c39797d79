import Mathlib.Data.List.DropRight
import Mathlib.Data.List.Induction
import StrategyCanvas.Series.Indicator.Bands
import StrategyCanvas.Series.Indicator.Convergence
import StrategyCanvas.Series.Indicator.RelativeStrength

/-!
# When indicators are ready

An indicator is where the finite values since its last reset have brought it, whatever else it was
called with (`Indicator.run_eq`). So it is ready, and shows a value, as soon as there are as many of
them as its warm-up asks for (`Indicator.publishesAfter`). The one thing that this needs of a method
of calculating is that a calculation starts anew when it is cleared (`Calculation.Clears`).
-/

namespace StrategyCanvas.Series

/-! ## Calls -/

/-- A call that an indicator is changed by. -/
inductive Call
  | update (x : Float)
  | reset
  deriving DecidableEq, Repr

/-- The value of a call, if there is one and it is finite. -/
def Call.value? : Call → Option Float
  | .update x => if x.isFinite then some x else none
  | .reset => none

/-- Whether a call is a reset or has a finite value. -/
def Call.counts (c : Call) : Bool := c = .reset || c.value?.isSome

/-- The finite values of the calls after the last reset. -/
def valuesSinceReset (calls : List Call) : List Float :=
  (calls.rtakeWhile (· ≠ .reset)).filterMap Call.value?

section

variable (calls : List Call)

@[simp] theorem valuesSinceReset_nil : valuesSinceReset [] = [] := rfl

@[simp] theorem valuesSinceReset_reset : valuesSinceReset (calls ++ [.reset]) = [] := by
  rw [valuesSinceReset, List.rtakeWhile_concat_neg _ _ _ (by simp)]
  rfl

@[simp] theorem valuesSinceReset_update (x : Float) :
    valuesSinceReset (calls ++ [.update x])
      = valuesSinceReset calls ++ if x.isFinite then [x] else [] := by
  rw [valuesSinceReset, List.rtakeWhile_concat_pos _ _ _ (by simp), List.filterMap_append]
  by_cases finite : x.isFinite <;> simp [valuesSinceReset, Call.value?, finite]

/-- Only finite values are counted. -/
theorem isFinite_of_mem_valuesSinceReset : ∀ x ∈ valuesSinceReset calls, x.isFinite = true := by
  intro x mem
  obtain ⟨call, -, value⟩ := List.mem_filterMap.mp mem
  cases call with
  | update y =>
    by_cases finite : y.isFinite
    · rw [Call.value?, if_pos finite] at value
      rwa [← Option.some.inj value]
    · rw [Call.value?, if_neg finite] at value
      contradiction
  | reset => contradiction

/-- Calls that count for nothing leave the values as they are. -/
theorem valuesSinceReset_filter :
    valuesSinceReset (calls.filter Call.counts) = valuesSinceReset calls := by
  induction calls using List.reverseRecOn with
  | nil => rfl
  | append_singleton calls call ih =>
    rw [List.filter_append]
    cases call with
    | update x =>
      rw [valuesSinceReset_update]
      by_cases finite : x.isFinite
      · have counts : [Call.update x].filter Call.counts = [.update x] := by
          simp [Call.counts, Call.value?, finite]
        rw [counts, valuesSinceReset_update, ih]
      · have idle : [Call.update x].filter Call.counts = [] := by
          simp [Call.counts, Call.value?, finite]
        rw [idle, List.append_nil, if_neg finite, List.append_nil, ih]
    | reset =>
      have counts : [Call.reset].filter Call.counts = [.reset] := rfl
      rw [counts, valuesSinceReset_reset, valuesSinceReset_reset]

/-- What came before a reset counts no more. -/
theorem valuesSinceReset_append_reset (after : List Call) :
    valuesSinceReset (calls ++ .reset :: after) = valuesSinceReset after := by
  induction after using List.reverseRecOn with
  | nil => rw [valuesSinceReset_reset, valuesSinceReset_nil]
  | append_singleton after call ih =>
    rw [← List.cons_append, ← List.append_assoc]
    cases call with
    | update x => rw [valuesSinceReset_update, valuesSinceReset_update, ih]
    | reset => rw [valuesSinceReset_reset, valuesSinceReset_reset]

end

/-! ## Calculations that start anew -/

namespace Calculation

variable {σ ο : Type}

/-- Where values bring a calculation. -/
def feed (c : Calculation σ ο) (xs : List Float) : σ := xs.foldl (fun s x => (c.step s x).1) c.start

/-- Whatever values have come, nothing is left of them when the calculation is cleared. -/
def Clears (c : Calculation σ ο) : Prop := ∀ xs, c.clear (c.feed xs) = c.start

/-- One more value takes the calculation one step further. -/
theorem feed_append_singleton (c : Calculation σ ο) (xs : List Float) (x : Float) :
    c.feed (xs ++ [x]) = (c.step (c.feed xs) x).1 := by
  rw [feed, List.foldl_append]
  rfl

/-- It is enough that one value makes no difference to what is left. -/
theorem clears_of_step {c : Calculation σ ο} (start : c.clear c.start = c.start)
    (step : ∀ s x, c.clear (c.step s x).1 = c.clear s) : c.Clears := by
  intro xs
  induction xs using List.reverseRecOn with
  | nil => exact start
  | append_singleton xs x ih => rw [feed_append_singleton, step, ih]

end Calculation

/-- What is relied on of a method: settings that are positive are not refused, and the calculation
for them starts anew when it is cleared. -/
structure Method.IsReliable {π σ ο : Type} (m : Method π σ ο) (Positive : π → Prop) : Prop where
  makes : ∀ settings, Positive settings → (m.make? settings).isSome = true
  clears : ∀ settings, ∀ c ∈ m.make? settings, c.Clears

/-- A reliable method makes a calculation that can be cleared. -/
theorem Method.IsReliable.clears_make {π σ ο : Type} {m : Method π σ ο} {Positive : π → Prop}
    (h : m.IsReliable Positive) {settings : π} (positive : Positive settings) :
    (m.make settings).Clears := by
  obtain ⟨c, made⟩ := Option.isSome_iff_exists.mp (h.makes settings positive)
  rw [make, made]
  exact h.clears settings c made

/-! ## Runs -/

namespace Indicator

variable {σ ο : Type}

/-- What a call does. -/
def call (i : Indicator σ ο) (p : Progress σ ο) : Call → Progress σ ο
  | .update x => i.update p x
  | .reset => i.reset p

/-- Where calls bring a new indicator. -/
def run (i : Indicator σ ο) (calls : List Call) : Progress σ ο := calls.foldl i.call i.fresh

/-- An indicator is ready, and shows a value, exactly after the given number of finite values since
the last reset. Values that are not finite change nothing, and after a reset nothing is left of what
came before. -/
structure PublishesAfter (i : Indicator σ ο) (needed : Nat) : Prop where
  isReady_iff : ∀ calls, i.isReady (i.run calls) = true
    ↔ needed ≤ (valuesSinceReset calls).length
  isSome_value? : ∀ calls, (i.value? (i.run calls)).isSome = i.isReady (i.run calls)
  run_filter : ∀ calls, i.run (calls.filter Call.counts) = i.run calls
  run_append_reset : ∀ before after, i.run (before ++ .reset :: after) = i.run after

variable {i : Indicator σ ο}

/-- One more call is made last. -/
theorem run_append_singleton (i : Indicator σ ο) (calls : List Call) (call : Call) :
    i.run (calls ++ [call]) = i.call (i.run calls) call := by
  rw [run, List.foldl_append]
  rfl

/-- What finite values make of an indicator: the calculation has taken all of them, and its last
output is shown if there are enough. -/
structure HasTaken (i : Indicator σ ο) (p : Progress σ ο) (xs : List Float) : Prop where
  state : p.state = i.calculation.feed xs
  seen : p.seen = xs.length
  shown : p.shown.isSome = decide (i.warmup ≤ xs.length)

/-- A new indicator has taken nothing. -/
theorem hasTaken_fresh (h : 0 < i.warmup) : i.HasTaken i.fresh [] where
  state := rfl
  seen := rfl
  shown := (decide_eq_false (Nat.not_le.mpr h)).symm

/-- A finite value is taken. -/
theorem HasTaken.update {p : Progress σ ο} {xs : List Float} (h : i.HasTaken p xs) {x : Float}
    (finite : x.isFinite = true) : i.HasTaken (i.update p x) (xs ++ [x]) := by
  unfold Indicator.update
  rw [if_pos finite]
  refine ⟨?_, ?_, ?_⟩
  · rw [Calculation.feed_append_singleton, ← h.state]
  · rw [List.length_append, List.length_singleton, ← h.seen]
  · rw [List.length_append, List.length_singleton, ← h.seen]
    dsimp only
    split
    · rename_i enough
      simp [enough]
    · rename_i few
      -- nothing was shown before either
      rw [h.shown, ← h.seen, decide_eq_false (by omega), decide_eq_false few]

/-- Finite values are taken one after the other. -/
theorem hasTaken_foldl (h : 0 < i.warmup) {xs : List Float} (finite : ∀ x ∈ xs, x.isFinite = true) :
    i.HasTaken (xs.foldl i.update i.fresh) xs := by
  induction xs using List.reverseRecOn with
  | nil => exact hasTaken_fresh h
  | append_singleton xs x ih =>
    rw [List.foldl_append]
    refine (ih fun y mem => finite y (List.mem_append_left _ mem)).update ?_
    exact finite x (List.mem_append_right _ (List.mem_singleton_self x))

/-- An indicator is where the finite values since the last reset bring a new one. -/
theorem run_eq (clears : i.calculation.Clears) (h : 0 < i.warmup) (calls : List Call) :
    i.run calls = (valuesSinceReset calls).foldl i.update i.fresh := by
  induction calls using List.reverseRecOn with
  | nil => rfl
  | append_singleton calls call ih =>
    rw [run_append_singleton, ih]
    cases call with
    | update x =>
      rw [valuesSinceReset_update, List.foldl_append]
      by_cases finite : x.isFinite
      · rw [if_pos finite]
        rfl
      · rw [if_neg finite]
        exact if_neg finite
    | reset =>
      have taken := hasTaken_foldl h (isFinite_of_mem_valuesSinceReset calls)
      rw [valuesSinceReset_reset]
      show (⟨i.calculation.clear _, 0, none⟩ : Progress σ ο) = i.fresh
      rw [taken.state, clears]
      rfl

/-- An indicator is ready when the finite values since the last reset are as many as its warm-up. -/
theorem publishesAfter (clears : i.calculation.Clears) (h : 0 < i.warmup) :
    i.PublishesAfter i.warmup := by
  have taken (calls : List Call) : i.HasTaken (i.run calls) (valuesSinceReset calls) := by
    rw [run_eq clears h]
    exact hasTaken_foldl h (isFinite_of_mem_valuesSinceReset calls)
  refine ⟨fun calls => ?_, fun calls => ?_, fun calls => ?_, fun before after => ?_⟩
  · rw [isReady, (taken calls).seen, decide_eq_true_eq]
  · rw [value?, Option.isSome_map, (taken calls).shown, isReady, (taken calls).seen]
  · rw [run_eq clears h, run_eq clears h, valuesSinceReset_filter]
  · rw [run_eq clears h, run_eq clears h, valuesSinceReset_append_reset]

/-- A calculation that can be cleared makes an indicator that is ready after its warm-up. -/
theorem publishesAfter_wrap {name : String} {c : Calculation σ ο} {headline : ο → Float}
    {period warmup : Nat} (clears : c.Clears) (h : 0 < warmup) :
    (wrap name c headline period warmup).PublishesAfter warmup := by
  have same : (wrap name c headline period warmup).warmup = warmup := Nat.max_eq_left h
  have published := publishesAfter (i := wrap name c headline period warmup) clears (by omega)
  rwa [same] at published

/-- A reliable method gives an indicator that is ready after its period, which is one at least, and
what it needs besides. -/
theorem publishesAfter_ofPeriod {m : Method Nat σ Float} (h : m.IsReliable (0 < ·)) (name : String)
    (more period : Nat) : (ofPeriod name more m period).PublishesAfter (max period 1 + more) :=
  publishesAfter_wrap (h.clears_make (by omega)) (by omega)

end Indicator

/-! ## The methods -/

/-- A method is reliable if it refuses no positive settings and its calculations can be cleared. -/
theorem Method.isReliable_refusing {π σ ο : Type} {refused : π → Bool}
    {calculation : π → Calculation σ ο} {usual : π} {Positive : π → Prop}
    (accepted : ∀ settings, Positive settings → refused settings = false)
    (clears : ∀ settings, (calculation settings).Clears) :
    (refusing refused calculation usual).IsReliable Positive where
  makes settings positive := by simp [refusing, accepted settings positive]
  clears settings c made := by
    simp only [refusing, Option.mem_def, Option.ite_none_left_eq_some] at made
    rw [← Option.some.inj made.2]
    exact clears settings

/-- Running sums take every positive period, and are cleared with their windows. -/
theorem RunningSum.isReliable_method : method.IsReliable (0 < ·) :=
  Method.isReliable_refusing (fun _ positive => decide_eq_false (Nat.ne_of_gt positive))
    fun _ => Calculation.clears_of_step rfl fun _ _ => rfl

theorem isReliable_exponentialMethod : exponentialMethod.IsReliable (0 < ·) :=
  Method.isReliable_refusing (fun _ positive => decide_eq_false (Nat.ne_of_gt positive))
    fun _ _ => rfl

/-- Strengths take every positive period, and once cleared they keep no gains and losses. -/
theorem Strength.isReliable_method : method.IsReliable (0 < ·) :=
  Method.isReliable_refusing (fun _ positive => decide_eq_false (Nat.ne_of_gt positive))
    fun _ _ => rfl

/-- All three periods are positive. -/
def ConvergencePeriods.ArePositive (p : ConvergencePeriods) : Prop :=
  0 < p.fast ∧ 0 < p.slow ∧ 0 < p.signal

/-- Periods that are raised to one at least are positive. -/
theorem ConvergencePeriods.arePositive_atLeastOne (p : ConvergencePeriods) :
    p.atLeastOne.ArePositive := by
  refine ⟨?_, ?_, ?_⟩ <;> exact Nat.lt_of_lt_of_le Nat.one_pos (Nat.le_max_right _ 1)

/-- Convergences take positive periods, and all three averages are cleared. -/
theorem Convergence.isReliable_method : method.IsReliable ConvergencePeriods.ArePositive := by
  refine Method.isReliable_refusing (fun p positive => ?_) fun _ _ => rfl
  obtain ⟨fast, slow, signal⟩ := positive
  simp [Nat.ne_of_gt fast, Nat.ne_of_gt slow, Nat.ne_of_gt signal]

/-- A value goes to the window. -/
theorem Deviation.window_take (s : Deviation) (x : Float) :
    (s.take x).window = s.window.push x := by
  unfold take
  cases s.window.leaving? with
  | none =>
    dsimp only
    split <;> rfl
  | some old =>
    dsimp only
    split <;> rfl

/-- Deviations take every positive period, and are cleared with their windows, whose capacity
values do not change. -/
theorem Deviation.isReliable_method : method.IsReliable (0 < ·.period) := by
  refine Method.isReliable_refusing
    (fun _ positive => decide_eq_false (Nat.ne_of_gt positive)) fun settings => ?_
  refine Calculation.clears_of_step rfl fun s x => ?_
  show (⟨(s.take x).window.clear, 0, 0⟩ : Deviation) = ⟨s.window.clear, 0, 0⟩
  rw [window_take, Window.clear_push]

/-! ## The indicators -/

section

variable {σ₁ σ₂ σ₃ σ₄ σ₅ : Type} {average : Method Nat σ₁ Float} {exponential : Method Nat σ₂ Float}
  {strength : Method Nat σ₃ Float} {lines : Method ConvergencePeriods σ₄ ConvergenceLines}
  {deviation : Method BandSettings σ₅ BandLines}

/-- Each indicator, made with any reliable method and for any periods, shows its outputs after its
warm-up: as many finite values as its period, one more than that for the relative strength, and one
more than the slow and the signal period together for the convergence. Periods of zero count as
one. -/
theorem publishesAfter_warmup (h₁ : average.IsReliable (0 < ·))
    (h₂ : exponential.IsReliable (0 < ·)) (h₃ : strength.IsReliable (0 < ·))
    (h₄ : lines.IsReliable ConvergencePeriods.ArePositive)
    (h₅ : deviation.IsReliable (0 < ·.period)) (period fast slow signal : Nat) (width : Float) :
    (simpleMovingAverageBy average period).PublishesAfter (max period 1)
    ∧ (exponentialMovingAverageBy exponential period).PublishesAfter (max period 1)
    ∧ (relativeStrengthBy strength period).PublishesAfter (max period 1 + 1)
    ∧ (convergenceBy lines fast slow signal).PublishesAfter (max slow 1 + max signal 1 + 1)
    ∧ (bandsBy deviation period width).PublishesAfter (max period 1) := by
  have atLeast : 0 < max period 1 := by omega
  refine ⟨?_, ?_, ?_, ?_, ?_⟩
  · exact Indicator.publishesAfter_ofPeriod h₁ "SMA" 0 period
  · exact Indicator.publishesAfter_ofPeriod h₂ "EMA" 0 period
  · exact Indicator.publishesAfter_ofPeriod h₃ "RSI" 1 period
  · have positive := ConvergencePeriods.arePositive_atLeastOne ⟨fast, slow, signal⟩
    exact Indicator.publishesAfter_wrap (h₄.clears_make positive) (by omega)
  · exact Indicator.publishesAfter_wrap (h₅.clears_make atLeast) atLeast

end

/-- The indicators as they run, with a period of zero and with the usual ones. -/
theorem publishesAfter_warmup_usual :
    (RunningSum.method.IsReliable (0 < ·) ∧ exponentialMethod.IsReliable (0 < ·)
      ∧ Strength.method.IsReliable (0 < ·)
      ∧ Convergence.method.IsReliable ConvergencePeriods.ArePositive
      ∧ Deviation.method.IsReliable (0 < ·.period))
    ∧ (simpleMovingAverage 0).PublishesAfter 1
    ∧ (exponentialMovingAverage 0).PublishesAfter 1
    ∧ (relativeStrength 0).PublishesAfter 2
    ∧ (convergence 12 26 9).PublishesAfter 36
    ∧ (bands 0 2).PublishesAfter 1 := by
  refine ⟨⟨RunningSum.isReliable_method, isReliable_exponentialMethod, Strength.isReliable_method,
    Convergence.isReliable_method, Deviation.isReliable_method⟩, ?_⟩
  exact publishesAfter_warmup RunningSum.isReliable_method isReliable_exponentialMethod
    Strength.isReliable_method Convergence.isReliable_method Deviation.isReliable_method 0 12 26 9 2

/-- The mean of two values, with a reset and two calls that count for nothing. -/
example :
    let i := simpleMovingAverage 2
    let calls := [.update 1, .update 2, .reset, .update 3, .update (0 / 0), .update (1 / 0)]
    i.value? (i.run calls) = none ∧ i.value? (i.run (calls ++ [.update 5])) = some 4 := by
  decide +kernel

end StrategyCanvas.Series
