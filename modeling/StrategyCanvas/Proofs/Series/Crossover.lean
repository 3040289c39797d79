import Mathlib.Data.List.Induction
import StrategyCanvas.Proofs.Run
import StrategyCanvas.Series.Crossover

/-!
# When series cross

A watch on two series knows which way it looks and the difference it has seen last, and nothing else
(`stateAfter_ofName`): a difference that is no number leaves it as if it were new. So each answer
depends on two values of each series only, the latest and those before them (`answers_ofName`).
-/

namespace StrategyCanvas.Series

/-- The difference of two values, if it is a number. -/
def difference? (pair : Float × Float) : Option Float :=
  if (pair.1 - pair.2).isNaN then none else some (pair.1 - pair.2)

/-- Of two pairs of values, one after the other, the differences are numbers, and they change sides:
the earlier one is not yet on the side that the direction leads to, and the later one is. -/
def Direction.IsCrossed (d : Direction) (earlier later : Float × Float) : Prop :=
  (earlier.1 - earlier.2).isNaN = false ∧ (later.1 - later.2).isNaN = false
  ∧ match d with
    | .above => earlier.1 - earlier.2 ≤ 0 ∧ 0 < later.1 - later.2
    | .below => 0 ≤ earlier.1 - earlier.2 ∧ later.1 - later.2 < 0

namespace Crossover

/-- Looks at the next pair of values. -/
def see (c : Crossover) (pair : Float × Float) : Bool × Crossover := c.update pair.1 pair.2

/-- Whatever was seen before, only the new difference is kept. -/
theorem see_snd (c : Crossover) (pair : Float × Float) :
    (c.see pair).2 = ⟨c.direction, difference? pair⟩ := by
  simp only [see, update, difference?]
  split <;> rfl

theorem stateAfter_ofName (direction : String) (pairs : List (Float × Float)) :
    stateAfter see (ofName direction) pairs
      = ⟨.ofName direction, pairs.getLast?.bind difference?⟩ := by
  induction pairs using List.reverseRecOn with
  | nil => rfl
  | append_singleton pairs pair ih =>
    rw [stateAfter_append_singleton, see_snd, ih, List.getLast?_concat]
    rfl

theorem hasCrossed_iff (d : Direction) (earlier later : Float) :
    hasCrossed d earlier later = true ↔ match d with
      | .above => earlier ≤ 0 ∧ 0 < later
      | .below => 0 ≤ earlier ∧ later < 0 := by
  cases d <;> simp [hasCrossed]

/-- A watch whose last difference is that of a pair answers whether the series have crossed since
then. -/
theorem see_fst_iff (d : Direction) (earlier later : Float × Float) :
    (see ⟨d, difference? earlier⟩ later).1 = true ↔ d.IsCrossed earlier later := by
  simp only [see, update, difference?, Direction.IsCrossed]
  cases unknown : (later.1 - later.2).isNaN with
  | true => exact iff_of_false Bool.false_ne_true fun crossed => absurd crossed.2.1 (by decide)
  | false =>
    cases gap : (earlier.1 - earlier.2).isNaN with
    | true => exact iff_of_false Bool.false_ne_true fun crossed => absurd crossed.1 (by decide)
    | false => exact (hasCrossed_iff d _ _).trans ⟨fun h => ⟨rfl, rfl, h⟩, fun h => h.2.2⟩

/-- A watch that has seen no difference answers no. -/
theorem see_fst_new (d : Direction) (pair : Float × Float) : (see ⟨d, none⟩ pair).1 = false := by
  simp only [see, update]
  split <;> rfl

example : answers see (ofName "above") [(3, 2), (1, 2), (0 / 0, 2), (3, 2), (1, 2), (2, 2), (3, 2)]
    = [false, false, false, false, false, false, true] := by decide +kernel

end Crossover

end StrategyCanvas.Series
