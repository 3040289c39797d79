import Mathlib.Data.List.DropRight
import Mathlib.Data.List.Induction
import StrategyCanvas.Series.Window

/-!
# What windows hold

A window holds the latest values that were pushed, as many as it has room for, in the order in which
they came (`values_foldl_push`). A push keeps this (`Holds.push`): while there is room nothing
leaves, and of a full window the oldest value does.
-/

namespace StrategyCanvas.Series.Window

variable {w : Window} {xs : List Float}

/-- The window holds the latest of some values, up to its capacity. -/
def Holds (w : Window) (xs : List Float) : Prop := w.values = xs.rtake w.capacity

theorem holds_ofCapacity (n : Nat) : (ofCapacity n).Holds [] := (List.rtake_nil _).symm

theorem Holds.size_eq (h : w.Holds xs) : w.size = min w.capacity xs.length := by
  rw [size, h, List.rtake, List.length_drop]
  omega

theorem Holds.push (room : 0 < w.capacity) (h : w.Holds xs) (x : Float) :
    (w.push x).Holds (xs ++ [x]) := by
  have count : w.values.length = min w.capacity xs.length := h.size_eq
  obtain ⟨m, capacity⟩ := Nat.exists_eq_add_one.mpr room
  -- what is left of the values before the push are the latest `m`
  have kept : (if w.isFull then w.values.tail else w.values) = xs.rtake m := by
    by_cases full : w.isFull
    · have reached : w.values.length = w.capacity := of_decide_eq_true full
      rw [if_pos full, h, List.rtake, List.rtake, List.tail_drop]
      congr 1
      omega
    · have short : w.values.length ≠ w.capacity := fun reached => full (decide_eq_true reached)
      rw [if_neg full, h, List.rtake, List.rtake]
      congr 1
      omega
  show (if w.isFull then w.values.tail else w.values) ++ [x] = (xs ++ [x]).rtake w.capacity
  rw [kept, capacity, List.rtake_concat_succ]

/-- The capacity never changes, and the window holds what was pushed. -/
theorem holds_foldl_push (n : Nat) (xs : List Float) :
    (xs.foldl push (ofCapacity n)).capacity = max n 1
    ∧ (xs.foldl push (ofCapacity n)).Holds xs := by
  induction xs using List.reverseRecOn with
  | nil => exact ⟨rfl, holds_ofCapacity n⟩
  | append_singleton xs x ih =>
    obtain ⟨capacity, holds⟩ := ih
    rw [List.foldl_append, List.foldl_cons, List.foldl_nil]
    have room : 0 < (xs.foldl push (ofCapacity n)).capacity := by
      rw [capacity]
      exact Nat.lt_of_lt_of_le Nat.one_pos (Nat.le_max_right n 1)
    exact ⟨capacity, holds.push room x⟩

/-- Whatever is pushed to a new window, its values are the latest of them in their order, as many as
its capacity or all of them if they are fewer, and never more. A capacity of zero counts as one. -/
theorem values_foldl_push (n : Nat) (xs : List Float) :
    (xs.foldl push (ofCapacity n)).values = xs.rtake (max n 1)
    ∧ (xs.foldl push (ofCapacity n)).size = min (max n 1) xs.length
    ∧ (xs.foldl push (ofCapacity n)).size ≤ max n 1 := by
  obtain ⟨capacity, holds⟩ := holds_foldl_push n xs
  have size := holds.size_eq
  rw [capacity] at size
  refine ⟨?_, size, ?_⟩
  · rw [← capacity]
    exact holds
  · rw [size]
    exact Nat.min_le_left _ _

example : ([1, 2, 3, 4].foldl push (ofCapacity 3)).values = [2, 3, 4] := rfl

end StrategyCanvas.Series.Window
