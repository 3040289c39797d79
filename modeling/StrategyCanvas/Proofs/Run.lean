import Mathlib.Data.List.Basic

/-!
# Runs

A step takes an input in some state, answers it, and leads to the next state. Taken for one input
after the other, it gives an answer to each of them (`getElem?_answers`).
-/

namespace StrategyCanvas

variable {σ α β : Type} (step : σ → α → β × σ)

/-- The state after some inputs. -/
def stateAfter (s : σ) (xs : List α) : σ := xs.foldl (fun s x => (step s x).2) s

/-- The answers to some inputs, one for each. -/
def answers (s : σ) : List α → List β
  | [] => []
  | x :: xs => (step s x).1 :: answers (step s x).2 xs

@[simp] theorem stateAfter_append_singleton (s : σ) (xs : List α) (x : α) :
    stateAfter step s (xs ++ [x]) = (step (stateAfter step s xs) x).2 := by
  rw [stateAfter, List.foldl_append]
  rfl

@[simp] theorem length_answers (s : σ) (xs : List α) :
    (answers step s xs).length = xs.length := by
  induction xs generalizing s with
  | nil => rfl
  | cons x xs ih => rw [answers, List.length_cons, List.length_cons, ih]

/-- What comes later finds the state that the earlier inputs have led to. -/
theorem answers_append (s : σ) (xs ys : List α) :
    answers step s (xs ++ ys) = answers step s xs ++ answers step (stateAfter step s xs) ys := by
  induction xs generalizing s with
  | nil => rfl
  | cons x xs ih => rw [List.cons_append, answers, ih, answers, List.cons_append]; rfl

theorem getElem?_answers (s : σ) (xs : List α) (k : Nat) :
    (answers step s xs)[k]? = xs[k]?.map fun x => (step (stateAfter step s (xs.take k)) x).1 := by
  induction xs generalizing s k with
  | nil => rfl
  | cons x xs ih =>
    cases k with
    | zero => rfl
    | succ k =>
      rw [answers, List.getElem?_cons_succ, List.getElem?_cons_succ, ih]
      rfl

end StrategyCanvas
