/-!
# Fresh names

Names that must differ are claimed one after the other. A name that is taken already gets the least
number from two on that makes it new. As many numbers as there are names taken, and one more, are
always enough.
-/

namespace StrategyCanvas.Code

/-- A name with a number. -/
def numbered (base : String) (n : Nat) : String := base ++ "_" ++ toString n

/-- The numbered names to try for `base`, from two on. -/
def candidates (base : String) (count : Nat) : List String :=
  (List.range count).map fun i => numbered base (i + 2)

/-- The name to use for `base` when some names are taken. -/
def freshName (taken : List String) (base : String) : String :=
  if base ∈ taken then ((candidates base (taken.length + 1)).find? (· ∉ taken)).getD base
  else base

/-- The names to use for a list of names, claimed in order. -/
def freshNames (taken : List String) : List String → List String
  | [] => []
  | base :: rest =>
    let name := freshName taken base
    name :: freshNames (name :: taken) rest

@[simp] theorem length_freshNames (taken bases : List String) :
    (freshNames taken bases).length = bases.length := by
  induction bases generalizing taken with
  | nil => rfl
  | cons base rest ih => simp [freshNames, ih]

example : freshNames [] ["a", "a", "a_2", "a"] = ["a", "a_2", "a_2_2", "a_3"] := by cbv

end StrategyCanvas.Code
