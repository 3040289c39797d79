/-!
# The first match in a list

Changes the first element of a list that satisfies a condition and leaves the others as they are.
-/

namespace StrategyCanvas

/-- Changes the first element with the property `p`. -/
def mapFirst {α : Type} (p : α → Bool) (change : α → α) : List α → List α
  | [] => []
  | a :: as => if p a then change a :: as else a :: mapFirst p change as

/-- A view that the change keeps is the same afterwards. -/
theorem map_mapFirst {α β : Type} (p : α → Bool) (change : α → α) (view : α → β)
    (h : ∀ a, view (change a) = view a) (as : List α) :
    (mapFirst p change as).map view = as.map view := by
  induction as with
  | nil => rfl
  | cons a as ih => by_cases hp : p a <;> simp [mapFirst, hp, h, ih]

end StrategyCanvas
