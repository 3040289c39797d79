/-!
# Steps that may fail

Steps that may fail are taken one after the other. All of them succeed, or one of them is the first
that does not.
-/

namespace StrategyCanvas

variable {ε α β : Type} {x : Except ε α} {f : α → Except ε β}

theorem bind_eq_ok_iff {b : β} : (x >>= f) = .ok b ↔ ∃ a, x = .ok a ∧ f a = .ok b := by
  cases x with
  | error e => simp [bind, Except.bind]
  | ok a => simp [bind, Except.bind]

theorem bind_eq_error_iff {e : ε} :
    (x >>= f) = .error e ↔ x = .error e ∨ ∃ a, x = .ok a ∧ f a = .error e := by
  cases x with
  | error e => simp [bind, Except.bind]
  | ok a => simp [bind, Except.bind]

/-- Steps that agree in what shows of their results go on to agree in what shows later. -/
theorem map_bind_congr {γ δ : Type} {x' : Except ε α} {f' : α → Except ε β} {view : α → γ}
    {later : β → δ} (here : x'.map view = x.map view)
    (next : ∀ a a', view a' = view a → (f' a').map later = (f a).map later) :
    (x' >>= f').map later = (x >>= f).map later := by
  cases x with
  | error e =>
    cases x' with
    | error e' => exact congrArg Except.error (Except.error.inj here)
    | ok a' => contradiction
  | ok a =>
    cases x' with
    | error e' => contradiction
    | ok a' => exact next a a' (Except.ok.inj here)

theorem exists_of_isSome_toOption (h : x.toOption.isSome = true) : ∃ a, x = .ok a := by
  cases x with
  | error e => contradiction
  | ok a => exact ⟨a, rfl⟩

end StrategyCanvas
