import StrategyCanvas.Code.Compile
import StrategyCanvas.Proofs.Text.Identifier

/-!
# The name of the generated structure

The name is checked by its characters and against a list of words. The characters are those of an
ASCII identifier. The words are the keywords of the generated language, except for some that are no
names of structures either, so that every name is refused that the code cannot carry, and no other,
but for these (`check_structName`).
-/

namespace StrategyCanvas.Code

/-- The name of the structure is an ASCII identifier if the options pass, and no keyword but perhaps
an unguarded one. For no other reason is it refused. -/
theorem check_structName (o : Options) :
    (o.check = .ok () → Text.IsAsciiIdentifier o.structName
      ∧ (o.structName ∉ Text.keywords ∨ o.structName ∈ Text.unguardedKeywords))
    ∧ (o.check = .error (.invalidOption .structName o.structName)
      ↔ ¬ (Text.IsAsciiIdentifier o.structName
        ∧ (o.structName ∉ Text.keywords ∨ o.structName ∈ Text.unguardedKeywords))) := by
  rw [← Text.isIdentifier_iff]
  unfold Options.check
  cases Text.isIdentifier o.structName with
  | false => simp
  | true => cases Text.isModulePath o.supportPath <;> simp

/-- The word for the type at hand is a keyword, and yet it may name the structure. -/
theorem check_of_keyword :
    { Options.default with structName := "Self" }.check = .ok () ∧ "Self" ∈ Text.keywords := by
  refine ⟨?_, by decide⟩
  have name : Text.isIdentifier "Self" = true := by decide +kernel
  have path : Text.isModulePath Options.default.supportPath = true := by decide +kernel
  simp only [Options.check, name, path]
  rfl

end StrategyCanvas.Code
