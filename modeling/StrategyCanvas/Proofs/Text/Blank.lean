import StrategyCanvas.Text.Blank

/-!
# Trimming

Nothing is trimmed from a text that starts and ends with other characters than blanks.
-/

namespace StrategyCanvas.Text

theorem isBlank_of_isDigit {c : Char} (h : c.isDigit = true) : isBlank c = false := by
  have digit : 48 ≤ c.toNat ∧ c.toNat ≤ 57 := by
    simpa [Char.isDigit, UInt32.le_iff_toNat_le] using h
  simp [isBlank]
  omega

theorem trimLeft_cons {c : Char} (h : isBlank c = false) (cs : List Char) :
    trimLeft (c :: cs) = c :: cs := by
  rw [trimLeft, List.dropWhile_cons, h]
  simp

theorem trimLeft_of_forall {cs : List Char} (h : ∀ c ∈ cs, isBlank c = false) :
    trimLeft cs = cs := by
  cases cs with
  | nil => rfl
  | cons c cs => exact trimLeft_cons (h c List.mem_cons_self) cs

/-- Text without blanks stays as it is. -/
theorem trim_of_forall {s : String} (h : ∀ c ∈ s.toList, isBlank c = false) : trim s = s := by
  have back : ∀ c ∈ s.toList.reverse, isBlank c = false :=
    fun c mem => h c (List.mem_reverse.mp mem)
  rw [trim, trimLeft_of_forall h, trimLeft_of_forall back, List.reverse_reverse,
    String.ofList_toList]

end StrategyCanvas.Text
