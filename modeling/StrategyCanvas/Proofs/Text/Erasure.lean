import StrategyCanvas.Proofs.Text.FieldPath

/-!
# Code without comments and contents of literals

What is left of code when its comments and the contents of its literals are erased. Closed texts are
erased one by one (`erased_join`), and of a quoted text only the quotes are left. Neither a comment
nor a literal of a closed line runs on over its end, so that closed lines are erased line by line
(`linesOf_erased_lines`).
-/

namespace StrategyCanvas.Text

/-- A text of code without its comments and the contents of its literals. -/
def erased (s : String) : String := String.ofList (visible .code s.toList)

variable {fields : List String} {s : String}

theorem toList_erased (s : String) : (erased s).toList = visible .code s.toList :=
  String.toList_ofList

theorem erased_quote (s : String) : erased (quote s) = "\"\"" := by
  have quotes := visible_quote s []
  rw [List.append_nil] at quotes
  rw [erased, quotes]
  rfl

theorem IsClosed.erased_append (h : IsClosed fields s) (t : String) :
    erased (s ++ t) = erased s ++ erased t := by
  rw [erased, String.toList_append, h.settled, String.ofList_append]
  rfl

theorem erased_join {parts : List String} (h : ∀ s ∈ parts, IsClosed fields s) :
    erased (String.join parts) = String.join (parts.map erased) := by
  induction parts with
  | nil => rfl
  | cons s rest ih =>
    rw [List.forall_mem_cons] at h
    rw [String.join_cons, h.1.erased_append, ih h.2, List.map_cons, String.join_cons]

theorem erased_comment (line : IsOneLine s) (front : ['/', '/'] <+: s.toList) : erased s = "" := by
  have nothing (cs : List Char) (h : '\n' ∉ cs) : visible .comment cs = [] := by
    induction cs with
    | nil => rfl
    | cons c cs ih =>
      rw [List.mem_cons, not_or] at h
      rw [visible, ih h.2]
      exact Ne.symm h.1
  obtain ⟨cs, chars⟩ := front
  rw [IsOneLine, ← chars, List.mem_append, not_or] at line
  rw [erased, ← chars, List.cons_append, List.cons_append, List.nil_append, visible,
    nothing cs line.2]

/-! ## Lines -/

theorem mem_of_mem_visible {region : Region} {cs : List Char} {c : Char}
    (h : c ∈ visible region cs) : c ∈ cs := by
  fun_induction visible region cs <;> grind

/-- A line feed behind a text on one line is seen, unless the text ends inside a literal. -/
theorem visible_lineFeed {region : Region} {cs : List Char} (h : '\n' ∉ cs) :
    visible region (cs ++ ['\n']) = visible region cs ++ ['\n']
      ∨ visible region (cs ++ ['\n']) = visible region cs := by
  fun_induction visible region cs with
  | case1 region =>
    cases region with
    | code | comment => exact .inl rfl
    | literal => exact .inr rfl
  | case2 cs ih | case6 cs ih =>
    rw [List.cons_append, visible, List.cons_append, List.cons.injEq, List.cons.injEq]
    exact (ih (List.not_mem_of_not_mem_cons h)).imp (⟨rfl, ·⟩) (⟨rfl, ·⟩)
  | case3 cs ih =>
    rw [List.cons_append, List.cons_append, visible]
    exact ih (List.not_mem_of_not_mem_cons (List.not_mem_of_not_mem_cons h))
  | case4 c cs quote slashes ih =>
    have apart (rest : List Char) (slash : c = '/') : cs ++ ['\n'] ≠ '/' :: rest := by
      cases cs with
      | nil => simp
      | cons d cs =>
        intro same
        exact slashes cs slash (by rw [(List.cons.inj same).1])
    rw [List.cons_append, visible, List.cons_append, List.cons.injEq, List.cons.injEq]
    · exact (ih (List.not_mem_of_not_mem_cons h)).imp (⟨rfl, ·⟩) (⟨rfl, ·⟩)
    · exact quote
    · exact apart
  | case5 c cs ih =>
    rw [List.cons_append, List.cons_append, visible]
    exact ih (List.not_mem_of_not_mem_cons (List.not_mem_of_not_mem_cons h))
  | case7 c cs escape quote ih =>
    cases cs with
    | nil =>
      -- behind a backslash the line feed belongs to the literal, and otherwise too
      by_cases backslash : c = '\\'
      · subst backslash
        exact .inr rfl
      · exact .inr (by simp [visible, backslash])
    | cons d cs =>
      rw [List.cons_append, visible]
      · exact ih (List.not_mem_of_not_mem_cons h)
      · exact fun _ _ same _ => escape d cs same rfl
      · exact quote
  | case8 cs ih => simp at h
  | case9 c cs other ih =>
    rw [List.cons_append, visible]
    · exact ih (List.not_mem_of_not_mem_cons h)
    · exact other

/-- A closed line is read to its end whatever stands on the lines below. -/
theorem IsClosedLine.visible_append (h : IsClosedLine fields s) (line : IsOneLine s)
    (rest : List Char) : visible .code (s.toList ++ '\n' :: rest)
      = visible .code s.toList ++ '\n' :: visible .code rest := by
  obtain ⟨seen, read, -⟩ := h
  have same : visible .code s.toList = seen := by
    have ended : visible .code (s.toList ++ ['\n']) = seen ++ ['\n'] := read []
    rcases visible_lineFeed line with here | nowhere
    · rw [here] at ended
      exact List.append_cancel_right ended
    · rw [nowhere] at ended
      have mem : '\n' ∈ visible .code s.toList := by
        rw [ended]
        exact List.mem_append_right _ List.mem_cons_self
      exact absurd (mem_of_mem_visible mem) line
  rw [read, same]

/-- Lines that are read to their ends are erased one by one. -/
theorem linesOf_erased_lines {lines : List (List Char)} (clean : ∀ l ∈ lines, '\n' ∉ l)
    (ends : ∀ l ∈ lines, ∀ rest,
      visible .code (l ++ '\n' :: rest) = visible .code l ++ '\n' :: visible .code rest) :
    linesOf (erased (String.ofList (lines.flatMap (· ++ ['\n']))))
      = lines.map (visible .code) ++ [[]] := by
  have text : visible .code (lines.flatMap (· ++ ['\n']))
      = (lines.map (visible .code)).flatMap (· ++ ['\n']) := by
    clear clean
    induction lines with
    | nil => rfl
    | cons l rest ih =>
      rw [List.forall_mem_cons] at ends
      rw [List.flatMap_cons, List.append_assoc, List.singleton_append, ends.1, ih ends.2,
        List.map_cons, List.flatMap_cons, List.append_assoc, List.singleton_append]
  have clean' : ∀ l ∈ lines.map (visible .code), '\n' ∉ l := by
    rw [List.forall_mem_map]
    exact fun l known mem => clean l known (mem_of_mem_visible mem)
  rw [linesOf, toList_erased, String.toList_ofList, text, splitOn_lines clean']

end StrategyCanvas.Text
