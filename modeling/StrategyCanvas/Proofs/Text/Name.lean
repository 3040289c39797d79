import StrategyCanvas.Proofs.Text.FieldPath
import StrategyCanvas.Proofs.Text.Whole

/-!
# Names in texts

Where a name stands in texts that are put side by side, it stands in one of them, as long as no word
runs on over the joints (`occurs_append`, `exists_part`). Names of fields are told by the underscore
behind their first letter, so that the names in a text can be listed (`names`), and the first name
of a text stands at one place only (`eq_of_names_eq_nil`).
-/

namespace StrategyCanvas.Text

variable {a b cs front back word : List Char}

/-! ## Words that stand apart -/

/-- A word may begin behind the text. -/
def IsOver (cs : List Char) : Prop := cs = [] ∨ endsApart cs = true

/-- A word may end in front of the text. -/
def IsNew (cs : List Char) : Prop := cs = [] ∨ beginsApart cs = true

theorem IsOver.of_append (h : IsOver (a ++ b)) : IsOver b := by
  cases b using List.reverseRecOn with
  | nil => exact .inl rfl
  | append_singleton b c =>
    have ends : endsApart (a ++ (b ++ [c])) = true := h.resolve_left (by simp)
    rw [endsApart, ← List.append_assoc, List.getLast?_concat] at ends
    exact .inr (by rwa [endsApart, List.getLast?_concat])

theorem IsNew.of_append (h : IsNew (a ++ b)) : IsNew a := by
  cases a with
  | nil => exact .inl rfl
  | cons c a => exact .inr (h.resolve_left (by simp))

theorem beginsWhole_iff_isNew :
    BeginsWhole cs a ↔ ∃ rest, a = cs ++ rest ∧ IsNew rest := by
  refine exists_congr fun rest => and_congr_right fun _ => ?_
  cases rest with
  | nil => simp [IsNew]
  | cons c rest => simp [IsNew, beginsApart]

/-- A word in two texts is in one of them if no word runs on from the first to the second. -/
theorem occurs_append (letters : ∀ c ∈ word, isIdentifierChar c = true)
    (apart : endsApart a = true ∨ beginsApart b = true) (h : a ++ b = front ++ word ++ back) :
    (∃ rest, a = front ++ word ++ rest ∧ back = rest ++ b)
      ∨ ∃ rest, b = rest ++ word ++ back ∧ front = a ++ rest := by
  rw [List.append_assoc] at h
  rcases List.append_eq_append_iff.mp h with ⟨rest, before, here⟩ | ⟨here, first, others⟩
  · exact .inr ⟨rest, by rw [here, List.append_assoc], before⟩
  · rcases List.append_eq_append_iff.mp others with ⟨rest, whole, behind⟩ | ⟨there, split, last⟩
    · exact .inl ⟨rest, by rw [first, whole, List.append_assoc], behind⟩
    · -- the joint is within the word
      rw [split, List.forall_mem_append] at letters
      rcases apart with ends | begins
      · cases here using List.reverseRecOn with
        | nil =>
          rw [List.append_nil] at first
          exact .inr ⟨[], by simp [last, split], by simp [first]⟩
        | append_singleton here c =>
          rw [first, endsApart, ← List.append_assoc, List.getLast?_concat] at ends
          have letter := letters.1 c (by simp)
          simp [letter] at ends
      · cases there with
        | nil =>
          rw [List.append_nil] at split
          exact .inl ⟨[], by simp [first, split], by simpa using last.symm⟩
        | cons c there =>
          rw [last] at begins
          have letter := letters.2 c List.mem_cons_self
          simp [beginsApart, letter] at begins

/-- A word in a text that is put together from parts is in one of the parts. -/
theorem exists_part {parts : List (List Char)} (letters : ∀ c ∈ word, isIdentifierChar c = true)
    (some : word ≠ [])
    (apart : parts.IsChain fun a b => endsApart a = true ∨ beginsApart b = true)
    (h : parts.flatten = front ++ word ++ back) :
    ∃ before part after f b, parts = before ++ part :: after ∧ part = f ++ word ++ b
      ∧ front = before.flatten ++ f ∧ back = b ++ after.flatten := by
  induction parts generalizing front with
  | nil => exact absurd h.symm (by simp [some])
  | cons part rest ih =>
    cases rest with
    | nil =>
      rw [List.flatten_cons, List.flatten_nil, List.append_nil] at h
      exact ⟨[], part, [], front, back, rfl, h, by simp, by simp⟩
    | cons next rest =>
      rw [List.isChain_cons_cons] at apart
      have joint : endsApart part = true ∨ beginsApart (next :: rest).flatten = true :=
        apart.1.imp_right fun begins => beginsApart_append begins _
      rcases occurs_append letters joint h with ⟨behind, here, last⟩ | ⟨before, there, first⟩
      · exact ⟨[], part, next :: rest, front, behind, rfl, here, by simp, last⟩
      · obtain ⟨before', part', after, f, b, split, found, left, right⟩ := ih apart.2 there
        exact ⟨part :: before', part', after, f, b, by rw [split]; rfl, found,
          by rw [first, left, List.flatten_cons, List.append_assoc], right⟩

/-! ## Names -/

/-- Names of fields have an underscore behind their first letter. -/
def isName (word : List Char) : Bool := word[1]? = some '_'

/-- The words of a text that are names of fields. -/
def names (cs : List Char) : List (List Char) := (words cs).filter isName

theorem names_append (h : IsOver a ∨ IsNew b) : names (a ++ b) = names a ++ names b := by
  have joined : words (a ++ b) = words a ++ words b := by
    rcases h with (rfl | ends) | (rfl | begins)
    · rfl
    · exact words_append (.inl ends)
    · simp [words]
    · exact words_append (.inr begins)
  rw [names, joined, List.filter_append]
  rfl

theorem names_of_isName (letters : ∀ c ∈ word, isIdentifierChar c = true)
    (name : isName word = true) : names word = [word] := by
  have filled : word ≠ [] := fun none => by rw [none] at name; contradiction
  have isWord : IsWord (String.ofList word) := by
    intro c mem
    rw [String.toList_ofList] at mem
    exact letters c mem
  have single := words_of_isWord isWord fun none => filled (String.ofList_eq_empty_iff.mp none)
  rw [String.toList_ofList] at single
  rw [names, single, List.filter_singleton, name]
  rfl

/-- A name between two texts that it does not run on into is one of the names. -/
theorem names_around (letters : ∀ c ∈ word, isIdentifierChar c = true) (name : isName word = true)
    (ended : IsOver front) (new : IsNew back) :
    names (front ++ word ++ back) = names front ++ word :: names back := by
  rw [names_append (.inr new), names_append (.inl ended), names_of_isName letters name,
    List.append_assoc]
  rfl

section

variable {front' back' : List Char} (letters : ∀ c ∈ word, isIdentifierChar c = true)
  (name : isName word = true)

include letters name

/-- A name does not stand within a text that has no names. -/
theorem isPrefix_of_names_eq_nil (ended : IsOver front) (ended' : IsOver front')
    (none : names front = []) (new' : IsNew back')
    (h : front ++ word ++ back = front' ++ word ++ back') : front <+: front' := by
  rcases ended with rfl | ends
  · exact List.nil_prefix
  · rw [List.append_assoc] at h
    rcases occurs_append letters (.inl ends) h with ⟨rest, here, behind⟩ | ⟨rest, -, before⟩
    · rw [behind] at new'
      rw [here, names_around letters name ended' new'.of_append] at none
      simp at none
    · exact ⟨rest, before.symm⟩

/-- There is one place only at which the first name of a text stands. -/
theorem eq_of_names_eq_nil (ended : IsOver front) (ended' : IsOver front') (none : names front = [])
    (none' : names front' = []) (new : IsNew back) (new' : IsNew back')
    (h : front ++ word ++ back = front' ++ word ++ back') : front = front' :=
  (isPrefix_of_names_eq_nil letters name ended ended' none new' h).eq_of_length_le
    (isPrefix_of_names_eq_nil letters name ended' ended none' new h.symm).length_le

end

/-! ## Marks around a text -/

/-- An expression is within a text that begins and ends with a mark, as soon as a word of it is and
the expression does not have the mark. -/
theorem exists_wholeOffset?_of_marks {mark : Char} {pre post left right x y rest more : List Char}
    (some : word ≠ []) (apart : mark ∉ pre ++ word ++ post) (new : IsNew rest)
    (first : (left ++ word ++ right).head? = .some mark)
    (last : (left ++ word ++ right).getLast? = .some mark)
    (before : x ++ pre = y ++ left) (behind : post ++ rest = right ++ more) :
    ∃ k, wholeOffset? (pre ++ word ++ post) (left ++ word ++ right) = .some k := by
  simp only [List.mem_append, not_or] at apart
  obtain ⟨⟨noneBefore, noneWithin⟩, noneBehind⟩ := apart
  have opened : mark ∈ left := by
    cases left with
    | nil =>
      rw [List.nil_append, List.head?_append_of_ne_nil _ some] at first
      exact absurd (List.mem_of_head? first) noneWithin
    | cons c left =>
      obtain rfl := Option.some.inj first
      exact List.mem_cons_self
  have closed : mark ∈ right := by
    cases right using List.reverseRecOn with
    | nil =>
      rw [List.append_nil, List.getLast?_append_of_ne_nil _ some] at last
      exact absurd (List.mem_of_getLast? last) noneWithin
    | append_singleton right c =>
      rw [← List.append_assoc, List.getLast?_concat] at last
      obtain rfl := Option.some.inj last
      simp
  -- the expression reaches neither mark
  obtain ⟨front, rfl⟩ : ∃ front, left = front ++ pre := by
    rcases List.append_eq_append_iff.mp before with ⟨z, -, split⟩ | ⟨z, -, split⟩
    · exact absurd (split ▸ List.mem_append_right z opened) noneBefore
    · exact ⟨z, split⟩
  obtain ⟨back, rfl, rfl⟩ : ∃ back, right = post ++ back ∧ rest = back ++ more := by
    rcases List.append_eq_append_iff.mp behind with ⟨z, split, found⟩ | ⟨z, split, -⟩
    · exact ⟨z, split, found⟩
    · exact absurd (split ▸ List.mem_append_left z closed) noneBehind
  have whole : BeginsWhole (pre ++ word ++ post) (pre ++ word ++ post ++ back) :=
    beginsWhole_iff_isNew.mpr ⟨back, rfl, new.of_append⟩
  simpa [List.append_assoc] using exists_wholeOffset? front whole

/-- An expression without quotes is within a literal as soon as a word of it is. -/
theorem exists_wholeOffset?_quote {s : String} {pre post left right x y rest more : List Char}
    (letters : ∀ c ∈ word, isIdentifierChar c = true) (some : word ≠ [])
    (unquoted : '"' ∉ pre ∧ '"' ∉ post) (new : IsNew rest)
    (literal : (quote s).toList = left ++ word ++ right)
    (before : x ++ pre = y ++ left) (behind : post ++ rest = right ++ more) :
    ∃ k, wholeOffset? (pre ++ word ++ post) (quote s).toList = .some k := by
  have apart : '"' ∉ pre ++ word ++ post := by
    have none : '"' ∉ word := fun mem => Bool.false_ne_true (letters '"' mem)
    simp only [List.mem_append, not_or]
    exact ⟨⟨unquoted.1, none⟩, unquoted.2⟩
  have marks : (quote s).toList.head? = .some '"' ∧ (quote s).toList.getLast? = .some '"' := by
    rw [quote, String.toList_ofList, ← List.cons_append, List.getLast?_concat]
    exact ⟨rfl, rfl⟩
  rw [literal] at marks ⊢
  exact exists_wholeOffset?_of_marks some apart new marks.1 marks.2 before behind

end StrategyCanvas.Text
