import Mathlib.Data.List.Infix
import Mathlib.Data.List.SplitBy
import StrategyCanvas.Proofs.Text.Line

/-!
# Field paths in code

What a reader of code sees outside comments and literals, as words, and the field paths among these
words: `self`, a dot and a name. A text is closed if every such path in it is complete and names a
known field (`IsClosed`). Closed texts can be put side by side wherever no word runs on over the
joint (`IsClosed.append`), so that the paths of a whole text are found in its parts.
-/

namespace StrategyCanvas.Text

/-! ## Comments and literals -/

/-- Where a reader of code is. There are no character literals, no raw strings and no comments but
those to the end of a line. -/
inductive Region
  | code
  | literal
  | comment
  deriving DecidableEq, Repr

/-- The code outside comments and literals. The quotes of literals stay. -/
def visible : Region → List Char → List Char
  | _, [] => []
  | .code, '"' :: cs => '"' :: visible .literal cs
  | .code, '/' :: '/' :: cs => visible .comment cs
  | .code, c :: cs => c :: visible .code cs
  | .literal, '\\' :: _ :: cs => visible .literal cs
  | .literal, '"' :: cs => '"' :: visible .code cs
  | .literal, _ :: cs => visible .literal cs
  | .comment, '\n' :: cs => '\n' :: visible .code cs
  | .comment, _ :: cs => visible .comment cs

/-- A text in which no literal and no comment can begin. -/
def isPlain (cs : List Char) : Bool := cs.all fun c => c ≠ '"' && c ≠ '/'

/-- Text without quotes and slashes is seen as it stands. -/
theorem visible_append {cs : List Char} (h : isPlain cs = true) (rest : List Char) :
    visible .code (cs ++ rest) = cs ++ visible .code rest := by
  induction cs with
  | nil => rfl
  | cons c cs ih =>
    obtain ⟨here, later⟩ := Bool.and_eq_true_iff.mp h
    obtain ⟨quote, slash⟩ : c ≠ '"' ∧ c ≠ '/' := by simpa using here
    rw [List.cons_append, visible, ih later, List.cons_append]
    · simpa using quote
    · intro _ same
      exact absurd same slash

/-- A comment hides everything up to the end of its line. -/
theorem visible_comment {cs : List Char} (h : '\n' ∉ cs) (rest : List Char) :
    visible .comment (cs ++ '\n' :: rest) = '\n' :: visible .code rest := by
  induction cs with
  | nil => rfl
  | cons c cs ih =>
    rw [List.mem_cons, not_or] at h
    rw [List.cons_append, visible, ih h.2]
    exact Ne.symm h.1

/-- A text in which a literal does not end and nothing is escaped. -/
theorem visible_literal {cs : List Char} (h : ∀ c ∈ cs, c ≠ '\\' ∧ c ≠ '"') (rest : List Char) :
    visible .literal (cs ++ rest) = visible .literal rest := by
  induction cs with
  | nil => rfl
  | cons c cs ih =>
    obtain ⟨⟨backslash, quote⟩, later⟩ := List.forall_mem_cons.mp h
    rw [List.cons_append, visible, ih later]
    · intro _ _ same
      exact absurd same backslash
    · exact quote

/-- A literal goes on behind whatever stands for one of its characters. -/
theorem visible_quoteChar (c : Char) (rest : List Char) :
    visible .literal (quoteChar c ++ rest) = visible .literal rest := by
  unfold quoteChar
  iterate 6
    split
    · rfl
  rename_i quote backslash
  split
  · have digits : ∀ d ∈ Nat.toDigits 16 c.toNat, d ≠ '\\' ∧ d ≠ '"' := by
      refine fun d mem => ⟨?_, ?_⟩
      · rintro rfl
        exact Decimal.not_mem_toDigits (by decide) (fun _ => Nat.digitChar_ne _ (by decide)) _ mem
      · rintro rfl
        exact Decimal.not_mem_toDigits (by decide) (fun _ => Nat.digitChar_ne _ (by decide)) _ mem
    have code : codePointEscape c ++ rest
        = '\\' :: 'u' :: (('\x7b' :: (Nat.toDigits 16 c.toNat ++ ['\x7d'])) ++ rest) := by
      simp [codePointEscape]
    rw [code, visible, visible_literal]
    rw [List.forall_mem_cons, List.forall_mem_append]
    exact ⟨by decide, digits, by simp⟩
  · exact visible_literal (by simp [quote, backslash]) rest

/-- Of a literal nothing is seen but its two quotes, whatever it says. -/
theorem visible_quote (s : String) (rest : List Char) :
    visible .code ((quote s).toList ++ rest) = '"' :: '"' :: visible .code rest := by
  have inside (cs : List Char) : visible .literal (cs.flatMap quoteChar ++ '"' :: rest)
      = '"' :: visible .code rest := by
    induction cs with
    | nil => rfl
    | cons c cs ih => rw [List.flatMap_cons, List.append_assoc, visible_quoteChar, ih]
  rw [quote, String.toList_ofList, List.cons_append, List.append_assoc, List.singleton_append,
    visible, inside]

/-! ## Words -/

/-- Whether characters that stand side by side belong to one word. -/
def sameWord (a b : Char) : Bool := isIdentifierChar a && isIdentifierChar b

/-- The words of a text, and its other characters one by one, without the spaces between them. -/
def words (cs : List Char) : List (List Char) :=
  (cs.splitBy sameWord).filter fun word => !word.all Char.isWhitespace

/-- A text that begins with a character of no word. -/
def beginsApart (cs : List Char) : Bool := cs.head?.any fun c => !isIdentifierChar c

/-- A text that ends with a character of no word. -/
def endsApart (cs : List Char) : Bool := cs.getLast?.any fun c => !isIdentifierChar c

theorem beginsApart_append {cs : List Char} (h : beginsApart cs = true) (rest : List Char) :
    beginsApart (cs ++ rest) = true := by
  cases cs with
  | nil => contradiction
  | cons c cs => exact h

theorem endsApart_append {cs : List Char} (h : endsApart cs = true) (front : List Char) :
    endsApart (front ++ cs) = true := by
  unfold endsApart at h ⊢
  cases last : cs.getLast? with
  | none => simp [last] at h
  | some c => simpa [List.getLast?_append, last] using h

/-- No word runs over a joint at which a character of no word stands. -/
theorem words_append {cs rest : List Char}
    (h : endsApart cs = true ∨ beginsApart rest = true) :
    words (cs ++ rest) = words cs ++ words rest := by
  have apart : ∀ a ∈ cs.getLast?, ∀ b ∈ rest.head?, sameWord a b = false := by
    intro a last b first
    unfold endsApart beginsApart at h
    rw [Option.mem_def.mp last, Option.mem_def.mp first] at h
    rcases h with left | right
    · simp [sameWord, show isIdentifierChar a = false by simpa using left]
    · simp [sameWord, show isIdentifierChar b = false by simpa using right]
  rw [words, List.splitBy_append apart, List.filter_append]
  rfl

/-- A name is a single word. -/
theorem words_of_isWord {s : String} (h : IsWord s) (some : s ≠ "") :
    words s.toList = [s.toList] := by
  have filled : s.toList ≠ [] := fun none => some (String.toList_eq_nil_iff.mp none)
  have chain : s.toList.IsChain fun a b => sameWord a b = true := by
    refine (List.pairwise_of_forall_mem_list fun a ha b hb => ?_).isChain
    simp [sameWord, h a ha, h b hb]
  have whole : s.toList.splitBy sameWord = [s.toList] := by
    rw [List.splitBy_eq_iff]
    exact ⟨by simp, by simpa using Ne.symm filled, by simpa using chain, by simp⟩
  obtain ⟨c, mem⟩ := List.exists_mem_of_ne_nil _ filled
  have solid : s.toList.all Char.isWhitespace = false := by
    rw [List.all_eq_false]
    refine ⟨c, mem, fun blank => ?_⟩
    have letter := h c mem
    simp only [Char.isWhitespace, Bool.or_eq_true, decide_eq_true_eq] at blank
    obtain ((rfl | rfl) | rfl) | rfl := blank <;> contradiction
  rw [words, whole, List.filter_cons_of_pos (by simp [solid]), List.filter_nil]

/-- Spaces in front of a text belong to no word. -/
theorem words_indent {front : List Char} (h : ∀ c ∈ front, c = ' ') (cs : List Char) :
    words (front ++ cs) = words cs := by
  induction front with
  | nil => rfl
  | cons c front ih =>
    rw [List.forall_mem_cons] at h
    rw [h.1, List.cons_append, ← List.singleton_append, words_append (.inl rfl), ih h.2]
    rfl

/-- The characters of words are characters of the text. -/
theorem mem_of_mem_words {cs word : List Char} {c : Char} (h : word ∈ words cs) (mem : c ∈ word) :
    c ∈ cs := by
  rw [← List.flatten_splitBy sameWord cs]
  exact List.mem_flatten.mpr ⟨word, (List.mem_filter.mp h).1, mem⟩

/-! ## Field paths -/

/-- The word that a field path begins with. -/
def selfWord : List Char := ['s', 'e', 'l', 'f']

/-- The name behind `self` and a dot, if that is how a list of words begins. -/
def fieldPath? : List (List Char) → Option String
  | word :: dot :: name :: _ =>
    if word = selfWord ∧ dot = ['.'] then some (String.ofList name) else none
  | _ => none

/-- The names of fields in the field paths of a text of code, outside comments and literals. -/
def fieldPaths (code : String) : List String :=
  (words (visible .code code.toList)).tails.filterMap fieldPath?

example : fieldPaths "self.a = self . b(\"self.c\"); // self.d" = ["a", "b"] := by decide +kernel

/-- Words that do not begin with `self`, or go on with something that is not a dot, or with a dot
and the name of a field. -/
def isResolved (fields : List String) : List (List Char) → Bool
  | [] => true
  | [word] => word ≠ selfWord
  | word :: dot :: rest =>
    word ≠ selfWord || dot ≠ ['.'] || rest.head?.any fun name => String.ofList name ∈ fields

/-- Every field path in some words is complete and names a field. -/
def Resolves (fields : List String) (ws : List (List Char)) : Prop :=
  ∀ tail ∈ ws.tails, isResolved fields tail = true

instance (fields : List String) (ws : List (List Char)) : Decidable (Resolves fields ws) :=
  inferInstanceAs (Decidable (∀ tail ∈ ws.tails, _))

section

variable {fields : List String} {word : List Char} {ws more : List (List Char)}

/-- Paths resolve one by one, from the front. -/
theorem resolves_cons :
    Resolves fields (word :: ws) ↔ isResolved fields (word :: ws) = true ∧ Resolves fields ws := by
  rw [Resolves, List.tails_cons, List.forall_mem_cons]
  rfl

/-- A path that is complete is not changed by what follows. -/
theorem isResolved_append (h : isResolved fields (word :: ws) = true) :
    isResolved fields (word :: ws ++ more) = true := by
  match ws, more with
  | [], [] => exact h
  | [], dot :: rest =>
    have other : word ≠ selfWord := by simpa [isResolved] using h
    simp [isResolved, other]
  | [dot], _ =>
    have short : word ≠ selfWord ∨ dot ≠ ['.'] := by simpa [isResolved] using h
    rcases short with other | other <;> simp [isResolved, other]
  | dot :: name :: rest, _ => exact h

/-- Paths that resolve on both sides of a joint between words resolve together. -/
theorem resolves_append (h : Resolves fields ws) (h' : Resolves fields more) :
    Resolves fields (ws ++ more) := by
  induction ws with
  | nil => exact h'
  | cons word rest ih =>
    rw [resolves_cons] at h
    rw [List.cons_append, resolves_cons]
    exact ⟨isResolved_append h.1, ih h.2⟩

/-- Without a dot, `self` is of no concern if something other than a dot follows. -/
theorem resolves_append_of_undotted (h : ['.'] ∉ ws) (h' : Resolves fields more)
    (next : more.head?.any (· ≠ ['.']) = true) : Resolves fields (ws ++ more) := by
  induction ws with
  | nil => exact h'
  | cons word rest ih =>
    rw [List.mem_cons, not_or] at h
    rw [List.cons_append, resolves_cons]
    refine ⟨?_, ih h.2⟩
    match rest, more with
    | [], dot :: _ =>
      have other : dot ≠ ['.'] := by simpa using next
      simp [isResolved, other]
    | dot :: _, _ =>
      have other : dot ≠ ['.'] := fun same => h.2 (by simp [same])
      simp [isResolved, other]

/-- Words without `self` have no paths in them. -/
theorem resolves_of_not_mem (h : selfWord ∉ ws) : Resolves fields ws := by
  induction ws with
  | nil => simp [Resolves, isResolved]
  | cons word rest ih =>
    rw [List.mem_cons, not_or] at h
    refine resolves_cons.mpr ⟨?_, ih h.2⟩
    cases rest <;> simp [isResolved, Ne.symm h.1]

/-- Paths that resolve still do if more fields are known. -/
theorem Resolves.mono {more : List String} (h : Resolves fields ws) (sub : fields ⊆ more) :
    Resolves more ws := by
  intro tail mem
  have resolved := h tail mem
  match tail with
  | [] => rfl
  | [word] => exact resolved
  | [word, dot] => simpa [isResolved] using resolved
  | word :: dot :: name :: rest =>
    have known : (word ≠ selfWord ∨ dot ≠ ['.']) ∨ String.ofList name ∈ fields := by
      simpa [isResolved] using resolved
    have known' := known.imp_right (@sub _)
    simpa [isResolved] using known'

/-- A path that resolves names a known field. -/
theorem mem_of_isResolved {f : String} (h : isResolved fields ws = true)
    (found : fieldPath? ws = some f) : f ∈ fields := by
  unfold fieldPath? at found
  split at found
  · split at found
    · rename_i same
      obtain rfl := Option.some.inj found
      simpa [isResolved, same.1, same.2] using h
    · contradiction
  · contradiction

/-- In front of other words, words that refer to no field can be left out. -/
theorem filterMap_fieldPath?_append (h : Resolves [] ws) (more : List (List Char)) :
    (ws ++ more).tails.filterMap fieldPath? = more.tails.filterMap fieldPath? := by
  induction ws with
  | nil => rfl
  | cons word rest ih =>
    rw [resolves_cons] at h
    have none : fieldPath? (word :: rest ++ more) = none := by
      refine Option.eq_none_iff_forall_ne_some.mpr fun f found => ?_
      exact List.not_mem_nil (mem_of_isResolved (isResolved_append h.1) found)
    rw [List.cons_append] at none
    rw [List.cons_append, List.tails_cons, List.filterMap_cons_none none, ih h.2]

/-- All field paths of a text whose words resolve name known fields. -/
theorem mem_of_mem_fieldPaths {code f : String}
    (h : Resolves fields (words (visible .code code.toList))) (mem : f ∈ fieldPaths code) :
    f ∈ fields := by
  obtain ⟨tail, suffix, found⟩ := List.mem_filterMap.mp mem
  exact mem_of_isResolved (h tail suffix) found

end

/-! ## Closed texts -/

/-- A text of code that can be read without what is behind it, and in which every field path is
complete and names a field. -/
structure IsClosed (fields : List String) (s : String) : Prop where
  settled : ∀ rest, visible .code (s.toList ++ rest) = visible .code s.toList ++ visible .code rest
  resolves : Resolves fields (words (visible .code s.toList))

/-- What is visible of a text begins with a character of no word. -/
def BeginsFree (s : String) : Prop := beginsApart (visible .code s.toList) = true

/-- What is visible of a text ends with a character of no word. -/
def EndsFree (s : String) : Prop := endsApart (visible .code s.toList) = true

/-- Characters that are closed whatever the fields are. -/
def isFixed (cs : List Char) : Bool := isPlain cs && decide (Resolves [] (words cs))

/-- Characters that are closed whatever the fields are, and stand apart from what is around them. -/
def isJoint (cs : List Char) : Bool := isFixed cs && beginsApart cs && endsApart cs

section

variable {fields : List String} {s t u : String} {cs : List Char}

/-- A text without quotes and slashes has nothing to hide. -/
theorem visible_of_isPlain (h : isPlain cs = true) : visible .code cs = cs := by
  simpa [visible] using visible_append h []

/-- A text without literals and comments is closed if its words resolve. -/
theorem isClosed_of_isPlain (h : isPlain s.toList = true)
    (resolves : Resolves fields (words s.toList)) : IsClosed fields s := by
  constructor
  · intro rest
    rw [visible_append h, visible_of_isPlain h]
  · rwa [visible_of_isPlain h]

theorem isPlain_of_isFixed (h : isFixed cs = true) : isPlain cs = true :=
  (Bool.and_eq_true_iff.mp h).1

/-- A fixed text has no path in it, so that any fields will do. -/
theorem resolves_of_isFixed (h : isFixed cs = true) : Resolves fields (words cs) :=
  (of_decide_eq_true (Bool.and_eq_true_iff.mp h).2).mono (List.nil_subset _)

/-- A text that is given by its characters is closed if they are. -/
theorem isClosed_of_isFixed (h : isFixed cs = true) : IsClosed fields (String.ofList cs) :=
  isClosed_of_isPlain (by simpa using isPlain_of_isFixed h) (by simpa using resolves_of_isFixed h)

theorem isClosed_empty : IsClosed fields "" :=
  isClosed_of_isFixed (show isFixed [] = true by decide)

/-- A fixed text that begins apart does so for a reader of code too. -/
theorem beginsFree_ofList (h : isFixed cs = true) (begins : beginsApart cs = true) :
    BeginsFree (String.ofList cs) := by
  rwa [BeginsFree, String.toList_ofList, visible_of_isPlain (isPlain_of_isFixed h)]

theorem endsFree_ofList (h : isFixed cs = true) (ends : endsApart cs = true) :
    EndsFree (String.ofList cs) := by
  rwa [EndsFree, String.toList_ofList, visible_of_isPlain (isPlain_of_isFixed h)]

/-- A literal is closed, whatever it says. -/
theorem isClosed_quote (s : String) : IsClosed fields (quote s) := by
  have quotes : visible .code (quote s).toList = ['"', '"'] := by
    simpa [visible] using visible_quote s []
  constructor
  · intro rest
    rw [visible_quote, quotes]
    rfl
  · rw [quotes]
    exact resolves_of_not_mem (by decide +kernel)

namespace IsClosed

/-- Closed texts are closed together if no word runs over the joint. -/
theorem append (hs : IsClosed fields s) (ht : IsClosed fields t)
    (apart : EndsFree s ∨ BeginsFree t) : IsClosed fields (s ++ t) := by
  constructor
  · intro rest
    rw [String.toList_append, List.append_assoc, hs.settled, ht.settled, hs.settled,
      List.append_assoc]
  · rw [String.toList_append, hs.settled, words_append apart]
    exact resolves_append hs.resolves ht.resolves

/-- What stands at the front decides how a text begins. -/
theorem beginsFree_append (hs : IsClosed fields s) (h : BeginsFree s) (t : String) :
    BeginsFree (s ++ t) := by
  rw [BeginsFree, String.toList_append, hs.settled]
  exact beginsApart_append h _

/-- What stands at the end decides how a text ends. -/
theorem endsFree_append (hs : IsClosed fields s) (h : EndsFree t) : EndsFree (s ++ t) := by
  rw [EndsFree, String.toList_append, hs.settled]
  exact endsApart_append h _

/-- Behind a closed text, a fixed one that begins apart. -/
theorem ended (hs : IsClosed fields s) (fixed : isFixed cs = true)
    (begins : beginsApart cs = true) : IsClosed fields (s ++ String.ofList cs) :=
  hs.append (isClosed_of_isFixed fixed) (.inr (beginsFree_ofList fixed begins))

/-- In front of a closed text, a fixed one that ends apart. -/
theorem behind (hs : IsClosed fields s) (fixed : isFixed cs = true) (ends : endsApart cs = true) :
    IsClosed fields (String.ofList cs ++ s) :=
  (isClosed_of_isFixed fixed).append hs (.inl (endsFree_ofList fixed ends))

/-- Between two closed texts, a fixed one that stands apart. -/
theorem join (hs : IsClosed fields s) (joint : isJoint cs = true) (hu : IsClosed fields u) :
    IsClosed fields (s ++ String.ofList cs ++ u) := by
  simp only [isJoint, Bool.and_eq_true] at joint
  obtain ⟨⟨fixed, begins⟩, ends⟩ := joint
  exact (hs.ended fixed begins).append hu (.inl (hs.endsFree_append (endsFree_ofList fixed ends)))

end IsClosed

/-- Pieces of a text, as far as they are fixed, are closed and keep apart what stands between
them. -/
def isSpaced (pieces : List (Option (List Char))) : Bool :=
  pieces.all (·.all isFixed)
    && decide (pieces.IsChain fun a b => (a.any endsApart || b.any beginsApart) = true)

section

variable {α : Type} {pieces : List α} {text? : α → Option (List Char)} {render : α → String}

/-- The texts between other pieces are fixed ones. -/
theorem isFixed_of_isSpaced {piece : α} (spaced : isSpaced (pieces.map text?) = true)
    (mem : piece ∈ pieces) (text : text? piece = some cs) : isFixed cs = true := by
  rw [isSpaced, Bool.and_eq_true, List.all_map, List.all_eq_true] at spaced
  simpa [text] using spaced.1 piece mem

/-- Of fixed pieces and given ones, all are closed if the given ones are. -/
theorem forall_isClosed (spaced : isSpaced (pieces.map text?) = true)
    (texts : ∀ piece cs, text? piece = some cs → render piece = String.ofList cs)
    (given : ∀ piece ∈ pieces, text? piece = none → IsClosed fields (render piece)) :
    ∀ piece ∈ pieces, IsClosed fields (render piece) := by
  intro piece mem
  cases text : text? piece with
  | none => exact given piece mem text
  | some cs =>
    rw [texts piece cs text]
    exact isClosed_of_isFixed (isFixed_of_isSpaced spaced mem text)

/-- Behind closed pieces that are kept apart, no word runs on. -/
theorem endsFree_or_beginsFree {piece next : α} {rest : List α}
    (spaced : isSpaced ((piece :: next :: rest).map text?) = true)
    (texts : ∀ piece cs, text? piece = some cs → render piece = String.ofList cs)
    (closed : IsClosed fields (render next)) :
    EndsFree (render piece) ∨ BeginsFree (String.join ((next :: rest).map render)) := by
  simp only [isSpaced, List.map_cons, List.all_cons, Bool.and_eq_true, decide_eq_true_eq,
    List.isChain_cons_cons] at spaced
  obtain ⟨⟨here, behind, -⟩, joint, -⟩ := spaced
  rw [Bool.or_eq_true] at joint
  refine joint.imp (fun left => ?_) fun right => ?_
  · obtain ⟨cs, text, ends⟩ := (Option.any_eq_true ..).mp left
    rw [texts piece cs text]
    exact endsFree_ofList (by simpa [text] using here) ends
  · obtain ⟨cs, text, begins⟩ := (Option.any_eq_true ..).mp right
    rw [List.map_cons, String.join_cons]
    refine closed.beginsFree_append ?_ _
    rw [texts next cs text]
    exact beginsFree_ofList (by simpa [text] using behind) begins

/-- Pieces that are kept apart still are without the first of them. -/
theorem isSpaced_tail {piece : Option (List Char)} {rest : List (Option (List Char))}
    (h : isSpaced (piece :: rest) = true) : isSpaced rest = true := by
  simp only [isSpaced, List.all_cons, Bool.and_eq_true, decide_eq_true_eq] at h ⊢
  exact ⟨h.1.2, h.2.tail⟩

/-- A text that is put together from fixed pieces and from given ones is closed if the given ones
are closed and are kept apart. -/
theorem isClosed_join (spaced : isSpaced (pieces.map text?) = true)
    (texts : ∀ piece cs, text? piece = some cs → render piece = String.ofList cs)
    (given : ∀ piece ∈ pieces, text? piece = none → IsClosed fields (render piece)) :
    IsClosed fields (String.join (pieces.map render)) := by
  have closed := forall_isClosed spaced texts given
  clear given
  induction pieces with
  | nil => exact isClosed_empty
  | cons piece rest ih =>
    rw [List.forall_mem_cons] at closed
    cases rest with
    | nil => simpa using closed.1
    | cons next rest =>
      rw [List.map_cons, String.join_cons]
      exact closed.1.append (ih (isSpaced_tail spaced) closed.2)
        (endsFree_or_beginsFree spaced texts (closed.2 next List.mem_cons_self))

/-- The words of such a text are those of its pieces. -/
theorem words_join (spaced : isSpaced (pieces.map text?) = true)
    (texts : ∀ piece cs, text? piece = some cs → render piece = String.ofList cs)
    (closed : ∀ piece ∈ pieces, IsClosed fields (render piece)) :
    words (visible .code (String.join (pieces.map render)).toList)
      = pieces.flatMap fun piece => words (visible .code (render piece).toList) := by
  induction pieces with
  | nil => rfl
  | cons piece rest ih =>
    rw [List.forall_mem_cons] at closed
    cases rest with
    | nil => simp
    | cons next rest =>
      rw [List.map_cons, String.join_cons, String.toList_append, closed.1.settled,
        List.flatMap_cons, ← ih (isSpaced_tail spaced) closed.2]
      exact words_append (endsFree_or_beginsFree spaced texts (closed.2 next List.mem_cons_self))

end

/-- A text is plain if all its characters are of a kind that quotes and slashes are not. -/
theorem isPlain_of_forall {p : Char → Bool} (h : ∀ c ∈ cs, p c = true) (quote : p '"' = false)
    (slash : p '/' = false) : isPlain cs = true := by
  rw [isPlain, List.all_eq_true]
  intro c mem
  have here := h c mem
  have other : c ≠ '"' ∧ c ≠ '/' := by
    constructor
    · rintro rfl
      exact Bool.false_ne_true (quote.symm.trans here)
    · rintro rfl
      exact Bool.false_ne_true (slash.symm.trans here)
  simpa using other

/-- A word other than `self` has no path in it. -/
theorem isClosed_of_isWord (h : IsWord s) (other : s ≠ "self") : IsClosed fields s := by
  refine isClosed_of_isPlain (isPlain_of_forall h rfl rfl) (resolves_of_not_mem fun mem => ?_)
  by_cases some : s = ""
  · simp [some, words] at mem
  · rw [words_of_isWord h some, List.mem_singleton] at mem
    exact other (String.toList_inj.mp mem.symm)

/-- The words of the path of a field. -/
theorem words_path {f : String} (h : IsWord f) (some : f ≠ "") :
    words ("self." ++ f).toList = [selfWord, ['.'], f.toList] := by
  have front : words "self.".toList = [selfWord, ['.']] := by decide +kernel
  rw [String.toList_append, words_append (.inl (by decide)), front, words_of_isWord h some]
  rfl

/-- In the path of a field nothing is hidden. -/
theorem isPlain_path {f : String} (h : IsWord f) : isPlain ("self." ++ f).toList = true := by
  rw [String.toList_append, isPlain, List.all_append, Bool.and_eq_true]
  exact ⟨by decide, isPlain_of_forall h rfl rfl⟩

/-- Between fixed texts, the path of a field is the only one. -/
theorem fieldPaths_path {front back : List Char} {f : String} (h : IsWord f) (some : f ≠ "")
    (other : f ≠ "self") (before : isFixed front = true) (ends : endsApart front = true)
    (behind : isFixed back = true) (begins : beginsApart back = true) :
    fieldPaths (String.ofList front ++ ("self." ++ f) ++ String.ofList back) = [f] := by
  have path : words (visible .code
      (String.ofList front ++ ("self." ++ f) ++ String.ofList back).toList)
        = words front ++ ([selfWord, ['.'], f.toList] ++ words back) := by
    rw [String.toList_append, String.toList_append, String.toList_ofList, String.toList_ofList,
      List.append_assoc, visible_append (isPlain_of_isFixed before),
      visible_append (isPlain_path h), visible_of_isPlain (isPlain_of_isFixed behind),
      words_append (.inl ends), words_append (.inr begins), words_path h some]
  have rest : Resolves [] ([['.'], f.toList] ++ words back) := by
    refine resolves_append (resolves_of_not_mem fun mem => ?_) (resolves_of_isFixed behind)
    rcases List.mem_cons.mp mem with same | mem
    · contradiction
    · exact other (String.toList_inj.mp (List.mem_singleton.mp mem).symm)
  have later := filterMap_fieldPath?_append rest []
  rw [List.append_nil] at later
  rw [fieldPaths, path, filterMap_fieldPath?_append (resolves_of_isFixed before), List.cons_append,
    List.tails_cons, List.filterMap_cons_some (b := f) (by simp [fieldPath?]), later]
  rfl

/-- The path of a known field is closed. -/
theorem isClosed_path {f : String} (h : IsWord f) (some : f ≠ "") (other : f ≠ "self")
    (known : f ∈ fields) : IsClosed fields ("self." ++ f) := by
  refine isClosed_of_isPlain (isPlain_path h) ?_
  rw [words_path h some, resolves_cons]
  refine ⟨by simp [isResolved, known], resolves_of_not_mem fun mem => ?_⟩
  rcases List.mem_cons.mp mem with same | mem
  · contradiction
  · exact other (String.toList_inj.mp (List.mem_singleton.mp mem).symm)

/-- A number is closed: it has no letter of `self`. -/
theorem isClosed_of_forall_isNumeralChar (h : ∀ c ∈ s.toList, Decimal.isNumeralChar c = true) :
    IsClosed fields s := by
  refine isClosed_of_isPlain (isPlain_of_forall h rfl rfl) (resolves_of_not_mem fun mem => ?_)
  have letter := h 's' (mem_of_mem_words mem (by decide))
  contradiction

/-- What has no dot is closed by something that begins apart and not with a dot. -/
theorem isClosed_of_undotted (plain : isPlain s.toList = true) (undotted : '.' ∉ s.toList)
    (fixed : isFixed cs = true) (begins : beginsApart cs = true)
    (next : (words cs).head?.any (· ≠ ['.']) = true) : IsClosed fields (s ++ String.ofList cs) := by
  refine isClosed_of_isPlain ?_ ?_
  · rw [String.toList_append, String.toList_ofList, isPlain, List.all_append, Bool.and_eq_true]
    exact ⟨plain, isPlain_of_isFixed fixed⟩
  · rw [String.toList_append, String.toList_ofList, words_append (.inr begins)]
    exact resolves_append_of_undotted
      (fun mem => undotted (mem_of_mem_words mem List.mem_cons_self)) (resolves_of_isFixed fixed)
      next

/-! ## Closed lines -/

/-- A line of code in which every field path is complete and names a field, whatever stands on the
lines below. -/
def IsClosedLine (fields : List String) (s : String) : Prop :=
  ∃ seen, (∀ rest, visible .code (s.toList ++ '\n' :: rest) = seen ++ '\n' :: visible .code rest)
    ∧ Resolves fields (words seen)

/-- A closed text stays closed when lines follow. -/
theorem IsClosed.isClosedLine (h : IsClosed fields s) : IsClosedLine fields s :=
  ⟨visible .code s.toList, fun _ => h.settled _, h.resolves⟩

/-- A line that is a comment as a whole is closed, whatever it says. -/
theorem isClosedLine_comment (h : IsOneLine s) (front : ['/', '/'] <+: s.toList) :
    IsClosedLine fields s := by
  obtain ⟨cs, chars⟩ := front
  refine ⟨[], fun rest => ?_, resolves_of_not_mem (by decide)⟩
  rw [IsOneLine, ← chars, List.mem_append, not_or] at h
  rw [← chars]
  exact visible_comment h.2 rest

/-- Characters of a line that is closed whatever the fields are: a fixed text or a comment. -/
def isFixedLine (cs : List Char) : Bool :=
  isFixed cs || (['/', '/'].isPrefixOf cs && !cs.contains '\n')

/-- A fixed line is closed. -/
theorem isClosedLine_of_isFixedLine (h : isFixedLine cs = true) :
    IsClosedLine fields (String.ofList cs) := by
  rw [isFixedLine, Bool.or_eq_true, Bool.and_eq_true] at h
  rcases h with fixed | ⟨front, line⟩
  · exact (isClosed_of_isFixed fixed).isClosedLine
  · refine isClosedLine_comment (isOneLine_ofList (by simpa using line)) ?_
    rw [String.toList_ofList]
    exact List.isPrefixOf_iff_prefix.mp front

/-- Closed lines make up a closed text, however they are indented. -/
theorem resolves_lines {lines : List (Nat × String)} (h : ∀ l ∈ lines, IsClosedLine fields l.2) :
    Resolves fields (words (visible .code
      (lines.flatMap fun l => List.replicate l.1 ' ' ++ l.2.toList ++ ['\n']))) := by
  induction lines with
  | nil => simp [visible, words, Resolves, isResolved]
  | cons l rest ih =>
    rw [List.forall_mem_cons] at h
    obtain ⟨⟨seen, read, resolves⟩, later⟩ := h
    have indent (n : Nat) : isPlain (List.replicate n ' ') = true := by
      simp [isPlain]
    rw [List.flatMap_cons, List.append_assoc, List.append_assoc, List.singleton_append,
      visible_append (indent _), read, words_indent fun _ => List.eq_of_mem_replicate,
      words_append (.inr rfl), ← List.singleton_append,
      words_append (.inl rfl)]
    exact resolves_append resolves (resolves_append (resolves_of_not_mem (by decide)) (ih later))

end

end StrategyCanvas.Text
