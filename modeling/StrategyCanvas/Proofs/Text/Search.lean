import Mathlib.Logic.Function.Iterate
import Mathlib.Order.Bounds.Basic
import StrategyCanvas.Proofs.Text.Identifier
import StrategyCanvas.Proofs.Text.Whole
import StrategyCanvas.Text.Search

/-!
# Searches end at the first place

A search that counts bytes ends where one that looks at one character after the other does
(`Search.reaches_ended`). Each of its rounds cuts the text in front of a character, because an
occurrence begins and ends with whole characters and because moving on stops at the next one
(`Search.reaches_looking`). It skips no whole occurrence, as there is none in front of the first
occurrence, and none that begins between two characters.
-/

namespace StrategyCanvas.Text

open String.Slice.Pattern.Model

/-! ## Cutting and finding -/

section

variable {text front rest expr : String}

/-- A text can be cut between two texts, and what is behind is the second. -/
theorem textFrom?_append (front rest : String) :
    textFrom? (front ++ rest) front.utf8ByteSize = some rest := by
  have valid : (⟨front.utf8ByteSize⟩ : String.Pos.Raw).IsValid (front ++ rest) :=
    String.Pos.Raw.isValid_iff_exists_append.mpr ⟨front, rest, rfl, rfl⟩
  have splits : ((front ++ rest).pos _ valid).Splits front rest := ⟨rfl, rfl⟩
  rw [textFrom?, dif_pos valid, splits.copy_sliceFrom_eq]

/-- What is in front of the cut is the first. -/
theorem textTo?_append (front rest : String) :
    textTo? (front ++ rest) front.utf8ByteSize = some front := by
  have valid : (⟨front.utf8ByteSize⟩ : String.Pos.Raw).IsValid (front ++ rest) :=
    String.Pos.Raw.isValid_iff_exists_append.mpr ⟨front, rest, rfl, rfl⟩
  have splits : ((front ++ rest).pos _ valid).Splits front rest := ⟨rfl, rfl⟩
  rw [textTo?, dif_pos valid, splits.copy_sliceTo_eq]

/-- No byte within a character is the first one of a character. -/
theorem not_isValid_within {c : Char} {byte : Nat} (behind : front.utf8ByteSize < byte)
    (before : byte < front.utf8ByteSize + c.utf8Size) :
    ¬ (⟨byte⟩ : String.Pos.Raw).IsValid (front ++ (String.singleton c ++ rest)) := by
  intro valid
  rcases String.Pos.Raw.isValid_append.mp valid with within | ⟨-, there⟩
  · have := within.le_utf8ByteSize
    simp at this
    omega
  · rcases String.Pos.Raw.isValid_append.mp there with within | ⟨there, -⟩
    · rw [String.Pos.Raw.isValid_singleton] at within
      simp [String.Pos.Raw.ext_iff] at within
      omega
    · simp [String.Pos.Raw.le_iff] at there
      omega

/-- A text can be cut in front of an expression that stands in it. -/
theorem exists_eq_append_of_drop {k : Nat} {rest : List Char}
    (h : text.toList.drop k = expr.toList ++ rest) :
    ∃ front, text = front ++ (expr ++ String.ofList rest) ∧ front.toList = text.toList.take k := by
  refine ⟨String.ofList (text.toList.take k), ?_, String.toList_ofList⟩
  rw [← String.toList_inj, String.toList_append, String.toList_append, String.toList_ofList,
    String.toList_ofList, ← h, List.take_append_drop]

/-- A text that begins with an expression has a first character. -/
theorem exists_eq_singleton_append (filled : expr ≠ "") (behind : String) :
    ∃ c more, expr ++ behind = String.singleton c ++ more
      ∧ expr.toList ++ behind.toList = c :: more.toList := by
  obtain ⟨c, cs, chars⟩ := List.exists_cons_of_ne_nil (String.toList_eq_nil_iff.not.mpr filled)
  exact ⟨c, String.ofList cs ++ behind, by simp [← String.toList_inj, chars], by simp [chars]⟩

/-- What is found is the first place at which the expression stands. -/
theorem exists_of_find?_eq_some (filled : expr ≠ "") {found : text.Pos}
    (h : text.find? expr = some found) :
    ∃ before behind, text = before ++ (expr ++ behind)
      ∧ found.offset.byteIdx = before.utf8ByteSize
      ∧ ∀ k < before.toList.length, ¬ expr.toList <+: text.toList.drop k := by
  have := ForwardStringSearcher.strictPatternModel filled
  have := ForwardStringSearcher.lawfulToForwardSearcherModel filled
  rw [String.find?_eq_find?_toSlice, Option.map_eq_some_iff] at h
  obtain ⟨place, h, rfl⟩ := h
  obtain ⟨here, first⟩ := (find?_eq_some_iff expr).mp h
  obtain ⟨before, behind, splits⟩ := ForwardStringSearcher.matchesAt_iff_splits.mp here
  rw [← String.Slice.Pos.splits_ofToSlice_iff] at splits
  have offset := congrArg String.Pos.Raw.byteIdx splits.offset_eq_rawEndPos
  refine ⟨before, behind, splits.eq_append, offset, ?_⟩
  rintro k less ⟨rest, stands⟩
  obtain ⟨before', split, taken⟩ := exists_eq_append_of_drop stands.symm
  have splits' := String.Pos.splits_ofEqAppend split
  have other : ¬ (String.Pos.ofEqAppend split).toSlice < place := fun earlier =>
    first _ earlier (ForwardStringSearcher.matchesAt_iff_splits.mpr
      ⟨before', _, String.Pos.splits_toSlice_iff.mpr splits'⟩)
  have notEarlier : String.Pos.ofToSlice place ≤ String.Pos.ofEqAppend split :=
    String.Pos.ofToSlice_le_iff.mpr (Std.not_lt.mp other)
  obtain ⟨more, rfl, -⟩ := (splits.le_iff_exists_eq_append splits').mp notEarlier
  have lengths := congrArg List.length taken
  rw [String.toList_append, List.length_append, List.length_take] at lengths
  omega

/-- A text that is not found stands nowhere. -/
theorem not_isPrefix_of_find?_eq_none (filled : expr ≠ "") (h : text.find? expr = none) (k : Nat) :
    ¬ expr.toList <+: text.toList.drop k := by
  rintro ⟨rest, stands⟩
  obtain ⟨before, split, -⟩ := exists_eq_append_of_drop stands.symm
  have := ForwardStringSearcher.strictPatternModel filled
  have := ForwardStringSearcher.lawfulToForwardSearcherModel filled
  rw [String.find?_eq_find?_toSlice, Option.map_eq_none_iff] at h
  refine (find?_eq_none_iff expr).mp h (String.Pos.ofEqAppend split).toSlice ?_
  exact ForwardStringSearcher.matchesAt_iff_splits.mpr
    ⟨before, _, String.Pos.splits_toSlice_iff.mpr (String.Pos.splits_ofEqAppend split)⟩

end

/-! ## Places -/

/-- The places, in characters, at which an expression stands in a text and has no ASCII letter, no
ASCII digit and no underscore directly behind it. -/
def wholePlaces (expr text : String) : Set Nat :=
  {k | ∃ front rest, text = front ++ expr ++ rest ∧ front.length = k
    ∧ ∀ c ∈ rest.toList.head?, ¬ (c = '_' ∨ IsAsciiLetter c ∨ IsAsciiDigit c)}

/-- The whole places are those where the expression begins whole. -/
theorem mem_wholePlaces_iff {expr text : String} {k : Nat} : k ∈ wholePlaces expr text
    ↔ k ≤ text.toList.length ∧ BeginsWhole expr.toList (text.toList.drop k) := by
  simp only [wholePlaces, ← isIdentifierChar_iff, Bool.not_eq_true, Set.mem_ofPred_eq]
  constructor
  · rintro ⟨front, rest, rfl, rfl, ends⟩
    have chars : (front ++ expr ++ rest).toList
        = front.toList ++ (expr.toList ++ rest.toList) := by
      simp
    rw [chars, ← String.length_toList, List.drop_left]
    exact ⟨by simp, rest.toList, rfl, ends⟩
  · rintro ⟨bound, rest, split, ends⟩
    obtain ⟨front, eq, taken⟩ := exists_eq_append_of_drop split
    refine ⟨front, String.ofList rest, by rw [eq, String.append_assoc], ?_, ?_⟩
    · rw [← String.length_toList, taken, List.length_take, Nat.min_eq_left bound]
    · rwa [String.toList_ofList]

/-- The offset that is found is the least of the whole places. -/
theorem isLeast_wholePlaces_iff {expr text : String} {k : Nat} :
    IsLeast (wholePlaces expr text) k ↔ wholeOffset? expr.toList text.toList = some k := by
  rw [wholeOffset?_eq_some_iff, IsLeast, mem_wholePlaces_iff]
  refine and_congr_right fun ⟨bound, _⟩ => ⟨fun least i less begins => ?_, fun first i mem => ?_⟩
  · exact absurd (least (mem_wholePlaces_iff.mpr ⟨by omega, begins⟩)) (by omega)
  · by_contra less
    exact first i (by omega) (mem_wholePlaces_iff.mp mem).2

/-- No offset is found if there is no whole place. -/
theorem wholePlaces_eq_empty_iff {expr text : String} :
    wholePlaces expr text = ∅ ↔ wholeOffset? expr.toList text.toList = none := by
  rw [wholeOffset?_eq_none_iff, Set.eq_empty_iff_forall_notMem]
  refine forall_congr' fun k => ?_
  rw [mem_wholePlaces_iff, not_and]

/-! ## Runs -/

namespace Search

variable {text expr : String}

/-- Some number of steps leads from one state to another. -/
def Reaches (text expr : String) (s s' : Search) : Prop := ∃ n, (step text expr)^[n] s = s'

theorem Reaches.trans {a b c : Search} (first : Reaches text expr a b)
    (second : Reaches text expr b c) : Reaches text expr a c := by
  obtain ⟨m, rfl⟩ := first
  obtain ⟨n, rfl⟩ := second
  exact ⟨n + m, Function.iterate_add_apply _ n m a⟩

theorem reaches_step (s : Search) : Reaches text expr s (step text expr s) := ⟨1, rfl⟩

/-- A search that has ended stays so. -/
theorem iterate_ended (n : Nat) (offset : Option Nat) :
    (step text expr)^[n] (ended offset) = ended offset :=
  Function.iterate_fixed rfl n

/-- A search that is torn stays so. -/
theorem iterate_torn (n : Nat) : (step text expr)^[n] torn = torn :=
  Function.iterate_fixed rfl n

/-- A search that ends anywhere ends nowhere else, and is never torn on the way. -/
theorem Reaches.only {s : Search} {offset : Option Nat}
    (h : Reaches text expr s (ended offset)) (n : Nat) :
    (step text expr)^[n] s ≠ torn
      ∧ ∀ found, (step text expr)^[n] s = ended found → found = offset := by
  obtain ⟨m, ends⟩ := h
  have later : (step text expr)^[n] (ended offset)
      = (step text expr)^[m] ((step text expr)^[n] s) := by
    rw [← ends, ← Function.iterate_add_apply, ← Function.iterate_add_apply, Nat.add_comm]
  rw [iterate_ended] at later
  constructor
  · intro torn
    rw [torn, iterate_torn] at later
    contradiction
  · intro found ended
    rw [ended, iterate_ended] at later
    exact (Search.ended.inj later).symm

/-- Moving on stops at the next character. -/
theorem reaches_looking {front rest : String} {c : Char} {byte : Nat}
    (behind : front.utf8ByteSize < byte) (before : byte ≤ front.utf8ByteSize + c.utf8Size) :
    Reaches (front ++ (String.singleton c ++ rest)) expr (moving byte)
      (looking (front.utf8ByteSize + c.utf8Size)) := by
  -- by induction on the number of bytes that are left of the character
  obtain ⟨left, eq⟩ := Nat.exists_eq_add_of_le before
  induction left generalizing byte with
  | zero =>
    have whole : (⟨byte⟩ : String.Pos.Raw).IsValid (front ++ (String.singleton c ++ rest)) :=
      String.Pos.Raw.isValid_iff_exists_append.mpr ⟨front ++ String.singleton c, rest,
        (String.append_assoc ..).symm, by simpa [String.Pos.Raw.ext_iff] using eq.symm⟩
    refine ⟨1, ?_⟩
    rw [Function.iterate_one, step, if_pos whole, eq, Nat.add_zero]
  | succ left ih =>
    have within : ¬ (⟨byte⟩ : String.Pos.Raw).IsValid (front ++ (String.singleton c ++ rest)) :=
      not_isValid_within behind (by omega)
    have next : step (front ++ (String.singleton c ++ rest)) expr (moving byte)
        = moving (byte + 1) := by
      rw [step, if_neg within]
    refine (reaches_step _).trans ?_
    rw [next]
    exact ih (by omega) (by omega) (by omega)

/-- A search ends without an offset when nothing more is found. -/
theorem step_looking_of_none {front rest : String} (none : rest.find? expr = none) :
    step (front ++ rest) expr (looking front.utf8ByteSize) = ended .none := by
  simp only [step, textFrom?_append, none]

/-- At an occurrence the search looks at what is behind it. -/
theorem step_looking_of_some {front before behind : String}
    {found : (before ++ (expr ++ behind)).Pos}
    (some : (before ++ (expr ++ behind)).find? expr = some found)
    (here : found.offset.byteIdx = before.utf8ByteSize) :
    step (front ++ (before ++ (expr ++ behind))) expr (looking front.utf8ByteSize)
      = if behind.toList.head?.any isIdentifierChar then
          moving ((front ++ before).utf8ByteSize + 1)
        else ended (.some (front ++ before).length) := by
  have right : textFrom? (front ++ (before ++ (expr ++ behind)))
      (front ++ before ++ expr).utf8ByteSize = .some behind := by
    have := textFrom?_append (front ++ before ++ expr) behind
    rwa [String.append_assoc, String.append_assoc] at this
  have left : textTo? (front ++ (before ++ (expr ++ behind))) (front ++ before).utf8ByteSize
      = .some (front ++ before) := by
    have := textTo?_append (front ++ before) (expr ++ behind)
    rwa [String.append_assoc] at this
  rw [step, textFrom?_append]
  simp only [some, here, ← String.utf8ByteSize_append, right, left, String.startsWith_bool_eq_head?]

/-- From wherever the search looks on, it ends with the first whole occurrence in what is left. -/
theorem reaches_ended (filled : expr ≠ "") (front rest : String) :
    Reaches (front ++ rest) expr (looking front.utf8ByteSize)
      (ended ((wholeOffset? expr.toList rest.toList).map (· + front.length))) := by
  -- by induction on the length of what is left, as each round takes something off it
  induction length : rest.length using Nat.strong_induction_on generalizing front rest with
  | _ n ih =>
  refine (reaches_step _).trans ?_
  cases find : rest.find? expr with
  | none =>
    have nowhere : wholeOffset? expr.toList rest.toList = none :=
      wholeOffset?_eq_none_iff.mpr fun k _ begins =>
        not_isPrefix_of_find?_eq_none filled find k begins.isPrefix
    rw [step_looking_of_none find, nowhere]
    exact ⟨0, rfl⟩
  | some found =>
    obtain ⟨before, behind, rfl, here, first⟩ := exists_of_find?_eq_some filled find
    rw [step_looking_of_some find here]
    simp only [String.toList_append] at first
    rw [String.toList_append, String.toList_append]
    cases goesOn : behind.toList.head?.any isIdentifierChar with
    | false =>
      have chars : (front ++ before).length = before.length + front.length := by
        rw [String.length_append, Nat.add_comm]
      rw [wholeOffset?_of_whole first goesOn, Option.map_some, String.length_toList, chars]
      exact ⟨0, rfl⟩
    | true =>
      -- the search looks on behind the first character of the expression
      obtain ⟨c, more, split, chars⟩ := exists_eq_singleton_append filled behind
      have shorter : more.length < n := by
        rw [← length, split]
        simp
        omega
      have moved : Reaches (front ++ before ++ (String.singleton c ++ more)) expr
          (moving ((front ++ before).utf8ByteSize + 1))
          (looking ((front ++ before).utf8ByteSize + c.utf8Size)) :=
        reaches_looking (Nat.lt_succ_self _) (Nat.add_le_add_left c.utf8Size_pos _)
      have looked := ih more.length shorter (front ++ before ++ String.singleton c) more rfl
      have bytes : (front ++ before ++ String.singleton c).utf8ByteSize
          = (front ++ before).utf8ByteSize + c.utf8Size := by
        rw [String.utf8ByteSize_append, String.utf8ByteSize_singleton]
      have characters : (· + (front ++ before ++ String.singleton c).length)
          = (· + front.length) ∘ (· + (before.toList.length + 1)) := by
        funext k
        simp only [String.length_append, String.length_singleton, String.length_toList,
          Function.comp_apply]
        omega
      rw [bytes, characters, String.append_assoc, String.append_assoc] at looked
      rw [String.append_assoc] at moved
      rw [wholeOffset?_of_not_whole first goesOn chars, split, Option.map_map]
      exact moved.trans looked

/-- Whatever characters a text and an expression have, the search for the expression from the start
of the text ends, and never cuts a character in two or reaches behind the end. What it ends with is
what `wholeOffset?` gives: the first of the places at which the expression is whole, or nothing if
there is no such place. -/
theorem ends_at_first_place {expr : String} (filled : expr ≠ "") (text : String) :
    let after (n : Nat) := (step text expr)^[n] (looking 0)
    let offset := wholeOffset? expr.toList text.toList
    (∃ n, after n = ended offset)
    ∧ (∀ n, after n ≠ torn ∧ ∀ found, after n = ended found → found = offset)
    ∧ (∀ k, offset = some k ↔ IsLeast (wholePlaces expr text) k)
    ∧ (offset = none ↔ wholePlaces expr text = ∅) := by
  intro after offset
  have ends : Reaches text expr (looking 0) (ended offset) := by
    simpa using reaches_ended filled "" text
  exact ⟨ends, ends.only, fun k => isLeast_wholePlaces_iff.symm, wholePlaces_eq_empty_iff.symm⟩

/-- Two earlier occurrences overlap and run on, and the third one is whole. -/
theorem ends_at_first_place_overlapping :
    (∃ n, (step "éaéaéa_éaé" "éaé")^[n] (looking 0) = ended (some 7))
    ∧ IsLeast (wholePlaces "éaé" "éaéaéa_éaé") 7 := by
  have offset : wholeOffset? "éaé".toList "éaéaéa_éaé".toList = some 7 := by decide +kernel
  have filled : "éaé" ≠ "" := by decide
  obtain ⟨ends, -, first, -⟩ := ends_at_first_place filled "éaéaéa_éaé"
  rw [offset] at ends
  exact ⟨ends, (first 7).mp offset⟩

end Search

end StrategyCanvas.Text
