import StrategyCanvas.Proofs.Json.Numbers

/-!
# Values in a text

The text of a value is scanned as the tokens of the value and read as the outline of the value, if
every number in it reads back by itself.
-/

namespace StrategyCanvas.Json

mutual

/-- The tokens of a value. -/
def written : Json → List Token
  | .text s => [.text s]
  | .list [] => [.listOpen, .listClose]
  | .list (v :: vs) => .listOpen :: (written v ++ writtenItems vs ++ [.listClose])
  | .object [] => [.objectOpen, .objectClose]
  | .object ((k, v) :: rest) =>
    .objectOpen :: .text k :: .colon :: (written v ++ writtenMembers rest ++ [.objectClose])
  | v => [.scalar v]

/-- The tokens of the items after the first. -/
def writtenItems : List Json → List Token
  | [] => []
  | v :: vs => .comma :: (written v ++ writtenItems vs)

/-- The tokens of the members after the first. -/
def writtenMembers : List (String × Json) → List Token
  | [] => []
  | (k, v) :: rest => .comma :: .text k :: .colon :: (written v ++ writtenMembers rest)

end

mutual

/-- Whether every number in a value is read as that number, wherever it stands in a text. -/
def IsLegible : Json → Prop
  | .int n => 0 ≤ n ∧ n < Nat.pow 2 64
  | .float x => ReadsBack x
  | .list items => AreLegible items
  | .object members => MembersLegible members
  | _ => True

/-- Whether every item is legible. -/
def AreLegible : List Json → Prop
  | [] => True
  | v :: vs => IsLegible v ∧ AreLegible vs

/-- Whether the value of every member is legible. -/
def MembersLegible : List (String × Json) → Prop
  | [] => True
  | (_, v) :: rest => IsLegible v ∧ MembersLegible rest

end

/-- A list is legible if all of its values are. -/
theorem areLegible_map {α : Type} {encode : α → Json} {as : List α}
    (h : ∀ a ∈ as, (encode a).IsLegible) : AreLegible (as.map encode) := by
  induction as with
  | nil => trivial
  | cons a as ih =>
    rw [List.forall_mem_cons] at h
    exact ⟨h.1, ih h.2⟩

/-- Members are legible together if they are on their own. -/
theorem membersLegible_append {members more : List (String × Json)} :
    MembersLegible (members ++ more) ↔ MembersLegible members ∧ MembersLegible more := by
  induction members with
  | nil => simp [MembersLegible]
  | cons m members ih =>
    rw [List.cons_append, MembersLegible, MembersLegible, ih, and_assoc]

/-! ## Scanning -/

section

variable {rest : List Char}

/-- A number ends in front of a comma or a line feed. -/
theorem endsNumber_cons {c : Char} (h : c = ',' ∨ c = '\n') (cs : List Char) :
    EndsNumber (c :: cs) := by
  intro d mem
  cases mem
  obtain rfl | rfl := h <;> decide

/-- A number ends in front of the items that are left. -/
theorem endsNumber_prettyItems (h : EndsNumber rest) (depth : Nat) (vs : List Json) :
    EndsNumber (prettyItems depth vs ++ rest) := by
  cases vs with
  | nil => simpa [prettyItems] using h
  | cons v vs =>
    rw [prettyItems]
    exact endsNumber_cons (Or.inl rfl) _

/-- A number ends in front of the members that are left. -/
theorem endsNumber_prettyMembers (h : EndsNumber rest) (depth : Nat)
    (members : List (String × Json)) : EndsNumber (prettyMembers depth members ++ rest) := by
  cases members with
  | nil => simpa [prettyMembers] using h
  | cons m members =>
    rw [prettyMembers]
    exact endsNumber_cons (Or.inl rfl) _

/-- Punctuation is a token of its own. -/
theorem scans_mark {c : Char} {t : Token} (solid : isSpace c = false)
    (h : ∀ fuel cs, Token.first fuel c cs = (t, cs)) (rest : List Char) : Scans [c] [t] rest :=
  scans_of_first solid fun fuel _ => h fuel _

/-- A scalar that is recognized by its first character is scanned. -/
theorem scans_literal {c : Char} {v : Json} {cs : List Char} (solid : isSpace c = false)
    (h : ∀ fuel rest, Token.first fuel c (cs ++ rest) = (.scalar v, rest)) (rest : List Char) :
    Scans (c :: cs) [.scalar v] rest :=
  scans_of_first solid fun fuel _ => h fuel rest

/-- Spaces in front of a text are skipped. -/
theorem Scans.after_blank {cs more : List Char} {ts : List Token} (h : Scans cs [] (more ++ rest))
    (h' : Scans more ts rest) : Scans (cs ++ more) ts rest := h.append h'

theorem scans_comma (rest : List Char) : Scans [','] [.comma] rest :=
  scans_mark (by decide) (fun _ _ => rfl) rest

/-- A colon and a blank between a key and its value. -/
theorem scans_colon (rest : List Char) : Scans [':', ' '] [.colon] rest := by
  have blank : Scans [' '] [] rest := scans_spaces (by simp [isSpace]) rest
  exact (scans_mark (c := ':') (by decide) (fun _ _ => rfl) _).append blank

/-- A line that starts with a key. -/
theorem scans_member (depth : Nat) (k : String) {cs : List Char} {ts : List Token}
    (h : Scans cs ts rest) :
    Scans (newLine depth ++ (quoteText k ++ ([':', ' '] ++ cs))) (.text k :: .colon :: ts) rest :=
  (scans_newLine depth _).after_blank ((scans_quoteText k _).append ((scans_colon _).append h))

mutual

/-- The induction is on the value. The pieces of a list or an object are put together from the last
one on, as each is scanned with those behind it as its rest. -/
theorem scans_prettyChars (depth : Nat) (v : Json) (h : v.IsLegible) (rest : List Char)
    (ends : EndsNumber rest) : Scans (prettyChars depth v) v.written rest := by
  match v with
  | .null => exact scans_literal (by decide) (fun _ _ => rfl) rest
  | .bool true => exact scans_literal (by decide) (fun _ _ => rfl) rest
  | .bool false => exact scans_literal (by decide) (fun _ _ => rfl) rest
  | .int n =>
    rw [IsLegible] at h
    obtain ⟨m, rfl⟩ := Int.eq_ofNat_of_zero_le h.1
    exact scans_intText (by exact_mod_cast h.2) ends
  | .float x =>
    rw [IsLegible] at h
    exact scans_floatText h ends
  | .text s => exact scans_quoteText s rest
  | .list [] =>
    exact (scans_mark (c := '[') (by decide) (fun _ _ => rfl) _).append
      (scans_mark (by decide) (fun _ _ => rfl) rest)
  | .list (v :: vs) =>
    rw [IsLegible, AreLegible] at h
    have closing := (scans_newLine depth _).after_blank
      (scans_mark (c := ']') (by decide) (fun _ _ => rfl) rest)
    have behind : EndsNumber (newLine depth ++ [']'] ++ rest) := endsNumber_cons (Or.inr rfl) _
    have items := (scans_prettyItems (depth + 1) vs h.2 _ behind).append closing
    have value := (scans_prettyChars (depth + 1) v h.1 _
      (by simpa using endsNumber_prettyItems behind (depth + 1) vs)).append items
    have all := (scans_mark (c := '[') (by decide) (fun _ _ => rfl) _).append
      ((scans_newLine (depth + 1) _).after_blank value)
    simpa [prettyChars, written] using all
  | .object [] =>
    exact (scans_mark (c := '\x7b') (by decide) (fun _ _ => rfl) _).append
      (scans_mark (by decide) (fun _ _ => rfl) rest)
  | .object ((k, v) :: members) =>
    rw [IsLegible, MembersLegible] at h
    have closing := (scans_newLine depth _).after_blank
      (scans_mark (c := '\x7d') (by decide) (fun _ _ => rfl) rest)
    have behind : EndsNumber (newLine depth ++ ['\x7d'] ++ rest) := endsNumber_cons (Or.inr rfl) _
    have more := (scans_prettyMembers (depth + 1) members h.2 _ behind).append closing
    have value := (scans_prettyChars (depth + 1) v h.1 _
      (by simpa using endsNumber_prettyMembers behind (depth + 1) members)).append more
    have all := (scans_mark (c := '\x7b') (by decide) (fun _ _ => rfl) _).append
      (scans_member (depth + 1) k value)
    simpa [prettyChars, written] using all

/-- The items of a list are scanned one after the other. -/
theorem scans_prettyItems (depth : Nat) (vs : List Json) (h : AreLegible vs) (rest : List Char)
    (ends : EndsNumber rest) : Scans (prettyItems depth vs) (writtenItems vs) rest := by
  match vs with
  | [] => exact scans_nil rest
  | v :: vs =>
    rw [AreLegible] at h
    have items := scans_prettyItems depth vs h.2 rest ends
    have value :=
      (scans_prettyChars depth v h.1 _ (endsNumber_prettyItems ends depth vs)).append items
    have all := (scans_comma _).append ((scans_newLine depth _).after_blank value)
    simpa [prettyItems, writtenItems] using all

/-- The members of an object are scanned one after the other. -/
theorem scans_prettyMembers (depth : Nat) (members : List (String × Json))
    (h : MembersLegible members) (rest : List Char) (ends : EndsNumber rest) :
    Scans (prettyMembers depth members) (writtenMembers members) rest := by
  match members with
  | [] => exact scans_nil rest
  | (k, v) :: members =>
    rw [MembersLegible] at h
    have more := scans_prettyMembers depth members h.2 rest ends
    have value := (scans_prettyChars depth v h.1 _
      (endsNumber_prettyMembers ends depth members)).append more
    have all := (scans_comma _).append (scans_member depth k value)
    simpa [prettyMembers, writtenMembers] using all

end

/-- The text of a legible value has the tokens that it was written with. -/
theorem tokens_pretty {v : Json} (h : v.IsLegible) : tokens v.pretty.toList = v.written := by
  rw [pretty, String.toList_ofList]
  exact tokens_of_scans (scans_prettyChars 0 v h [] (by simp [EndsNumber]))

end

/-! ## Reading -/

/-- A value does not start like the end of a list. -/
theorem exists_written_eq_cons (v : Json) : ∃ t ts, v.written = t :: ts ∧ t ≠ .listClose := by
  unfold written
  split
  all_goals exact ⟨_, _, rfl, by simp⟩

/-- Every value is written with a token at least. -/
theorem written_length_pos (v : Json) : 0 < v.written.length := by
  obtain ⟨t, ts, tokens, -⟩ := exists_written_eq_cons v
  simp [tokens]

namespace Outline

/-- A list with something in it is read item by item. -/
theorem readValue_listOpen (fuel : Nat) {t : Token} (h : t ≠ .listClose) (ts : List Token) :
    readValue (fuel + 1) (.listOpen :: t :: ts) =
      (.list (readItems fuel (t :: ts)).1 (readItems fuel (t :: ts)).2.1,
        (readItems fuel (t :: ts)).2.2) := by
  rw [readValue]
  · simp
  · rintro rest ⟨⟩
    exact h rfl

mutual

/-- With four calls for each token, a value is read and nothing behind it. -/
theorem readValue_written (fuel : Nat) (v : Json) (enough : 4 * v.written.length ≤ fuel)
    (rest : List Token) : readValue fuel (v.written ++ rest) = (ofValue v, rest) := by
  match fuel with
  | 0 =>
    have := written_length_pos v
    omega
  | fuel + 1 =>
    match v with
    | .null | .bool b | .int n | .float x | .text s => rfl
    | .list [] => rfl
    | .list (v :: vs) =>
      simp only [written, List.length_cons, List.length_append] at enough
      have items := readItems_written fuel v vs (by omega) rest
      obtain ⟨t, ts, first, other⟩ := exists_written_eq_cons v
      simp only [written, List.cons_append, List.append_assoc, List.nil_append]
      rw [first, List.cons_append] at items ⊢
      rw [readValue_listOpen fuel other, items]
      rfl
    | .object [] => rfl
    | .object ((k, v) :: members) =>
      simp only [written, List.length_cons, List.length_append] at enough
      have members := readMembers_written fuel k v members (by omega) rest
      simp only [written, List.cons_append, List.append_assoc, List.nil_append]
      rw [readValue, members]
      · rfl
      all_goals simp

/-- Items are read back, up to the end of their list. -/
theorem readItems_written (fuel : Nat) (v : Json) (vs : List Json)
    (enough : 4 * (v.written.length + (writtenItems vs).length) + 1 ≤ fuel) (rest : List Token) :
    readItems fuel (v.written ++ (writtenItems vs ++ .listClose :: rest))
      = (ofItems (v :: vs), none, rest) := by
  match fuel with
  | fuel + 1 =>
    rw [readItems, readValue_written fuel v (by omega)]
    match vs with
    | [] => rfl
    | w :: ws =>
      simp only [writtenItems, List.length_cons, List.length_append] at enough
      have := readItems_written fuel w ws (by omega) rest
      simp only [writtenItems, List.cons_append, List.append_assoc, this]
      rfl

/-- Members are read back, up to the end of their object. -/
theorem readMembers_written (fuel : Nat) (k : String) (v : Json) (members : List (String × Json))
    (enough : 4 * (v.written.length + (writtenMembers members).length) + 3 ≤ fuel)
    (rest : List Token) :
    readMembers fuel
        (.text k :: .colon :: (v.written ++ (writtenMembers members ++ .objectClose :: rest)))
      = (ofMembers ((k, v) :: members), none, rest) := by
  match fuel with
  -- One call each for the members, the key and the colon come before that for the value.
  | fuel + 3 =>
    rw [readMembers, readMember, readMemberValue, readValue_written fuel v (by omega)]
    match members with
    | [] => rfl
    | (l, w) :: more =>
      simp only [writtenMembers, List.length_cons, List.length_append] at enough
      have := readMembers_written (fuel + 2) l w more (by omega) rest
      simp only [writtenMembers, List.cons_append, List.append_assoc, this]
      rfl

end

/-- The text of a legible value is read as the outline of the value. -/
theorem ofText_pretty {v : Json} (h : v.IsLegible) : ofText v.pretty = (ofValue v, none) := by
  have read := readValue_written (4 * v.written.length + 4) v (by omega) []
  rw [List.append_nil] at read
  rw [ofText, tokens_pretty h]
  dsimp only
  rw [read]
  rfl

end Outline

/-- Reading the text of a legible value is decoding its outline. -/
theorem decodeText_pretty {α : Type} (decode : Decoder α) {v : Json} (h : v.IsLegible) :
    decodeText decode v.pretty = decode .wholeText (.ofValue v) := by
  rw [decodeText, Outline.ofText_pretty h]
  dsimp only
  cases decode .wholeText (.ofValue v) <;> rfl

end StrategyCanvas.Json
