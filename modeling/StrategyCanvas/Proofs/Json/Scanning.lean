import Mathlib.Data.List.Basic
import Mathlib.Tactic.SplitIfs
import StrategyCanvas.Json.Token
import StrategyCanvas.Json.Writer

/-!
# Scanning what was written

A quoted text is scanned as the text that was quoted, whatever its characters are
(`scans_quoteText`). Pieces of a document are scanned one by one, each with the rest behind it, and
put together again by `Scans.append`.
-/

namespace StrategyCanvas.Json

/-! ## Texts -/

/-- The escape of a control character is read as its code. -/
theorem hexUnit_control {n : Nat} (h : n < 0x20) (rest : List Char) :
    hexUnit ('0' :: '0' :: hexDigit (n / 16) :: hexDigit n :: rest) = .ok n := by
  have digits : ∀ n < 0x20, (hexDigit (n / 16)).utf8Size = 1 ∧ (hexDigit n).utf8Size = 1
      ∧ hexValue? (hexDigit (n / 16)) = some (n / 16)
      ∧ hexValue? (hexDigit n) = some (n % 16) := by decide
  obtain ⟨high, low, highValue, lowValue⟩ := digits n h
  have zero : hexValue? '0' = some 0 := by decide
  have size : Char.utf8Size '0' = 1 := by decide
  simp only [hexUnit, List.take_succ_cons, List.take_zero, List.foldl_cons, List.foldl_nil, size,
    high, low, zero, highValue, lowValue]
  rw [if_neg (by omega)]
  exact congrArg Except.ok (by omega)

/-- Whatever stands for a character is read as that character. -/
theorem scanText_escapeChar (fuel : Nat) (c : Char) (acc rest : List Char) :
    scanText (fuel + 1) (.ok acc) (escapeChar c ++ rest) = scanText fuel (.ok (c :: acc)) rest := by
  unfold escapeChar
  iterate 7
    split
    · rename_i same
      subst same
      rfl
  rename_i quote backslash _ _ _ _ _
  split
  · rename_i control
    have unit := hexUnit_control control rest
    rw [List.cons_append, List.cons_append, scanText]
    simp only [List.cons_append, List.nil_append, unit]
    rw [if_neg (by omega), if_neg (by omega), Char.ofNat_toNat]
    rfl
  · rename_i visible
    rw [List.singleton_append, scanText, if_neg visible]
    · rfl
    all_goals
      intros
      contradiction

theorem length_le_flatMap_escapeChar (cs : List Char) :
    cs.length ≤ (cs.flatMap escapeChar).length := by
  have some (c : Char) : 1 ≤ (escapeChar c).length := by
    unfold escapeChar
    split_ifs <;> simp
  induction cs with
  | nil => exact Nat.zero_le _
  | cons c cs ih =>
    rw [List.flatMap_cons, List.length_append, List.length_cons]
    have := some c
    omega

/-- A text is scanned up to its closing quote, whatever it says. -/
theorem scanText_flatMap {fuel : Nat} {cs : List Char} (h : cs.length < fuel)
    (acc rest : List Char) : scanText fuel (.ok acc) (cs.flatMap escapeChar ++ '"' :: rest)
      = (.text (String.ofList (acc.reverse ++ cs)), rest) := by
  induction cs generalizing fuel acc with
  | nil =>
    obtain ⟨fuel, rfl⟩ := Nat.exists_eq_succ_of_ne_zero (Nat.ne_of_gt h)
    simp [scanText]
  | cons c cs ih =>
    obtain ⟨fuel, rfl⟩ := Nat.exists_eq_succ_of_ne_zero (Nat.ne_zero_of_lt h)
    rw [List.flatMap_cons, List.append_assoc, scanText_escapeChar, ih (by simpa using h)]
    simp

/-! ## Tokens -/

/-- A text is scanned to some tokens if `rest` stands behind it. Scanning goes on with that rest,
and with enough fuel for it. -/
def Scans (cs : List Char) (ts : List Token) (rest : List Char) : Prop :=
  ∀ fuel, (cs ++ rest).length < fuel → ∃ fuel', rest.length < fuel'
    ∧ Token.scan fuel (cs ++ rest) = ts ++ Token.scan fuel' rest

/-- What is scanned to the end are all tokens of a text. -/
theorem tokens_of_scans {cs : List Char} {ts : List Token} (h : Scans cs ts []) :
    tokens cs = ts := by
  obtain ⟨fuel, -, scanned⟩ := h (cs.length + 1) (by simp)
  have nothing : Token.scan fuel [] = [] := by cases fuel <;> rfl
  rwa [List.append_nil, nothing, List.append_nil] at scanned

section

variable {cs more rest : List Char} {ts us : List Token}

theorem scans_nil (rest : List Char) : Scans [] [] rest := fun fuel enough => ⟨fuel, enough, rfl⟩

theorem Scans.append (h : Scans cs ts (more ++ rest)) (h' : Scans more us rest) :
    Scans (cs ++ more) (ts ++ us) rest := by
  intro fuel enough
  rw [List.append_assoc] at enough ⊢
  obtain ⟨fuel, enough, here⟩ := h fuel enough
  obtain ⟨fuel, enough, there⟩ := h' fuel enough
  exact ⟨fuel, enough, by rw [here, there, List.append_assoc]⟩

theorem scans_spaces (h : ∀ c ∈ cs, isSpace c = true) (rest : List Char) : Scans cs [] rest := by
  induction cs with
  | nil => exact scans_nil rest
  | cons c cs ih =>
    rw [List.forall_mem_cons] at h
    intro fuel enough
    obtain ⟨fuel, rfl⟩ := Nat.exists_eq_succ_of_ne_zero (Nat.ne_zero_of_lt enough)
    obtain ⟨fuel', enough', scanned⟩ := ih h.2 fuel (by simpa using enough)
    exact ⟨fuel', enough', by rw [List.cons_append, Token.scan, if_pos h.1, scanned]⟩

/-- What is told of the first token of a text holds of the scan of the text. -/
theorem scans_of_first {c : Char} {t : Token} (solid : isSpace c = false)
    (h : ∀ fuel, (cs ++ rest).length < fuel → Token.first fuel c (cs ++ rest) = (t, rest)) :
    Scans (c :: cs) [t] rest := by
  intro fuel enough
  obtain ⟨fuel, rfl⟩ := Nat.exists_eq_succ_of_ne_zero (Nat.ne_zero_of_lt enough)
  have enough' : (cs ++ rest).length < fuel := by simpa using enough
  refine ⟨fuel, ?_, ?_⟩
  · rw [List.length_append] at enough'
    omega
  · rw [List.cons_append, Token.scan, if_neg (by simp [solid]), h fuel enough']
    rfl

/-- A quoted text is a single token. -/
theorem scans_quoteText (s : String) (rest : List Char) : Scans (quoteText s) [.text s] rest := by
  refine scans_of_first (by decide) fun fuel enough => ?_
  have few : s.toList.length < fuel := by
    have := length_le_flatMap_escapeChar s.toList
    simp only [List.length_append] at enough
    omega
  rw [List.append_assoc]
  show scanText fuel (.ok []) (s.toList.flatMap escapeChar ++ '"' :: rest) = _
  rw [scanText_flatMap few]
  simp

theorem scans_newLine (depth : Nat) (rest : List Char) : Scans (newLine depth) [] rest := by
  refine scans_spaces ?_ rest
  rw [newLine, List.forall_mem_cons]
  refine ⟨by decide, fun c mem => ?_⟩
  rw [List.eq_of_mem_replicate mem]
  rfl

end

end StrategyCanvas.Json
