import StrategyCanvas.Text.Identifier

/-!
# Searching by bytes

The search for a whole occurrence of an expression, step by step on a text that is cut by bytes.
From an occurrence that is not whole the search goes on one byte further, or with the next character
if there is none at that byte, so that occurrences that overlap are seen as well.
-/

namespace StrategyCanvas.Text

/-- The text from a byte on, unless that byte is within a character or behind the end. -/
def textFrom? (text : String) (byte : Nat) : Option String :=
  if h : (⟨byte⟩ : String.Pos.Raw).IsValid text then
    some (text.sliceFrom (text.pos ⟨byte⟩ h)).copy
  else none

/-- The text in front of a byte, unless that byte is within a character or behind the end. -/
def textTo? (text : String) (byte : Nat) : Option String :=
  if h : (⟨byte⟩ : String.Pos.Raw).IsValid text then
    some (text.sliceTo (text.pos ⟨byte⟩ h)).copy
  else none

/-- How far a search has come. -/
inductive Search
  /-- It looks for the next occurrence from a byte on. -/
  | looking (start : Nat)
  /-- It moves on to the next character, from a byte on. -/
  | moving (start : Nat)
  /-- It has ended, with the number of characters in front of what it has found. -/
  | ended (offset : Option Nat)
  /-- The text was to be cut within a character or behind its end. -/
  | torn
  deriving DecidableEq, Repr

/-- One step of a search. -/
def Search.step (text expr : String) : Search → Search
  | looking start =>
    match textFrom? text start with
    | none => torn
    | some rest =>
      match rest.find? expr with
      | none => ended none
      | some found =>
        let first := start + found.offset.byteIdx
        match textFrom? text (first + expr.utf8ByteSize) with
        | none => torn
        | some behind =>
          if behind.startsWith isIdentifierChar then moving (first + 1)
          else
            match textTo? text first with
            | none => torn
            | some front => ended (some front.length)
  | moving start =>
    if (⟨start⟩ : String.Pos.Raw).IsValid text then looking start else moving (start + 1)
  | ended offset => ended offset
  | torn => torn

end StrategyCanvas.Text
