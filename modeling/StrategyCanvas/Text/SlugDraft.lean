import StrategyCanvas.Text.Slug

/-!
# Slugs while a name is read

The slug of a name, written character by character. Whatever is neither a letter nor a digit is
dropped. An underscore is due from there on, but is not written before another letter or digit
comes, nor in front of the first one.
-/

namespace StrategyCanvas.Text

/-- What is written of a slug so far, and whether an underscore is due. -/
structure SlugDraft where
  text : String
  isPending : Bool
  deriving DecidableEq, Repr

namespace SlugDraft

/-- The draft when one more character of the name has been read. -/
def read (d : SlugDraft) (c : Char) : SlugDraft :=
  if c.isAlphanum then
    let text := if d.isPending && !d.text.isEmpty then d.text.push '_' else d.text
    ⟨text.push c.toLower, false⟩
  else ⟨d.text, true⟩

/-- The slug when the name has been read. -/
def finish (d : SlugDraft) : String := if d.text.isEmpty then "block" else d.text

end SlugDraft

/-- The slug of a name, written while the name is read. -/
def slugByCharacters (name : String) : String :=
  (name.toList.foldl SlugDraft.read ⟨"", false⟩).finish

end StrategyCanvas.Text
