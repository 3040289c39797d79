/-!
# Identifiers of generated code

Which names may stand as they are in generated code, and where one expression occurs in a line of
it without being the front part of a longer identifier.
-/

namespace StrategyCanvas.Text

/-- Letters, digits and the underscore. -/
def isIdentifierChar (c : Char) : Bool := c = '_' || c.isAlphanum

/-- Words of the generated language that are no identifiers. -/
def reservedWords : List String :=
  ["as", "async", "await", "break", "const", "continue", "dyn", "else", "enum", "extern",
   "false", "fn", "for", "if", "impl", "in", "let", "loop", "match", "mod", "move", "mut",
   "pub", "ref", "return", "static", "struct", "trait", "true", "type", "unsafe", "use",
   "where", "while"]

/-- An ASCII identifier: a letter or underscore first, not the underscore alone, no reserved
word. -/
def isIdentifier (name : String) : Bool :=
  match name.toList with
  | [] => false
  | c :: cs =>
    (c = '_' || c.isAlpha) && name != "_" && cs.all isIdentifierChar && !reservedWords.contains name

/-- Splits a path at its double colons, from the left. -/
def splitPath : List Char → List (List Char)
  | [] => [[]]
  | ':' :: ':' :: cs => [] :: splitPath cs
  | c :: cs =>
    match splitPath cs with
    | [] => [[c]]
    | segment :: segments => (c :: segment) :: segments

/-- Identifiers joined by double colons. -/
def isModulePath (path : String) : Bool :=
  (splitPath path.toList).all fun segment => isIdentifier (String.ofList segment)

/-- Whether `text` begins with `expr` and does not go on with an identifier character. -/
def startsWithWhole (expr text : List Char) : Bool :=
  expr.isPrefixOf text && !((text.drop expr.length).head?.any isIdentifierChar)

/-- The number of characters before the first whole occurrence of `expr` in `text`. -/
def wholeOffset? (expr : List Char) : List Char → Option Nat
  | [] => if startsWithWhole expr [] then some 0 else none
  | c :: cs => if startsWithWhole expr (c :: cs) then some 0 else (wholeOffset? expr cs).map (· + 1)

end StrategyCanvas.Text
