import StrategyCanvas.Text.CharacterRanges

/-!
# Quoted text

A text in double quotes that stays on one line and shows every character: quotes and backslashes
are escaped, the common controls have short names, and any other character that has no glyph of its
own, or that would attach to the one before it, is written by its code point in hexadecimal.
-/

namespace StrategyCanvas.Text

/-- The Hangul fillers: letters that hold the place of a missing one and show nothing. They are the
only letters among the characters of the property `Default_Ignorable_Code_Point`. -/
def isFiller (c : Char) : Bool :=
  let n := c.toNat
  n = 0x115f || n = 0x1160 || n = 0x3164 || n = 0xffa0

/-- The halfwidth voicing marks of Katakana. They count as extending the letter before them, but are
letters of their own, as wide as any other: the only letters of the property `Grapheme_Extend`. -/
def isVoicingLetter (c : Char) : Bool :=
  let n := c.toNat
  n = 0xff9e || n = 0xff9f

/-- Whether a character attaches to the one before it and has no place of its own. -/
def isAttached (c : Char) : Bool :=
  inRanges graphemeExtendRanges c.toNat && !isVoicingLetter c

/-- Whether a character is written by its code point. Plain ASCII never is. -/
def needsCodePoint (c : Char) : Bool :=
  let n := c.toNat
  if 0x20 ≤ n && n < 0x7f then false
  else isAttached c || isFiller c || inRanges unprintableRanges n

/-- A character by its code point, such as `\u` and `7f` in braces. -/
def codePointEscape (c : Char) : List Char :=
  ['\\', 'u', '\x7b'] ++ Nat.toDigits 16 c.toNat ++ ['\x7d']

/-- A character as it stands between double quotes. -/
def quoteChar (c : Char) : List Char :=
  if c = '\x00' then ['\\', '0']
  else if c = '\t' then ['\\', 't']
  else if c = '\r' then ['\\', 'r']
  else if c = '\n' then ['\\', 'n']
  else if c = '"' then ['\\', '"']
  else if c = '\\' then ['\\', '\\']
  else if needsCodePoint c then codePointEscape c
  else [c]

/-- A text in double quotes. -/
def quote (s : String) : String :=
  String.ofList ('"' :: (s.toList.flatMap quoteChar ++ ['"']))

example : quote "a\t\\b\n" = "\"a\\t\\\\b\\n\"" := by cbv

example : codePointEscape '\x7f' = ['\\', 'u', '\x7b', '7', 'f', '\x7d'] := by cbv

end StrategyCanvas.Text
