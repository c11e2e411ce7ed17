import TypedImp.Text.Unprintable
import TypedImp.Text.GraphemeExtend

/-!
# Quoted text

Messages show a piece of source between double quotes.  Inside, the quote and the backslash are
escaped, the common control characters have their short escapes, and every other character that
would be invisible or would merge with its neighbour is written by its code point.

* `Text.escape`: the written form of one character.
* `Text.quote`: a whole text between quotes.
-/

namespace TypedImp.Text

/-- A code point written out, as in `\u{200b}`. -/
def codePointEscape (c : Char) : List Char :=
  ['\\', 'u', '\x7b'] ++ Nat.toDigits 16 c.toNat ++ ['\x7d']

/-- Whether a character is shown as itself between quotes. -/
def isShown (c : Char) : Bool :=
  -- Visible ASCII is by far the most common case and needs no table.
  (0x20 ≤ c.toNat && c.toNat < 0x7F) || (!extendsGrapheme c && isPrintable c)

/-- The written form of one character between quotes. -/
def escape (c : Char) : List Char :=
  if c = '"' then ['\\', '"']
  else if c = '\\' then ['\\', '\\']
  else if c = '\n' then ['\\', 'n']
  else if c = '\r' then ['\\', 'r']
  else if c = '\t' then ['\\', 't']
  else if c = '\x00' then ['\\', '0']
  else if isShown c then [c]
  else codePointEscape c

/-- A text between double quotes, with escapes. -/
def quote (s : String) : String :=
  String.ofList ('"' :: s.toList.flatMap escape ++ ['"'])

end TypedImp.Text
