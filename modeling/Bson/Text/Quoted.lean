import Bson.Text.Invisible

/-!
# Quoted text

A text or a character as it is shown in a message: between quotes, with a backslash before the
backslash and the quote in use, short escapes for NUL, tab, line feed and carriage return, and the
code point of every other character that does not show.
-/

namespace Bson.Text.Quoted

/-- The code point of a character in an escape. -/
def codePoint (c : Char) : List Char :=
  ['\\', 'u', '\x7b'] ++ Nat.toDigits 16 c.toNat ++ ['\x7d']

/-- A character between quotes of a given kind. -/
def escape (quote c : Char) : List Char :=
  if c = '\x00' then ['\\', '0']
  else if c = '\t' then ['\\', 't']
  else if c = '\n' then ['\\', 'n']
  else if c = '\r' then ['\\', 'r']
  else if c = '\\' ∨ c = quote then ['\\', c]
  else if isInvisible c then codePoint c
  else [c]

/-- A text in double quotes. -/
def text (s : String) : String :=
  String.ofList (['"'] ++ s.toList.flatMap (escape '"') ++ ['"'])

/-- A character in single quotes. -/
def char (c : Char) : String := String.ofList (['\''] ++ escape '\'' c ++ ['\''])

end Bson.Text.Quoted
