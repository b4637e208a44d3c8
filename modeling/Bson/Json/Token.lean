import Bson.Decimal.Parts
import Bson.Json.Basic

/-!
# JSON tokens

The lexical part of JSON: `Token.scan` cuts a text into tokens, character by character, with a
`Mode` that says what the last characters have begun.

A run of characters that is no punctuation, blank or quote is a word, and a word is a literal or a
number. Since every word ends at punctuation, a blank, a quote or the end, cutting words as long
as possible refuses no text that the grammar accepts.
-/

namespace Bson.Json

/-- The tokens of JSON. -/
inductive Token
  | openArray
  | closeArray
  | openObject
  | closeObject
  | comma
  | colon
  | null
  | bool (b : Bool)
  | integer (n : Int64)
  | largeInteger (n : UInt64)
  | double (x : Double)
  | string (s : String)
  deriving DecidableEq

namespace Token

/-- What the characters read last have begun; texts are kept last character first. -/
inductive Mode
  /-- Between tokens. -/
  | ready
  /-- Within a word. -/
  | word (chars : List Char)
  /-- Within a string. -/
  | text (chars : List Char)
  /-- After a backslash in a string. -/
  | escape (chars : List Char)
  /-- Within the four digits of a code unit, after `digits` of them. -/
  | unit (chars : List Char) (digits value : Nat)
  /-- After the high half of a surrogate pair. -/
  | lowMark (chars : List Char) (high : Nat)
  /-- After the high half of a surrogate pair and a backslash. -/
  | lowEscape (chars : List Char) (high : Nat)
  /-- Within the four digits of the low half of a surrogate pair. -/
  | lowUnit (chars : List Char) (high digits value : Nat)

/-- Whether a numeral has the form of a JSON number. -/
def isJsonNumber (n : Text.Numeral) : Bool :=
  n.sign ≠ some '+' ∧ (n.whole = ['0'] ∨ (n.whole ≠ [] ∧ n.whole.head? ≠ some '0')) ∧
    n.fraction ≠ some []

/-- The token of a number: a whole number of 64 bits is taken as it is, any other number is read by
its parts. Too large a number has none. -/
def ofNumeral? (n : Text.Numeral) : Option Token :=
  let c := n.coefficient
  if n.isWhole ∧ ¬ n.isNegative ∧ c < 2 ^ 63 then some (.integer (Int64.ofNat c))
  else if n.isWhole ∧ ¬ n.isNegative ∧ c < 2 ^ 64 then some (.largeInteger (UInt64.ofNat c))
  else if n.isWhole ∧ n.isNegative ∧ c ≠ 0 ∧ c ≤ 2 ^ 63 then
    some (.integer (Int64.ofInt (-(c : Int))))
  else (n.parts.byParts? n.isNegative).map .double

/-- The token of a word. -/
def ofWord? (chars : List Char) : Option Token :=
  if chars = ['n', 'u', 'l', 'l'] then some .null
  else if chars = ['t', 'r', 'u', 'e'] then some (.bool true)
  else if chars = ['f', 'a', 'l', 's', 'e'] then some (.bool false)
  else ((Text.Numeral.ofChars? chars).filter isJsonNumber).bind ofNumeral?

/-- The token that is a single character. -/
def ofPunctuation? : Char → Option Token
  | '[' => some .openArray
  | ']' => some .closeArray
  | '\x7b' => some .openObject
  | '\x7d' => some .closeObject
  | ',' => some .comma
  | ':' => some .colon
  | _ => none

/-- Whether a character is a blank. -/
def isBlank (c : Char) : Bool := c = ' ' ∨ c = '\n' ∨ c = '\r' ∨ c = '\t'

/-- Starts on a character between tokens. -/
def start (c : Char) : Mode × List Token :=
  match ofPunctuation? c with
  | some token => (.ready, [token])
  | none => if isBlank c then (.ready, []) else if c = '"' then (.text [], []) else (.word [c], [])

/-- The character that a letter stands for after a backslash. -/
def unescape? : Char → Option Char
  | '"' => some '"'
  | '\\' => some '\\'
  | '/' => some '/'
  | 'b' => some '\x08'
  | 'f' => some '\x0c'
  | 'n' => some '\n'
  | 'r' => some '\r'
  | 't' => some '\t'
  | _ => none

/-- Where a string goes on after a code unit that is complete. -/
def afterUnit? (chars : List Char) (value : Nat) : Option Mode :=
  if 0xD800 ≤ value ∧ value < 0xDC00 then some (.lowMark chars value)
  else if 0xDC00 ≤ value ∧ value < 0xE000 then none
  else some (.text (Char.ofNat value :: chars))

/-- Where a string goes on after a surrogate pair that is complete. -/
def afterPair? (chars : List Char) (high low : Nat) : Option Mode :=
  if 0xDC00 ≤ low ∧ low < 0xE000 then
    some (.text (Char.ofNat (0x10000 + (high - 0xD800) * 0x400 + (low - 0xDC00)) :: chars))
  else none

/-- Takes one character: the mode after it and the tokens that it completes. -/
def step? : Mode → Char → Option (Mode × List Token)
  | .ready, c => some (start c)
  | .word chars, c =>
    if (ofPunctuation? c).isSome ∨ isBlank c ∨ c = '"' then
      (ofWord? chars.reverse).map fun token => ((start c).1, token :: (start c).2)
    else some (.word (c :: chars), [])
  | .text chars, c =>
    if c = '"' then some (.ready, [.string (String.ofList chars.reverse)])
    else if c = '\\' then some (.escape chars, [])
    else if c.toNat < 0x20 then none
    else some (.text (c :: chars), [])
  | .escape chars, c =>
    if c = 'u' then some (.unit chars 0 0, [])
    else (unescape? c).map fun c' => (.text (c' :: chars), [])
  | .unit chars digits value, c =>
    (Text.digit? 16 c).bind fun d =>
      if digits = 3 then (afterUnit? chars (value * 16 + d)).map (·, [])
      else some (.unit chars (digits + 1) (value * 16 + d), [])
  | .lowMark chars high, c => if c = '\\' then some (.lowEscape chars high, []) else none
  | .lowEscape chars high, c => if c = 'u' then some (.lowUnit chars high 0 0, []) else none
  | .lowUnit chars high digits value, c =>
    (Text.digit? 16 c).bind fun d =>
      if digits = 3 then (afterPair? chars high (value * 16 + d)).map (·, [])
      else some (.lowUnit chars high (digits + 1) (value * 16 + d), [])

/-- The tokens that the end of the text completes. -/
def finish? : Mode → Option (List Token)
  | .ready => some []
  | .word chars => (ofWord? chars.reverse).map ([·])
  | _ => none

/-- The tokens of the characters ahead, in a mode. -/
def scanFrom : Mode → List Char → Option (List Token)
  | mode, [] => finish? mode
  | mode, c :: rest => do
    let (mode, tokens) ← step? mode c
    return tokens ++ (← scanFrom mode rest)

/-- The tokens of a text. -/
def scan (s : String) : Option (List Token) := scanFrom .ready s.toList

end Token

end Bson.Json
