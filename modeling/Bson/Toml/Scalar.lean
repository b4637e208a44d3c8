import Bson.Calendar.Rfc3339
import Bson.Decimal.Reading
import Bson.Text.Scan
import Bson.Toml.Table

/-!
# TOML keys and scalars

* Strings in their four forms: `quoted` and `literal`, each on one line or between threefold
  quotes over several.
* Words: numbers, booleans and dates, which are cut out whole and then told apart by their form.
* Keys: bare or in quotes, parted by dots.
-/

namespace Bson.Toml

open Bson.Text (Scan)
open Bson.Text.Scan

/-- A blank within a line. -/
def isBlank (c : Char) : Bool := c = ' ' ∨ c = '\t'

/-- Blanks within a line. -/
def blanks : Scan Unit := do let _ ← takeWhile isBlank

/-- A character that may stand in a comment or a string: no control character but the tab. -/
def isShown (c : Char) : Bool := c = '\t' ∨ (0x20 ≤ c.toNat ∧ c.toNat ≠ 0x7F)

/-- A line break. -/
def lineBreak : Scan (List Char) := do
  match ← satisfy fun c => c = '\n' ∨ c = '\r' with
  | '\n' => return ['\n']
  | _ =>
    char '\n'
    return ['\r', '\n']

/-- A code point given by a number of hexadecimal digits. -/
def codePoint (width : Nat) : Scan (List Char) := do
  let ds ← count width fun c => (Text.digit? 16 c).isSome
  let n := (Text.digitsValue? 16 ds).getD 0
  if h : n.isValidChar then return [Char.ofNatAux n h] else failure

/-- An escape after its backslash. -/
def escaped : Scan (List Char) := do
  match ← satisfy fun _ => true with
  | 'b' => return ['\x08']
  | 't' => return ['\t']
  | 'n' => return ['\n']
  | 'f' => return ['\x0c']
  | 'r' => return ['\r']
  | '"' => return ['"']
  | '\\' => return ['\\']
  | 'u' => codePoint 4
  | 'U' => codePoint 8
  | _ => failure

/-- A piece of a quoted string: characters as they are, or an escape. -/
def quotedPiece : Scan (List Char) := do
  match ← peek? with
  | some '\\' => do
    char '\\'
    escaped
  | _ => takeWhile1 fun c => isShown c ∧ c ≠ '"' ∧ c ≠ '\\'

/-- A backslash at the end of a line, with the blanks and line breaks after it. -/
def continuation : Scan (List Char) := do
  char '\\'
  blanks
  let _ ← lineBreak
  let _ ← many (takeWhile1 isBlank <|> lineBreak)
  return []

/-- A quote mark that does not begin a threefold one. -/
def loneMark (mark : Char) : Scan (List Char) := fun cs =>
  match cs with
  | a :: rest => if a = mark ∧ ¬ (rest.take 2 = [mark, mark]) then some ([mark], rest) else none
  | [] => none

/-- The end of a string between threefold marks, with up to two marks that belong to the string. -/
def closeThreefold (mark : Char) : Scan (List Char) := do
  chars [mark, mark, mark]
  let first ← optional (char mark)
  let second ← optional (char mark)
  return List.replicate (first.toList.length + second.toList.length) mark

/-- A string between threefold marks, made of pieces. -/
def threefold (mark : Char) (piece : Scan (List Char)) : Scan String := do
  chars [mark, mark, mark]
  let _ ← optional lineBreak
  let pieces ← many (piece <|> lineBreak <|> loneMark mark)
  let last ← closeThreefold mark
  return String.ofList (pieces.flatten ++ last)

/-- A string between single marks, made of pieces. -/
def single (mark : Char) (piece : Scan (List Char)) : Scan String := do
  char mark
  let pieces ← many piece
  char mark
  return String.ofList pieces.flatten

/-- The mark of literal strings. -/
def literalMark : Char := Char.ofNat 0x27

/-- A piece of a literal string. -/
def literalPiece : Scan (List Char) := takeWhile1 fun c => isShown c ∧ c ≠ literalMark

/-- A string on one line. -/
def lineString : Scan String := single '"' quotedPiece <|> single literalMark literalPiece

/-- A string of any form. -/
def string : Scan String :=
  threefold '"' (continuation <|> quotedPiece) <|> threefold literalMark literalPiece <|>
    lineString

/-- A character of a bare key. -/
def isBare (c : Char) : Bool := c.isAlphanum ∨ c = '_' ∨ c = '-'

/-- A key without dots. -/
def simpleKey : Scan String := lineString <|> return String.ofList (← takeWhile1 isBare)

/-- How many arrays, tables in braces and parts of a key may lie in one another. -/
def maxNesting : Nat := 79

/-- A dotted key: the keys before the last, and the last. -/
def key : Scan (List String × String) := do
  blanks
  let first ← simpleKey
  blanks
  let rest ← many do
    char '.'
    blanks
    let k ← simpleKey
    blanks
    return k
  let all := first :: rest
  match all.getLast? with
  | some last => if all.length ≤ maxNesting then return (all.dropLast, last) else failure
  | none => failure

/-- A character of a word. -/
def isWordChar (c : Char) : Bool :=
  c.isAlphanum ∨ c = '_' ∨ c = '-' ∨ c = '+' ∨ c = '.' ∨ c = ':'

/-- The digits of a run in which single underscores may part digits. -/
def ungrouped? (base : Nat) : List Char → Option (List Char)
  | [] => none
  | [c] => if (Text.digit? base c).isSome then some [c] else none
  | c :: '_' :: rest =>
    if (Text.digit? base c).isSome then (ungrouped? base rest).map (c :: ·) else none
  | c :: d :: rest =>
    if (Text.digit? base c).isSome then (ungrouped? base (d :: rest)).map (c :: ·) else none

/-- The digits of a whole number, which has no leading zero. -/
def wholeDigits? (cs : List Char) : Option (List Char) :=
  (ungrouped? 10 cs).filter fun ds => ds.head? ≠ some '0' ∨ ds = ['0']

/-- An integer in decimal, or without sign after a mark of its base. -/
def integer? : List Char → Option Int64
  | '0' :: 'x' :: rest => based 16 rest
  | '0' :: 'o' :: rest => based 8 rest
  | '0' :: 'b' :: rest => based 2 rest
  | cs =>
    let (sign, ds) := Text.splitSign cs
    (wholeDigits? ds).bind fun ds =>
      (Text.integer? (-2 ^ 63) (2 ^ 63 - 1) (String.ofList (sign.toList ++ ds))).map Int64.ofInt
where
  /-- An integer in a base. -/
  based (base : Nat) (cs : List Char) : Option Int64 :=
    (ungrouped? base cs).bind fun ds =>
      ((Text.digitsValue? base ds).filter (· < 2 ^ 63)).map Int64.ofNat

/-- The digits of an exponent with its sign. -/
def exponentDigits? (cs : List Char) : Option (List Char) :=
  let (sign, ds) := Text.splitSign cs
  (ungrouped? 10 ds).map (sign.toList ++ ·)

/-- Whether a character marks an exponent. -/
def isExponentMark (c : Char) : Bool := c = 'e' ∨ c = 'E'

/-- The exponent of a float, from its mark on. -/
def exponentPart? (cs : List Char) : Option (List Char) :=
  match cs with
  | [] => some []
  | _ :: rest => (exponentDigits? rest).map ('e' :: ·)

/-- The text of a float without underscores. -/
def floatText? (cs : List Char) : Option (List Char) := do
  let (sign, cs) := Text.splitSign cs
  let mantissa := cs.takeWhile fun c => !isExponentMark c
  let exponent := cs.dropWhile fun c => !isExponentMark c
  let whole ← wholeDigits? (mantissa.takeWhile (· ≠ '.'))
  let tail ← exponentPart? exponent
  match mantissa.dropWhile (· ≠ '.') with
  | [] => if exponent.isEmpty then none else return sign.toList ++ whole ++ tail
  | _ :: fraction =>
    return sign.toList ++ whole ++ '.' :: (← ungrouped? 10 fraction) ++ tail

/-- A float; one that is too large is refused. -/
def float? (cs : List Char) : Option Double :=
  let (sign, word) := Text.splitSign cs
  if word = ['i', 'n', 'f'] then some (.infinity (sign = some '-'))
  else if word = ['n', 'a', 'n'] then some (.nan (sign = some '-'))
  else
    (floatText? cs).bind fun text =>
      ((Double.ofText? (String.ofList text)).filter fun x => x ≠ .infinity false)

/-- A date, a time, or both with or without an offset. -/
def dateTime : Scan Unit :=
  (do
    let _ ← Calendar.Rfc3339.date
    let _ ← optional do
      let _ ← satisfy fun c => c = 'T' ∨ c = 't'
      let _ ← Calendar.Rfc3339.time
      optional Calendar.Rfc3339.offset
    atEnd) <|> do
    let _ ← Calendar.Rfc3339.time
    atEnd

/-- A time with or without an offset. -/
def timeOfDay : Scan Unit := do
  let _ ← Calendar.Rfc3339.time
  let _ ← optional Calendar.Rfc3339.offset
  atEnd

/-- A date alone. -/
def dateAlone : Scan Unit := do
  let _ ← Calendar.Rfc3339.date
  atEnd

/-- The scalar of a word. -/
def ofWord? (word : List Char) : Option Item :=
  if word = ['t', 'r', 'u', 'e'] then some (.boolean true)
  else if word = ['f', 'a', 'l', 's', 'e'] then some (.boolean false)
  else
    ((integer? word).map Item.integer).orElse fun _ =>
      ((float? word).map Item.float).orElse fun _ => (dateTime word).map fun _ => .dateTime

/-- A time after a date and a blank. -/
def blankTime : Scan Unit := do
  char ' '
  let word ← takeWhile1 isWordChar
  if (timeOfDay word).isSome then pure () else failure

/-- A number, a boolean or a date. -/
def word : Scan Item := do
  let word ← takeWhile1 isWordChar
  match ofWord? word with
  | none => failure
  | some item =>
    if (dateAlone word).isSome then
      let _ ← optional blankTime
    return item

/-- A scalar. -/
def scalar : Scan Item := (return .string (← string)) <|> word

end Bson.Toml
