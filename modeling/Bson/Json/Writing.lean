import Bson.Decimal.Layout
import Bson.Json.Basic

/-!
# Writing JSON

* `Json.compact`: without blanks.
* `Json.pretty`: one item or field a line, two blanks for each level, empty containers closed at
  once.

A string is written as it is, but for the quote, the backslash and the characters below U+0020.
-/

namespace Bson.Json

/-- A double has the shortest digits that read back, a tie going to the even one; plain from
`1e-5` up to below `1e16`, else with an exponent; a whole number shows `.0`. -/
def doubleLayout : Decimal.Layout where
  tie := .even
  hasMark e := e < -5 ∨ 15 < e
  wholeEnd := ".0"
  nan := "null"
  infinity := "null"

/-- The letter of a control character that has a short escape. -/
def shortEscape? (c : Char) : Option Char :=
  if c = '\x08' then some 'b'
  else if c = '\x0c' then some 'f'
  else if c = '\n' then some 'n'
  else if c = '\r' then some 'r'
  else if c = '\t' then some 't'
  else none

/-- A character of a string. -/
def escape (c : Char) : List Char :=
  if c = '"' ∨ c = '\\' then ['\\', c]
  else if c.toNat < 0x20 then
    match shortEscape? c with
    | some letter => ['\\', letter]
    | none => ['\\', 'u', '0', '0'] ++ [c.toNat / 16, c.toNat % 16].map Nat.digitChar
  else [c]

/-- A string in quotes. -/
def quote (s : String) : String :=
  String.ofList (['"'] ++ s.toList.flatMap escape ++ ['"'])

/-- The text of a value that holds no other. -/
def scalarText : Json → String
  | .null => "null"
  | .bool b => if b then "true" else "false"
  | .integer n => toString n.toInt
  | .largeInteger n => toString n.toNat
  | .double x => doubleLayout.text x
  | .string s => quote s
  | .array _ => "[]"
  | .object _ => "\x7b\x7d"

mutual

/-- A value without blanks. -/
def compact : Json → String
  | .array items => "[" ++ compactItems true items ++ "]"
  | .object fields => "\x7b" ++ compactFields fields.entries ++ "\x7d"
  | .null => scalarText .null
  | .bool b => scalarText (.bool b)
  | .integer n => scalarText (.integer n)
  | .largeInteger n => scalarText (.largeInteger n)
  | .double x => scalarText (.double x)
  | .string s => scalarText (.string s)

/-- The items of an array; a comma stands before each but the first. -/
def compactItems : Bool → List Json → String
  | _, [] => ""
  | first, v :: rest =>
    (if first then "" else ",") ++ compact v ++ compactItems false rest

/-- The fields of an object; a comma stands between them. -/
def compactFields : {keys : List String} → Entries Json keys → String
  | _, .nil => ""
  | _, @Entries.snoc _ before init key v _ =>
    compactFields init ++ (if before.isEmpty then "" else ",") ++ quote key ++ ":" ++ compact v

end

/-- A line break and the indentation of a level. -/
def newline (level : Nat) : String :=
  String.ofList ('\n' :: List.replicate (2 * level) ' ')

mutual

/-- A value at a level of indentation. -/
def indented (level : Nat) : Json → String
  | .array items =>
    if items.isEmpty then scalarText (.array items)
    else "[" ++ indentedItems (level + 1) true items ++ newline level ++ "]"
  | .object fields =>
    if fields.isEmpty then scalarText (.object fields)
    else "\x7b" ++ indentedFields (level + 1) fields.entries ++ newline level ++ "\x7d"
  | .null => scalarText .null
  | .bool b => scalarText (.bool b)
  | .integer n => scalarText (.integer n)
  | .largeInteger n => scalarText (.largeInteger n)
  | .double x => scalarText (.double x)
  | .string s => scalarText (.string s)

/-- The items of an array, each on its line. -/
def indentedItems (level : Nat) : Bool → List Json → String
  | _, [] => ""
  | first, v :: rest =>
    (if first then "" else ",") ++ newline level ++ indented level v ++
      indentedItems level false rest

/-- The fields of an object, each on its line. -/
def indentedFields (level : Nat) : {keys : List String} → Entries Json keys → String
  | _, .nil => ""
  | _, @Entries.snoc _ before init key v _ =>
    indentedFields level init ++ (if before.isEmpty then "" else ",") ++ newline level ++
      quote key ++ ": " ++ indented level v

end

/-- A value over several lines. -/
def pretty (v : Json) : String := indented 0 v

end Bson.Json
