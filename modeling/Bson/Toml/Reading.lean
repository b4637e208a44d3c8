import Bson.Toml.Scalar

/-!
# Reading TOML

A text is a row of lines: blank ones, headers, and keys with their values, each with a comment if
one is wanted. `Toml.read?` gives the outermost table.
-/

namespace Bson.Toml

open Bson.Text (Scan)
open Bson.Text.Scan

/-- A comment. -/
def comment : Scan Unit := do
  char '#'
  let _ ← takeWhile isShown

/-- Blanks, line breaks and comments between the items of an array. -/
def gap : Scan Unit := do
  let _ ← many (takeWhile1 isBlank <|> lineBreak <|> do
    comment
    lineBreak)

/-- A key with its value. -/
def pair (value : Scan Item) : Scan ((List String × String) × Item) := do
  let k ← key
  char '='
  blanks
  return (k, ← value)

/-- The items of an array, from the first of them on; a comma may follow the last. -/
def items (value : Scan Item) : Scan (List Item) := do
  let first ← value
  let rest ← many do
    gap
    char ','
    gap
    value
  gap
  let _ ← optional (char ',')
  return first :: rest

/-- An array, from its bracket on. -/
def array (value : Scan Item) : Scan Item := do
  char '['
  gap
  let all ← items value <|> pure []
  gap
  char ']'
  return .array all

/-- The fields of a table in braces, from the first of them on. -/
def pairs (value : Scan Item) : Scan (List ((List String × String) × Item)) := do
  let first ← pair value
  blanks
  let rest ← many do
    char ','
    let p ← pair value
    blanks
    return p
  return first :: rest

/-- A table in braces, from its brace on. -/
def inlineTable (value : Scan Item) : Scan Item := do
  char '\x7b'
  blanks
  let pairs ← pairs value <|> pure []
  char '\x7d'
  match pairs.foldlM (fun (t : Table) p => t.storeInline p.1.1 p.1.2 p.2) .empty with
  | some t => return .inlineTable .written t
  | none => failure

/-- A value in which at most a number of arrays and tables lie in one another. -/
def value : Nat → Scan Item
  | 0 => scalar
  | levels + 1 => array (value levels) <|> inlineTable (value levels) <|> scalar

/-- A header: the path of its table, and whether the table is an item of an array. -/
def header : Scan (List String × Bool) :=
  (do
    chars ['[', '[']
    let (path, last) ← key
    chars [']', ']']
    return (path ++ [last], true)) <|> do
    char '['
    let (path, last) ← key
    char ']'
    return (path ++ [last], false)

/-- What a line does to the outline, without its comment. -/
def line (o : Outline) : Scan Outline := do
  blanks
  match ← peek? with
  | some '[' => do
    let (path, isItem) ← header
    match if isItem then o.openItem path else o.openTable path with
    | some o => return o
    | none => failure
  | some c =>
    if c = '#' ∨ c = '\n' ∨ c = '\r' then return o
    else do
      let ((path, last), item) ← pair (value maxNesting)
      match o.store path last item with
      | some o => return o
      | none => failure
  | none => return o

/-- At most a number of lines, up to the end of the text. -/
def lines : Nat → Outline → Scan Outline
  | 0, _ => failure
  | n + 1, o => do
    let o ← line o
    blanks
    let _ ← optional comment
    match ← peek? with
    | none => return o
    | some _ => do
      let _ ← lineBreak
      lines n o

/-- A whole text; a byte order mark may stand in front. -/
def text : Scan Outline := fun cs =>
  let cs := if cs.head? = some '\ufeff' then cs.tail else cs
  lines (cs.length + 1) .empty cs

/-- The outermost table of a text. -/
def read? (s : String) : Option Table := (run? text s).bind Outline.close

end Bson.Toml
