import Bson.Json.Token

/-!
# Reading JSON

`Json.ofTokens?` builds the value of a list of tokens with a stack of the arrays and objects that
are open. A repeated key of an object keeps its first place and takes its last value. Arrays and
objects nest less than 128 deep.
-/

namespace Bson.Json

/-- An array or object that is open, with what it holds so far. -/
inductive Container
  /-- The items, last first. -/
  | array (items : List Json)
  /-- The fields, and the key whose value is being read. -/
  | object (fields : OrderedMap Json) (key : String)

/-- What may come next; the innermost open container stands first. -/
inductive State
  /-- A value. -/
  | value (stack : List Container)
  /-- The first item of an array, or its end. -/
  | item (stack : List Container)
  /-- The first key of an object, or its end. -/
  | firstKey (stack : List Container)
  /-- A key of an object that has fields. -/
  | nextKey (fields : OrderedMap Json) (stack : List Container)
  /-- The colon after a key. -/
  | colon (fields : OrderedMap Json) (key : String) (stack : List Container)
  /-- A comma or the end of the innermost container. -/
  | separator (stack : List Container)
  /-- Nothing. -/
  | done (result : Json)

namespace State

/-- How deep arrays and objects may nest. -/
def maxDepth : Nat := 127

/-- Puts a complete value where it belongs. -/
def complete (v : Json) : List Container → State
  | [] => .done v
  | .array items :: stack => .separator (.array (v :: items) :: stack)
  | .object fields key :: stack => .separator (.object (fields.insert key v) key :: stack)

/-- Takes the first token of a value. -/
def begin? (stack : List Container) : Token → Option State
  | .null => some (complete .null stack)
  | .bool b => some (complete (.bool b) stack)
  | .integer n => some (complete (.integer n) stack)
  | .largeInteger n => some (complete (.largeInteger n) stack)
  | .double x => some (complete (.double x) stack)
  | .string s => some (complete (.string s) stack)
  | .openArray => if stack.length < maxDepth then some (.item stack) else none
  | .openObject => if stack.length < maxDepth then some (.firstKey stack) else none
  | _ => none

/-- Takes one token. -/
def step? : State → Token → Option State
  | .value stack, token => begin? stack token
  | .item stack, .closeArray => some (complete (.array []) stack)
  | .item stack, token => begin? (.array [] :: stack) token
  | .firstKey stack, .closeObject => some (complete (.object .empty) stack)
  | .firstKey stack, .string key => some (.colon .empty key stack)
  | .nextKey fields stack, .string key => some (.colon fields key stack)
  | .colon fields key stack, .colon => some (.value (.object fields key :: stack))
  | .separator (.array items :: stack), .comma => some (.value (.array items :: stack))
  | .separator (.array items :: stack), .closeArray =>
    some (complete (.array items.reverse) stack)
  | .separator (.object fields _ :: stack), .comma => some (.nextKey fields stack)
  | .separator (.object fields _ :: stack), .closeObject => some (complete (.object fields) stack)
  | _, _ => none

end State

/-- The value that a list of tokens spells. -/
def ofTokens? (tokens : List Token) : Option Json :=
  match tokens.foldlM State.step? (.value []) with
  | some (.done v) => some v
  | _ => none

/-- The value that a text spells. -/
def ofText? (s : String) : Option Json := (Token.scan s).bind ofTokens?

end Bson.Json
