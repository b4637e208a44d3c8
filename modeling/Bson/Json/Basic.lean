import Bson.Double.Basic
import Bson.OrderedMap

/-!
# JSON values

JSON with ordered objects. A number is a signed 64-bit integer, or an unsigned one beyond that
range, or a double; the three are written differently, so they are told apart.
-/

namespace Bson

/-- A JSON value. -/
inductive Json
  | null
  | bool (b : Bool)
  | integer (n : Int64)
  /-- A whole number beyond the signed range. -/
  | largeInteger (n : UInt64)
  | double (x : Double)
  | string (s : String)
  | array (items : List Json)
  | object (fields : OrderedMap Json)

namespace Json

instance : Inhabited Json := ⟨.null⟩

/-- The object with the given pairs. -/
def ofPairs (pairs : List (String × Json)) : Json := .object (.ofList pairs)

/-- The text of a string value. -/
def asString? : Json → Option String
  | .string s => some s
  | _ => none

/-- The value under a key of an object. -/
def get? : Json → String → Option Json
  | .object fields, key => fields.get? key
  | _, _ => none

end Json

end Bson
