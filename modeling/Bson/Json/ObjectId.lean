import Bson.Json.Reading
import Bson.Json.Writing
import Bson.ObjectId

/-!
# Object ids as JSON

The plain JSON form of an object id, apart from extended JSON: the list of its twelve bytes.
-/

namespace Bson

namespace Json

/-- The byte that an integer stands for. -/
def asByte? : Json → Option UInt8
  | .integer n => if 0 ≤ n.toInt ∧ n.toInt < 256 then some (UInt8.ofNat n.toInt.toNat) else none
  | _ => none

/-- The integer that stands for a byte. -/
def ofByte (b : UInt8) : Json := .integer (Int64.ofNat b.toNat)

end Json

namespace ObjectId

/-- The list of the bytes of an id. -/
def toJson (id : ObjectId) : Json := .array (id.bytes.data.toList.map Json.ofByte)

/-- The id whose bytes are listed: twelve integers, each below 256. -/
def ofJson? : Json → Option ObjectId
  | .array items => (items.mapM Json.asByte?).bind fun bytes => (ofBytes bytes.toByteArray).toOption
  | _ => none

/-- The id that a JSON text lists. -/
def ofJsonText? (s : String) : Option ObjectId := (Json.ofText? s).bind ofJson?

end ObjectId

end Bson
