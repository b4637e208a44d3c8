import Bson.Double.Rounding
import Bson.Text.Numeral
import Bson.Value.Reference

/-!
# Looking into values

* `Value.asBool?` and its like: the content of a value of the right kind.
* `Value.get?`: what stands under a key of a document or at an index of an array.
* `Value.getPath?` and `OrderedMap.getPath?`: what stands at the end of a path, whose segments are
  parted by dots.
-/

namespace Bson

namespace Value

/-- The content of a boolean. -/
def asBool? : Value → Option Bool
  | .boolean b => some b
  | _ => none

/-- The content of a 32-bit integer. -/
def asInt32? : Value → Option Int32
  | .int32 n => some n
  | _ => none

/-- The content of an integer of either width. -/
def asInt64? : Value → Option Int64
  | .int32 n => some n.toInt64
  | .long n => some n.toInt64
  | _ => none

/-- The content of a number of any kind, rounded if it has too many digits. -/
def asDouble? : Value → Option Double
  | .double x => some x
  | .boxedDouble x => some x
  | .int32 n => some (.ofInt n.toInt)
  | .long n => some (.ofInt n.toInt64.toInt)
  | _ => none

/-- The items of an array. -/
def asArray? : Value → Option (List Value)
  | .array items => some items
  | _ => none

/-- The fields of a document. -/
def asDocument? : Value → Option Document
  | .document d => some d
  | _ => none

/-- Whether the value is null. -/
def isNull : Value → Bool
  | .null => true
  | _ => false

/-- What stands under a key: the field of a document, or the item of an array whose index the key
spells. -/
def get? : Value → String → Option Value
  | .document d, key => d.get? key
  | .array items, key => (Text.natural? 10 (2 ^ 64) key).bind (items[·]?)
  | _, _ => none

end Value

namespace Path

/-- The segments of a path given as characters: the parts between dots. -/
def segmentsOf : List Char → List (List Char)
  | [] => [[]]
  | c :: rest =>
    if c = '.' then [] :: segmentsOf rest
    else match segmentsOf rest with
      | [] => [[c]]
      | first :: others => (c :: first) :: others

/-- The segments of a path; there is one at least. -/
def segments (path : String) : List String := (segmentsOf path.toList).map String.ofList

end Path

namespace Value

/-- What stands at the end of the given segments. -/
def follow? (v : Value) : List String → Option Value
  | [] => some v
  | segment :: rest => (v.get? segment).bind (·.follow? rest)

/-- What stands at the end of a path. -/
def getPath? (v : Value) (path : String) : Option Value := v.follow? (Path.segments path)

end Value

namespace OrderedMap

/-- What stands at the end of a path that starts at the fields of a document. -/
def getPath? (d : Document) (path : String) : Option Value :=
  match Path.segments path with
  | [] => none
  | first :: rest => (d.get? first).bind (·.follow? rest)

end OrderedMap

end Bson
