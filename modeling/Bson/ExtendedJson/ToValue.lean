import Bson.Calendar.Rfc3339
import Bson.Decimal.Reading
import Bson.Double.Rounding
import Bson.Error
import Bson.Json.Reading
import Bson.Text.Base64
import Bson.Value.Reference

/-!
# Extended JSON as values

An object with a `$code` field is code; one whose only key is that of a wrapper is the value
wrapped; one with the fields of a reference is a reference; any other object is a document. The
outermost object of a document and the scope of code are taken as documents whatever their keys.

* `ExtendedJson.toValue`: the value of JSON.
* `ExtendedJson.toDocument` and `ExtendedJson.parseDocument`: the document of JSON or of its text.
-/

namespace Bson.ExtendedJson

/-- Refuses JSON for a cause. -/
def refuse {α : Type} (fault : JsonFault) : Except Error α := .error (.invalidJson fault)

/-- The text of a JSON string, which a field or wrapper of a given name holds. -/
def expectText (name : String) (v : Json) : Except Error String :=
  match v.asString? with
  | some s => .ok s
  | none => refuse (.notString name)

/-- A field of an object. -/
def field (v : Json) (name : String) : Except Error Json :=
  match v.get? name with
  | some v => .ok v
  | none => refuse (.missingField name)

/-- The text in a field of an object. -/
def textField (v : Json) (name : String) : Except Error String := do
  expectText name (← field v name)

/-- The unsigned 32-bit integer of JSON. -/
def expectUInt32 (name : String) : Json → Except Error UInt32
  | .integer n =>
    if 0 ≤ n.toInt ∧ n.toInt < 2 ^ 32 then .ok (UInt32.ofNat n.toInt.toNat)
    else refuse (.notUInt32 name)
  | _ => refuse (.notUInt32 name)

/-- The integer between two bounds that the text in a number wrapper spells. -/
def boundedInteger (wrapper : String) (least greatest : Int) (v : Json) : Except Error Int := do
  let s ← expectText wrapper v
  match Text.integer? least greatest s with
  | some n => .ok n
  | none => refuse (.badNumber wrapper s)

/-- The 32-bit integer in a wrapper. -/
def wrappedInt32 (v : Json) : Except Error Int32 :=
  return Int32.ofInt (← boundedInteger "$numberInt" (-2 ^ 31) (2 ^ 31 - 1) v)

/-- The 64-bit integer in a wrapper. -/
def wrappedInt64 (v : Json) : Except Error Int64 :=
  return Int64.ofInt (← boundedInteger "$numberLong" (-2 ^ 63) (2 ^ 63 - 1) v)

/-- The double in a wrapper. -/
def wrappedDouble (v : Json) : Except Error Double := do
  let s ← expectText "$numberDouble" v
  match Double.ofText? s with
  | some x => .ok x
  | none => refuse (.badNumber "$numberDouble" s)

/-- The object id in a wrapper. -/
def wrappedObjectId (v : Json) : Except Error ObjectId := do
  match ObjectId.ofHex (← expectText "$oid" v) with
  | .ok id => .ok id
  | .error fault => refuse (.badObjectId fault)

/-- The instant in a wrapper: a date, a number of milliseconds, or that number wrapped. -/
def wrappedInstant : Json → Except Error Int64
  | .string s =>
    match Calendar.Rfc3339.read? s with
    | some millis => .ok (Int64.ofInt millis)
    | none => refuse (.badDateText s)
  | .integer n => .ok n
  | .object fields =>
    match fields.get? "$numberLong" with
    | some v => wrappedInt64 v
    | none => refuse .dateWithoutNumber
  | v => refuse (.badDate v)

/-- The binary data in a wrapper. -/
def wrappedBinary (v : Json) : Except Error Binary := do
  let base64 ← textField v "base64"
  let subtype ← textField v "subType"
  match Text.Base64.decode? base64 with
  | none => refuse .badBase64
  | some data =>
    match Text.natural? 16 256 subtype with
    | none => refuse (.badSubtype subtype)
    | some n => .ok ⟨UInt8.ofNat n, data⟩

/-- The regular expression in a wrapper. -/
def wrappedRegex (v : Json) : Except Error Regex := do
  let pattern ← textField v "pattern"
  let options ← textField v "options"
  return ⟨pattern, .ofOptions options⟩

/-- The timestamp in a wrapper. -/
def wrappedTimestamp (v : Json) : Except Error Timestamp := do
  let t ← expectUInt32 "t" (← field v "t")
  let i ← expectUInt32 "i" (← field v "i")
  return ⟨i.toInt32, t.toInt32⟩

/-- The value of what stands under the only key of an object, if the key is that of a wrapper. -/
def unwrap? (key : String) (v : Json) : Option (Except Error Value) :=
  if key = "$oid" then some (return .objectId (← wrappedObjectId v))
  else if key = "$date" then some (return .dateTime (← wrappedInstant v))
  else if key = "$numberInt" then some (return .int32 (← wrappedInt32 v))
  else if key = "$numberLong" then some (return .long (.ofInt64 (← wrappedInt64 v)))
  else if key = "$numberDouble" then some (return .double (← wrappedDouble v))
  else if key = "$binary" then some (return .binary (← wrappedBinary v))
  else if key = "$regularExpression" then some (return .regex (← wrappedRegex v))
  else if key = "$timestamp" then some (return .timestamp (← wrappedTimestamp v))
  else if key = "$symbol" then some (return .symbol (← expectText "$symbol" v))
  else if key = "$minKey" then some (return .minKey)
  else if key = "$maxKey" then some (return .maxKey)
  else if key = "$undefined" then some (return .undefined)
  else none

/-- The value that an object wraps. -/
def wrapped? (fields : OrderedMap Json) : Option (Except Error Value) :=
  match fields.toList with
  | [(key, v)] => unwrap? key v
  | _ => none

/-- An integer: of 32 bits if it fits, else of 64. -/
def ofInteger (n : Int64) : Value :=
  if -2 ^ 31 ≤ n.toInt ∧ n.toInt < 2 ^ 31 then .int32 n.toInt32 else .long (.ofInt64 n)

/-- Code with a scope, if there is one. -/
def codeWith (source : String) : Option Document → Value
  | none => .code source
  | some scope => .scopedCode source scope

mutual

/-- The value of JSON. -/
def toValue : Json → Except Error Value
  | .null => .ok .null
  | .bool b => .ok (.boolean b)
  | .integer n => .ok (ofInteger n)
  | .largeInteger n => .ok (.double (.ofInt n.toNat))
  | .double x => .ok (.double x)
  | .string s => .ok (.string s)
  | .array items => return .array (← toItems items)
  | .object fields =>
    match fields.get? "$code" with
    | some code => do
      let source ← expectText "$code" code
      return codeWith source (← toScope fields.entries)
    | none =>
      match wrapped? fields with
      | some result => result
      | none => return OrderedMap.asReference ⟨← toEntries fields.entries⟩

/-- The values of items. -/
def toItems : List Json → Except Error (List Value)
  | [] => .ok []
  | v :: rest => return (← toValue v) :: (← toItems rest)

/-- The values of fields, under the same keys. -/
def toEntries : {keys : List String} → Entries Json keys → Except Error (Entries Value keys)
  | _, .nil => .ok .nil
  | _, .snoc init key v fresh => return .snoc (← toEntries init) key (← toValue v) fresh

/-- The document under `$scope`, if the key is present. -/
def toScope : {keys : List String} → Entries Json keys → Except Error (Option Document)
  | _, .nil => .ok none
  | _, .snoc init key v _ =>
    if key = "$scope" then
      match v with
      | .object scope => return some ⟨← toEntries scope.entries⟩
      | _ => refuse .scopeNotObject
    else toScope init

end

/-- The document of a JSON object, its own keys taken as they are. -/
def toDocument : Json → Except Error Document
  | .object fields => return ⟨← toEntries fields.entries⟩
  | v => refuse (.notObject v)

/-- The document of a JSON text. -/
def parseDocument (s : String) : Except Error Document :=
  match Json.ofText? s with
  | some v => toDocument v
  | none => refuse .malformed

end Bson.ExtendedJson
