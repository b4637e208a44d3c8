import Bson.Calendar.Rfc3339
import Bson.Error
import Bson.Text.Base64
import Bson.Value.Display

/-!
# Values as extended JSON

The relaxed form of extended JSON: what JSON can say is said plainly, other values become objects
with a key that starts with a dollar sign. Hooks are called first, and so are the hooks of what
they return.

* `ExtendedJson.ofValue` and `ExtendedJson.ofDocument`: the JSON of a value or a document.
* `ExtendedJson.documentText`: the JSON of a document as indented text.
-/

namespace Bson.ExtendedJson

/-- An object with one field. -/
def wrap (key : String) (content : Json) : Json := .ofPairs [(key, content)]

/-- A double: a number if it is finite, else its name in a wrapper. -/
def ofDouble (x : Double) : Json :=
  if x.isFinite then .double x
  else wrap "$numberDouble" (.string
    (if x.isNaN then "NaN" else if x.isNegative then "-Infinity" else "Infinity"))

/-- Binary data: its bytes in base64 and its subtype in two hexadecimal digits. -/
def ofBinary (subtype : UInt8) (data : ByteArray) : Json :=
  wrap "$binary" (.ofPairs
    [("base64", .string (Text.Base64.encode data)),
      ("subType", .string (String.ofList (Text.Hex.ofByte subtype)))])

/-- Whether an instant is written as a date: it lies in a year from 1970 to 9999. -/
def isDatable (millis : Int) : Bool :=
  Value.firstInstant ≤ millis ∧ millis ≤ Value.lastInstant ∧
    1970 ≤ (Calendar.Rfc3339.dateOf millis).year ∧ (Calendar.Rfc3339.dateOf millis).year ≤ 9999

/-- An instant: a date, or the number of its milliseconds. -/
def ofInstant (millis : Int) : Json :=
  wrap "$date" (
    if isDatable millis then .string (Calendar.Rfc3339.text "Z" millis)
    else wrap "$numberLong" (.string (toString millis)))

/-- A regular expression. -/
def ofRegex (r : Regex) : Json :=
  wrap "$regularExpression" (.ofPairs
    [("pattern", .string r.pattern), ("options", .string r.flags.toOptions)])

/-- A timestamp: its halves as unsigned numbers, the high one first. -/
def ofTimestamp (t : Timestamp) : Json :=
  wrap "$timestamp" (.ofPairs
    [("t", .integer t.high.toUInt32.toUInt64.toInt64),
      ("i", .integer t.low.toUInt32.toUInt64.toInt64)])

/-- A reference. -/
def ofReference (collection : String) (id : Json) (database : Option String) : Json :=
  .ofPairs ([("$ref", .string collection), ("$id", id)] ++
    match database with
    | some database => [("$db", .string database)]
    | none => [])

mutual

/-- The JSON of a value. -/
def ofValue : Value → Except Error Json
  | .null => .ok .null
  | .undefined => .ok (wrap "$undefined" (.bool true))
  | .boolean b => .ok (.bool b)
  | .int32 n => .ok (.integer n.toInt64)
  | .long n => .ok (.integer n.toInt64)
  | .double x => .ok (ofDouble x)
  | .boxedDouble x => .ok (ofDouble x)
  | .string s => .ok (.string s)
  | .symbol s => .ok (wrap "$symbol" (.string s))
  | .document d => return .object ⟨← ofEntries d.entries⟩
  | .array items => return .array (← ofItems items)
  | .binary b => .ok (ofBinary b.subtype b.data)
  | .bytes data => .ok (ofBinary 0 data)
  | .objectId id => .ok (wrap "$oid" (.string id.toHex))
  | .dateTime millis => .ok (ofInstant millis.toInt)
  | .regex r => .ok (ofRegex r)
  | .code source => .ok (wrap "$code" (.string source))
  | .scopedCode source scope =>
    return .ofPairs [("$code", .string source), ("$scope", .object ⟨← ofEntries scope.entries⟩)]
  | .function source => .ok (wrap "$code" (.string source))
  | .timestamp t => .ok (ofTimestamp t)
  | .minKey => .ok (wrap "$minKey" (.integer 1))
  | .maxKey => .ok (wrap "$maxKey" (.integer 1))
  | .dbRef collection id database => return ofReference collection (← ofValue id) database
  | .hook _ result => ofValue result
  | .brokenHook slot => .error (.hookInvalid (.notCallable slot.kind))

/-- The JSON of items. -/
def ofItems : List Value → Except Error (List Json)
  | [] => .ok []
  | v :: rest => return (← ofValue v) :: (← ofItems rest)

/-- The JSON of fields, under the same keys. -/
def ofEntries : {keys : List String} → Entries Value keys → Except Error (Entries Json keys)
  | _, .nil => .ok .nil
  | _, .snoc init key v fresh => return .snoc (← ofEntries init) key (← ofValue v) fresh

end

/-- The JSON of a document. -/
def ofDocument (d : Document) : Except Error Json := ofValue (.document d)

/-- The JSON of a document as indented text. -/
def documentText (d : Document) : Except Error String := return (← ofDocument d).pretty

end Bson.ExtendedJson
