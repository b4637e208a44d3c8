import Bson.Double.Basic
import Bson.Halves
import Bson.ObjectId
import Bson.OrderedMap

/-!
# Values and documents

The values that a document holds. A `Document` is an insertion-ordered map from keys to values, so
the two are nested in one another.

Two kinds of value exist on the way out only: `hook`, which stands for the value that its
conversion hook returns, and `brokenHook`, whose hook cannot be called. A hook has an identity,
since two hooks are the same only if one is a copy of the other.
-/

namespace Bson

/-- Bytes with a subtype. -/
structure Binary where
  subtype : UInt8
  data : ByteArray
  deriving DecidableEq

/-- The options of a regular expression. -/
structure RegexFlags where
  global : Bool := false
  ignoreCase : Bool := false
  multiline : Bool := false
  deriving DecidableEq

namespace RegexFlags

/-- The flags named in an option text; other characters count for nothing. -/
def ofOptions (options : String) : RegexFlags :=
  { global := options.toList.contains 's'
    ignoreCase := options.toList.contains 'i'
    multiline := options.toList.contains 'm' }

/-- The option text of flags, in a fixed order. -/
def toOptions (flags : RegexFlags) : String :=
  (if flags.global then "s" else "") ++ (if flags.ignoreCase then "i" else "") ++
    (if flags.multiline then "m" else "")

end RegexFlags

/-- A regular expression. -/
structure Regex where
  pattern : String
  flags : RegexFlags
  deriving DecidableEq

/-- The values of documents. -/
inductive Value
  | double (x : Double)
  /-- A double that is written as a double whatever its value. -/
  | boxedDouble (x : Double)
  | int32 (n : Int32)
  | long (n : Long)
  | string (s : String)
  | document (fields : OrderedMap Value)
  | array (items : List Value)
  | binary (b : Binary)
  /-- Plain bytes, written as binary data of subtype 0. -/
  | bytes (data : ByteArray)
  | objectId (id : ObjectId)
  | boolean (b : Bool)
  /-- An instant in milliseconds from the start of 1970. -/
  | dateTime (millis : Int64)
  | null
  /-- No value: its field is left out of a document. -/
  | undefined
  | regex (r : Regex)
  | code (source : String)
  | scopedCode (source : String) (scope : OrderedMap Value)
  /-- A function given by its source, left out of a document unless functions are kept. -/
  | function (source : String)
  | symbol (s : String)
  | timestamp (t : Timestamp)
  | minKey
  | maxKey
  /-- A reference to an object of a collection, in a database if one is named. -/
  | dbRef (collection : String) (id : Value) (database : Option String)
  /-- A value that converts itself into `result`; copies share the token. -/
  | hook (token : Nat) (result : Value)
  /-- A value whose conversion slot holds something that cannot be called. -/
  | brokenHook (slot : Value)

/-- An insertion-ordered map from keys to values. -/
abbrev Document := OrderedMap Value

instance : Inhabited Value := ⟨.null⟩

/-- The kinds of value that messages tell apart. -/
inductive Kind
  | number | double | int32 | long | string | document | array | binary | bytes | objectId
  | boolean | dateTime | null | undefined | regex | javascript | function | symbol | timestamp
  | minKey | maxKey | dbRef | convertible
  deriving DecidableEq

/-- The name of a kind. -/
def Kind.name : Kind → String
  | number => "number"
  | double => "double"
  | int32 => "int32"
  | long => "long"
  | string => "string"
  | document => "document"
  | array => "array"
  | binary => "binary"
  | bytes => "bytes"
  | objectId => "objectId"
  | boolean => "boolean"
  | dateTime => "dateTime"
  | null => "null"
  | undefined => "undefined"
  | regex => "regex"
  | javascript => "javascript"
  | function => "function"
  | symbol => "symbol"
  | timestamp => "timestamp"
  | minKey => "minKey"
  | maxKey => "maxKey"
  | dbRef => "dbRef"
  | convertible => "convertible"

namespace Value

/-- The kind of a value. -/
def kind : Value → Kind
  | double _ => .number
  | boxedDouble _ => .double
  | int32 _ => .int32
  | long _ => .long
  | string _ => .string
  | document _ => .document
  | array _ => .array
  | binary _ => .binary
  | bytes _ => .bytes
  | objectId _ => .objectId
  | boolean _ => .boolean
  | dateTime _ => .dateTime
  | null => .null
  | undefined => .undefined
  | regex _ => .regex
  | code _ => .javascript
  | scopedCode _ _ => .javascript
  | function _ => .function
  | symbol _ => .symbol
  | timestamp _ => .timestamp
  | minKey => .minKey
  | maxKey => .maxKey
  | dbRef _ _ _ => .dbRef
  | hook _ _ => .convertible
  | brokenHook _ => .convertible

/-- Whether the value converts itself before it is written. -/
def isConvertible (v : Value) : Bool := v.kind = .convertible

/-- Whether code carries a scope with at least one field. -/
def hasScope : Value → Bool
  | scopedCode _ scope => !scope.isEmpty
  | _ => false

end Value

end Bson
