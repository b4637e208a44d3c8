import Bson.Double.Rounding
import Bson.LittleEndian
import Bson.Tag
import Bson.Value.Reference

/-!
# The grammar of encoded documents

Encoded documents as trees, with every length field and every key as it stands in the bytes. The
tree says how bytes are put together and what they stand for, and knows of no reader and no writer.

* `Payload`, `Elements`: the trees. `Payload.bytes` and `Elements.bytes` write them down.
* `Payload.Measured`: the length fields are the lengths of what they measure.
* `Payload.Clean`: texts that a zero byte ends hold none, and the keys of arrays are indices.
* `Payload.Valid`: both. These are the well-formed payloads.
* `Payload.depth`: how many frames are nested in one another.
* `Payload.value`, `Elements.document`, `Elements.items`: what the trees stand for.
-/

namespace Bson.Grammar

/-! ### Trees -/

mutual

/-- A payload, with the length fields in it. -/
inductive Payload
  | double (x : Double)
  | string (length : Int32) (content : String)
  | document (length : Int32) (fields : Elements)
  | array (length : Int32) (items : Elements)
  | binary (length : Int32) (subtype : UInt8) (data : ByteArray)
  /-- Binary data of the old subtype, which has two length fields. -/
  | oldBinary (outer length : Int32) (data : ByteArray)
  | undefined
  | objectId (id : ObjectId)
  | boolean (byte : UInt8)
  | dateTime (millis : Int64)
  | null
  | regex (pattern options : String)
  | code (length : Int32) (source : String)
  | symbol (length : Int32) (name : String)
  | scopedCode (total length : Int32) (source : String) (scopeLength : Int32) (scope : Elements)
  | int32 (n : Int32)
  | timestamp (low high : Int32)
  | int64 (low high : Int32)
  | maxKey
  | minKey

/-- The elements of a frame: keys with payloads. -/
inductive Elements
  | nil
  | cons (key : String) (payload : Payload) (rest : Elements)

end

/-- The tag in front of a payload. -/
def Payload.tag : Payload → Tag
  | .double _ => .double
  | .string _ _ => .string
  | .document _ _ => .document
  | .array _ _ => .array
  | .binary _ _ _ => .binary
  | .oldBinary _ _ _ => .binary
  | .undefined => .undefined
  | .objectId _ => .objectId
  | .boolean _ => .boolean
  | .dateTime _ => .dateTime
  | .null => .null
  | .regex _ _ => .regex
  | .code _ _ => .code
  | .symbol _ _ => .symbol
  | .scopedCode _ _ _ _ _ => .scopedCode
  | .int32 _ => .int32
  | .timestamp _ _ => .timestamp
  | .int64 _ _ => .int64
  | .maxKey => .maxKey
  | .minKey => .minKey

/-! ### Bytes -/

/-- The bytes of a 32-bit integer. -/
def int32 (n : Int32) : List UInt8 := LittleEndian.bytes 4 n.toUInt32.toNat

/-- The bytes of a 64-bit integer. -/
def int64 (n : Int64) : List UInt8 := LittleEndian.bytes 8 n.toUInt64.toNat

/-- The bytes of a double. -/
def double (x : Double) : List UInt8 := LittleEndian.bytes 8 x.bits.toNat

/-- The bytes of a text. -/
def utf8 (s : String) : List UInt8 := s.toUTF8.data.toList

/-- A text that a zero byte ends. -/
def cstring (s : String) : List UInt8 := utf8 s ++ [0]

/-- What stands between a length field and a zero byte, with the two. -/
def enclosed (length : Int32) (content : List UInt8) : List UInt8 :=
  int32 length ++ (content ++ [0])

mutual

/-- The bytes of a payload. -/
def Payload.bytes : Payload → List UInt8
  | .double x => Grammar.double x
  | .string length content => enclosed length (utf8 content)
  | .document length fields => enclosed length fields.bytes
  | .array length items => enclosed length items.bytes
  | .binary length subtype data => Grammar.int32 length ++ (subtype :: data.data.toList)
  | .oldBinary outer length data =>
    Grammar.int32 outer ++ (oldBinarySubtype :: (Grammar.int32 length ++ data.data.toList))
  | .undefined => []
  | .objectId id => id.bytes.data.toList
  | .boolean byte => [byte]
  | .dateTime millis => Grammar.int64 millis
  | .null => []
  | .regex pattern options => cstring pattern ++ cstring options
  | .code length source => enclosed length (utf8 source)
  | .symbol length name => enclosed length (utf8 name)
  | .scopedCode total length source scopeLength scope =>
    Grammar.int32 total ++ (enclosed length (utf8 source) ++ enclosed scopeLength scope.bytes)
  | .int32 n => Grammar.int32 n
  | .timestamp low high => Grammar.int32 low ++ Grammar.int32 high
  | .int64 low high => Grammar.int32 low ++ Grammar.int32 high
  | .maxKey => []
  | .minKey => []

/-- The bytes of elements: tag, key and payload of one after another. -/
def Elements.bytes : Elements → List UInt8
  | .nil => []
  | .cons key payload rest =>
    payload.tag.toByte :: (cstring key ++ (payload.bytes ++ rest.bytes))

end

theorem bytes_cons (key : String) (p : Payload) (rest : Elements) :
    (Elements.cons key p rest).bytes =
      p.tag.toByte :: (cstring key ++ (p.bytes ++ rest.bytes)) := by
  rw [Elements.bytes]

theorem length_toList_data (b : ByteArray) : b.data.toList.length = b.size := rfl

theorem length_utf8 (s : String) : (utf8 s).length = s.toUTF8.size := rfl

theorem toList_ofInt32 (n : Int32) : (LittleEndian.ofInt32 n).data.toList = int32 n :=
  List.toList_data_toByteArray

theorem toList_ofInt64 (n : Int64) : (LittleEndian.ofInt64 n).data.toList = int64 n :=
  List.toList_data_toByteArray

theorem toList_ofUInt64 (n : UInt64) : (LittleEndian.ofUInt64 n).data.toList = double ⟨n⟩ :=
  List.toList_data_toByteArray

theorem length_int32 (n : Int32) : (int32 n).length = 4 := LittleEndian.length_bytes _ _

theorem length_cstring (s : String) : (cstring s).length = (utf8 s).length + 1 := by
  rw [cstring, List.length_append, List.length_singleton]

theorem length_enclosed (length : Int32) (content : List UInt8) :
    (enclosed length content).length = content.length + 5 := by
  simp only [enclosed, List.length_append, length_int32, List.length_singleton]
  omega

/-! ### Well-formed payloads -/

/-- A length field in front of a text counts its bytes and the zero byte. -/
def MeasuresText (length : Int32) (s : String) : Prop := length.toInt = (utf8 s).length + 1

/-- The length field of a frame, read without a sign, counts the whole frame. -/
def MeasuresFrame (length : Int32) (body : List UInt8) : Prop :=
  length.toUInt32.toNat = (enclosed length body).length

mutual

/-- Whether every length field is the length of what it measures. The outer one of old binary data
does not count unless `outer` is set. -/
def Payload.Measured (outer : Bool) : Payload → Prop
  | .string length content => MeasuresText length content
  | .document length fields => MeasuresFrame length fields.bytes ∧ fields.Measured outer
  | .array length items => MeasuresFrame length items.bytes ∧ items.Measured outer
  | .binary length _ data => length.toInt = data.size
  | .oldBinary outerLength length data =>
    length.toInt = data.size ∧ (outer → outerLength = length)
  | .code length source => MeasuresText length source
  | .symbol length name => MeasuresText length name
  | .scopedCode total length source scopeLength scope =>
    total.toInt = (Payload.scopedCode total length source scopeLength scope).bytes.length ∧
      MeasuresText length source ∧ MeasuresFrame scopeLength scope.bytes ∧ scope.Measured outer
  | _ => True

/-- The same of every payload among elements. -/
def Elements.Measured (outer : Bool) : Elements → Prop
  | .nil => True
  | .cons _ payload rest => payload.Measured outer ∧ rest.Measured outer

end

/-- Whether no byte of a text is zero. -/
def NulFree (s : String) : Prop := 0 ∉ utf8 s

/-- Whether a key is an index: decimal digits, at least one, that spell a number of 32 bits. -/
def IsIndex (key : String) : Prop :=
  key ≠ "" ∧ (∀ c ∈ key.toList, c.isDigit) ∧ Nat.ofDigitChars 10 key.toList 0 < 2 ^ 32

/-- The number that the digits of an index spell. -/
def indexOf (key : String) : Nat := Nat.ofDigitChars 10 key.toList 0

/-- Whether the keys are indices that leave no gap wider than the bytes that follow in the frame,
when there are `count` items already. -/
def Elements.Indexed : Nat → Elements → Prop
  | _, .nil => True
  | count, .cons key _ rest =>
    IsIndex key ∧ indexOf key ≤ count + rest.bytes.length ∧
      rest.Indexed (max count (indexOf key + 1))

mutual

/-- Whether texts that a zero byte ends hold none, keys of arrays are indices, and binary data of
the old subtype has its two length fields. -/
def Payload.Clean : Payload → Prop
  | .document _ fields => fields.Clean
  | .array _ items => items.Clean ∧ items.Indexed 0
  | .binary _ subtype _ => subtype ≠ oldBinarySubtype
  | .regex pattern options => NulFree pattern ∧ NulFree options
  | .scopedCode _ _ _ _ scope => scope.Clean
  | _ => True

/-- The same of every payload among elements, whose keys hold no zero byte. -/
def Elements.Clean : Elements → Prop
  | .nil => True
  | .cons key payload rest => NulFree key ∧ payload.Clean ∧ rest.Clean

end

/-- A well-formed payload. -/
def Payload.Valid (p : Payload) : Prop := p.Measured false ∧ p.Clean

/-- Well-formed elements of a document. -/
def Elements.Valid (es : Elements) : Prop := es.Measured false ∧ es.Clean

mutual

/-- How many frames are nested in one another. -/
def Payload.depth : Payload → Nat
  | .document _ fields => fields.depth + 1
  | .array _ items => items.depth + 1
  | .scopedCode _ _ _ _ scope => scope.depth + 1
  | _ => 0

/-- The same in the deepest payload. -/
def Elements.depth : Elements → Nat
  | .nil => 0
  | .cons _ payload rest => max payload.depth rest.depth

end

/-! ### Meaning -/

/-- A list with a value at an index. Places that are passed over are left undefined. -/
def placed (items : List Value) (n : Nat) (v : Value) : List Value :=
  if n < items.length then items.set n v
  else items ++ (List.replicate (n - items.length) Value.undefined ++ [v])

/-- A 64-bit integer, as a number if it is safe and `promote` is set. -/
def int64Value (promote : Bool) (low high : Int32) : Value :=
  let n := (Long.mk low high).toInt64.toInt
  if promote ∧ n.natAbs < 2 ^ 53 then .double (.ofInt n) else .long ⟨low, high⟩

mutual

/-- The value that a payload stands for. -/
def Payload.value (promote : Bool) : Payload → Value
  | .double x => .double x
  | .string _ content => .string content
  | .document _ fields => (fields.document promote .empty).asReference
  | .array _ items => .array (items.items promote [])
  | .binary _ subtype data => .binary ⟨subtype, data⟩
  | .oldBinary _ _ data => .binary ⟨oldBinarySubtype, data⟩
  | .undefined => .null
  | .objectId id => .objectId id
  | .boolean byte => .boolean (byte ≠ 0)
  | .dateTime millis => .dateTime millis
  | .null => .null
  | .regex pattern options => .regex ⟨pattern, .ofOptions options⟩
  | .code _ source => .code source
  | .symbol _ name => .symbol name
  | .scopedCode _ _ source _ scope => .scopedCode source (scope.document promote .empty)
  | .int32 n => .int32 n
  | .timestamp low high => .timestamp ⟨low, high⟩
  | .int64 low high => int64Value promote low high
  | .maxKey => .maxKey
  | .minKey => .minKey

/-- A document after the fields that elements stand for have been stored in it. -/
def Elements.document (promote : Bool) : Elements → Document → Document
  | .nil, d => d
  | .cons key payload rest, d => rest.document promote (d.insert key (payload.value promote))

/-- A list after the items that elements stand for have been placed in it. -/
def Elements.items (promote : Bool) : Elements → List Value → List Value
  | .nil, vs => vs
  | .cons key payload rest, vs =>
    rest.items promote (placed vs (indexOf key) (payload.value promote))

end

end Bson.Grammar
