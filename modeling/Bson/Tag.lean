/-!
# Element tags

The byte in front of each element of an encoded document, which tells the kind of its payload.
-/

namespace Bson

/-- The kinds of payload. -/
inductive Tag
  | double
  | string
  | document
  | array
  | binary
  | undefined
  | objectId
  | boolean
  | dateTime
  | null
  | regex
  | code
  | symbol
  | scopedCode
  | int32
  | timestamp
  | int64
  | maxKey
  | minKey
  deriving DecidableEq

namespace Tag

/-- The byte of a tag. -/
def toByte : Tag → UInt8
  | double => 0x01
  | string => 0x02
  | document => 0x03
  | array => 0x04
  | binary => 0x05
  | undefined => 0x06
  | objectId => 0x07
  | boolean => 0x08
  | dateTime => 0x09
  | null => 0x0A
  | regex => 0x0B
  | code => 0x0D
  | symbol => 0x0E
  | scopedCode => 0x0F
  | int32 => 0x10
  | timestamp => 0x11
  | int64 => 0x12
  | maxKey => 0x7F
  | minKey => 0xFF

/-- All tags, in the order of their bytes. -/
def all : List Tag :=
  [double, string, document, array, binary, undefined, objectId, boolean, dateTime, null, regex,
    code, symbol, scopedCode, int32, timestamp, int64, maxKey, minKey]

/-- The tag of a byte. -/
def ofByte? (b : UInt8) : Option Tag := all.find? fun tag => tag.toByte = b

@[simp] theorem ofByte?_toByte (tag : Tag) : ofByte? tag.toByte = some tag := by
  cases tag <;> rfl

theorem toByte_of_ofByte? {b : UInt8} {tag : Tag} (h : ofByte? b = some tag) :
    tag.toByte = b := by
  simpa using List.find?_some h

end Tag

end Bson
