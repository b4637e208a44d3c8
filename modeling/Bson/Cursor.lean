import Bson.Error
import Bson.LittleEndian

/-!
# Reading bytes at a cursor

A cursor is an offset into the input; a `Region` bounds what may be read by the offset of a
terminator. Everything that lies before the terminator may be read, and the terminator itself only
by the frame that it ends.

Access to the input goes through `Region.slice` and `Region.byteAt`, which refuse to leave it; the
cursor is asked for through `Cursor.here`, which refuses one that has left it. Offsets are added by
`Region.plus`, which refuses a sum beyond the input, and subtracted by `minus`, which refuses a
negative result. A refusal is an `Error.reader`.
-/

namespace Bson

/-- The input and the offset of the terminator that bounds what may be read. -/
structure Region where
  data : ByteArray
  limit : Nat

/-- Steps of a cursor: from an offset to a value and the offset after it. -/
abbrev Cursor := StateT Nat (Except Error)

/-- The difference of two numbers, the first of which must not be the smaller. -/
def minus (a b : Nat) : Except Error Nat :=
  if b ≤ a then .ok (a - b) else .error (.reader (.underflow a b))

namespace Region

/-- Refuses offsets that enclose no bytes of the input. -/
def checkRange (r : Region) (start stop : Nat) : Except Error Unit :=
  if start ≤ stop ∧ stop ≤ r.data.size then .ok ()
  else .error (.reader (.outOfRange start stop))

/-- An offset moved on by a number of bytes, which must not lead out of the input. -/
def plus (r : Region) (offset count : Nat) : Except Error Nat :=
  if offset + count ≤ r.data.size then .ok (offset + count)
  else .error (.reader (.overflow offset count))

/-- The bytes between two offsets. -/
def slice (r : Region) (start stop : Nat) : Except Error ByteArray := do
  r.checkRange start stop
  return r.data.extract start stop

/-- The byte at an offset. -/
def byteAt (r : Region) (offset : Nat) : Except Error UInt8 :=
  if h : offset < r.data.size then .ok r.data[offset]
  else .error (.reader (.outOfRange offset (offset + 1)))

/-- The offset of the first zero byte among a number of bytes from an offset on. -/
def findZero? (r : Region) : Nat → Nat → Option Nat
  | _, 0 => none
  | offset, count + 1 =>
    if r.byteAt offset matches .ok 0 then some offset else r.findZero? (offset + 1) count

end Region

namespace Cursor

/-- The offset of the cursor. Neither it nor the terminator may be outside the input. -/
def here (r : Region) : Cursor Nat := do
  let offset ← get
  if r.limit < r.data.size ∧ offset ≤ r.data.size then return offset
  else throw (.reader (.misplaced offset r.limit))

/-- Takes a number of bytes. -/
def take (r : Region) (count : Nat) : Cursor ByteArray := do
  let start ← here r
  if r.limit < start + count then throw (.boundsExceeded start (.readPast count r.limit))
  let stop ← r.plus start count
  set stop
  r.slice start stop

/-- Takes a byte. -/
def byte (r : Region) : Cursor UInt8 := do
  let start ← here r
  let _ ← take r 1
  r.byteAt start

/-- Takes a 32-bit integer. -/
def int32 (r : Region) : Cursor Int32 := return LittleEndian.toInt32 (← take r 4)

/-- Takes a 64-bit integer. -/
def int64 (r : Region) : Cursor Int64 := return LittleEndian.toInt64 (← take r 8)

/-- Takes a double. -/
def double (r : Region) : Cursor Double := return ⟨LittleEndian.toUInt64 (← take r 8)⟩

/-- The text with given bytes, which stand at an offset. -/
def utf8 (bytes : ByteArray) (offset : Nat) : Except Error String :=
  if h : bytes.IsValidUTF8 then .ok (String.fromUTF8 bytes h) else .error (.invalidUtf8 offset)

/-- Takes a text that a zero byte ends. -/
def cstring (r : Region) : Cursor String := do
  let start ← here r
  r.checkRange start r.limit
  match r.findZero? start (r.limit - start) with
  | none => throw (.unterminatedText start)
  | some stop =>
    let _ ← take r (← r.plus (stop - start) 1)
    utf8 (← r.slice start stop) start

/-- Takes a text with its length in front, which counts the zero byte at its end. -/
def string (r : Region) : Cursor String := do
  let lengthAt ← here r
  let length := (← int32 r).toInt
  if length < 1 then throw (.boundsExceeded lengthAt (.invalidStringLength length))
  let start ← here r
  let _ ← take r length.toNat
  let stop := start + (← minus length.toNat 1)
  if (← r.byteAt stop) ≠ 0 then throw (.unterminatedText start)
  utf8 (← r.slice start stop) start

end Cursor

end Bson
