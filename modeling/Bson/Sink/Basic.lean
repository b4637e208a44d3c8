import Bson.Error
import Bson.LittleEndian
import Bson.Tag

/-!
# Sinks

A sink takes the bytes of an encoding in order. Tags and lengths are known only after what follows
them, so a sink also reserves room and fills it in later, at the position where it was reserved.

A primitive that fails leaves the sink as it was; texts are written in two or three steps, and the
steps before a failure stand.
-/

namespace Bson

/-- Something that takes bytes in order. -/
class Sink (σ : Type) where
  /-- Appends bytes. -/
  put : ByteArray → σ → Except Error σ
  /-- Reserves a number of zero bytes and gives their position. -/
  reserve : Nat → σ → Except Error (Nat × σ)
  /-- Puts a tag at a position. -/
  commitTag : Nat → Tag → σ → σ
  /-- Puts at a position the distance from there to the end. -/
  commitLength : Nat → σ → σ
  /-- The number of bytes taken so far. -/
  size : σ → Nat

/-- Steps on a sink that may fail; what was done before a failure stands. -/
abbrev SinkM (σ : Type) := EStateM Error σ

namespace Sink

variable {σ : Type} [Sink σ]

/-- Runs a primitive, which does nothing if it fails. -/
def lift {α : Type} (f : σ → Except Error (α × σ)) : SinkM σ α := fun s =>
  match f s with
  | .ok (a, s') => .ok a s'
  | .error e => .error e s

/-- Appends bytes. -/
def write (bytes : ByteArray) : SinkM σ Unit := lift fun s => (put bytes s).map ((), ·)

/-- Appends a byte. -/
def writeByte (b : UInt8) : SinkM σ Unit := write [b].toByteArray

/-- Appends a 32-bit integer. -/
def writeInt32 (n : Int32) : SinkM σ Unit := write (LittleEndian.ofInt32 n)

/-- Appends a 64-bit integer. -/
def writeInt64 (n : Int64) : SinkM σ Unit := write (LittleEndian.ofInt64 n)

/-- Appends a double. -/
def writeDouble (x : Double) : SinkM σ Unit := write (LittleEndian.ofUInt64 x.bits)

/-- Appends a text and a NUL. -/
def writeCString (s : String) : SinkM σ Unit := do
  write s.toUTF8
  writeByte 0

/-- Appends the length of a text with its NUL, the text and the NUL. -/
def writeString (s : String) : SinkM σ Unit := do
  writeInt32 (Int32.ofNat (s.utf8ByteSize + 1))
  writeCString s

/-- Reserves room for a tag. -/
def openTag : SinkM σ Nat := lift (reserve 1)

/-- Reserves room for a length. -/
def openLength : SinkM σ Nat := lift (reserve 4)

/-- Fills in a tag. -/
def closeTag (position : Nat) (tag : Tag) : SinkM σ Unit := modify (commitTag position tag)

/-- Fills in a length. -/
def closeLength (position : Nat) : SinkM σ Unit := modify (commitLength position)

end Sink

end Bson
