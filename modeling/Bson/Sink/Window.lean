import Bson.Sink.Basic

/-!
# Writing into a window of a buffer

A window is the part of a buffer from a start position on, as long as a greatest size and the end
of the buffer allow. Bytes that would pass its end are refused before any of them is written.
-/

namespace Bson

/-- A buffer with the bounds between which it may be written. -/
structure Window where
  buffer : ByteArray
  start : Nat
  position : Nat
  limit : Nat

/-- Puts bytes over those from a position on; bytes that do not fit change nothing. -/
def overwrite (buffer : ByteArray) (position : Nat) (bytes : ByteArray) : ByteArray :=
  if position + bytes.size ≤ buffer.size then bytes.copySlice 0 buffer position bytes.size
  else buffer

/-- A number of zero bytes. -/
def zeroBytes (n : Nat) : ByteArray := n.repeat (·.push 0) .empty

@[simp] theorem size_overwrite (buffer : ByteArray) (position : Nat) (bytes : ByteArray) :
    (overwrite buffer position bytes).size = buffer.size := by
  unfold overwrite
  split
  · rw [ByteArray.copySlice_eq_append]
    simp
    omega
  · rfl

@[simp] theorem size_zeroBytes (n : Nat) : (zeroBytes n).size = n := by
  induction n with
  | zero => rfl
  | succ n ih => simpa [zeroBytes, Nat.repeat] using ih

namespace Window

/-- The window of a buffer from a position on, for a greatest size. -/
def ofBuffer (buffer : ByteArray) (start maxSize : Nat) : Window :=
  let start := min start buffer.size
  ⟨buffer, start, start, min (start + maxSize) buffer.size⟩

/-- The number of bytes that fit into the window. -/
def capacity (w : Window) : Nat := w.limit - w.start

/-- Appends bytes. -/
def put (bytes : ByteArray) (w : Window) : Except Error Window :=
  if w.position + bytes.size ≤ w.limit then
    .ok { w with
      buffer := overwrite w.buffer w.position bytes
      position := w.position + bytes.size }
  else .error (.sizeExceeded w.capacity)

/-- Puts bytes at a position, wherever the window stands. -/
def patch (position : Nat) (bytes : ByteArray) (w : Window) : Window :=
  { w with buffer := overwrite w.buffer position bytes }

instance : Sink Window where
  put := put
  reserve n w := (w.put (zeroBytes n)).map (w.position, ·)
  commitTag position tag := patch position [tag.toByte].toByteArray
  commitLength position w :=
    w.patch position (LittleEndian.ofInt32 (Int32.ofInt (w.position - position)))
  size w := w.position - w.start

end Window

end Bson
