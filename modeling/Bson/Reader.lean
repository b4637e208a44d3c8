import Bson.Frame

/-!
# Reading documents one after another

A `Reader` stands at a position of its input. Each `Reader.readDocument` gives the document there,
or the reason why there is none, and moves on: behind the frame if its bounds are sound, whatever
is in it, else behind the length if there is one. So reading may go on after a failure.
-/

namespace Bson

/-- A position in an input, with the bounds that hold there. -/
structure Reader where
  data : ByteArray
  /-- The offset of the terminator of the input. -/
  limit : Nat
  position : Nat
  /-- The number of frames that are open around the position. -/
  openFrames : Nat := 0
  /-- Whether safe 64-bit integers are read as numbers. -/
  promote : Bool

namespace Reader

/-- A reader at an offset of an input, which must end in a zero byte. -/
def ofBytes (data : ByteArray) (start : Nat) (promote : Bool) : Except Error Reader := do
  if data.size ≤ start then throw (.boundsExceeded start (.startBeyond data.size))
  let limit ← minus data.size 1
  if (← (Region.mk data limit).byteAt limit) ≠ 0 then throw (.missingTerminator limit)
  return { data, limit, position := start, promote }

/-- What a reader may read. -/
def region (r : Reader) : Region := ⟨r.data, r.limit⟩

/-- The number of frames that may still be opened. -/
def levels (r : Reader) : Nat := maxDepth - r.openFrames

/-- Where the next document is looked for. -/
def nextPosition (r : Reader) : Nat :=
  if r.levels = 0 then r.position
  else
    match Frame.terminator r.region r.position with
    | .ok (stop, _) => stop + 1
    | .error _ => if r.position + 4 ≤ r.limit then r.position + 4 else r.position

/-- The document at the position of a reader, and the reader after it. -/
def readDocument (r : Reader) : Except Error Document × Reader :=
  ((Frame.document r.promote r.levels r.region r.position).map (·.1),
    { r with position := r.nextPosition })

/-- Reads a number of documents and gives each result with the reader after it; a failure does not
end the reading. -/
def readEach (r : Reader) : Nat → List (Except Error Document × Reader)
  | 0 => []
  | n + 1 => r.readDocument :: r.readDocument.2.readEach n

/-- Reads a number of documents up to the first failure. -/
def readAll (r : Reader) : Nat → Except Error (List Document × Reader)
  | 0 => .ok ([], r)
  | n + 1 => do
    let (result, next) := r.readDocument
    let d ← result
    let (rest, last) ← next.readAll n
    return (d :: rest, last)

end Reader

end Bson
