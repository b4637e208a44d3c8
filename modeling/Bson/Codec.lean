import Bson.Reader
import Bson.Sink.Tally
import Bson.Sink.Window
import Bson.Writer

/-!
# Encoding and decoding documents

* `encode` counts the bytes of a document, then writes them into a buffer of that size.
* `writeInto` writes straight into a buffer, from an offset on; `encodeInto` gives the buffer only
  if that succeeds.
* `encodedSize` only counts.
* `decode` and `decodeMany` read one document or several in a row.
-/

namespace Bson

/-- How a document is encoded. -/
structure EncodeOptions extends WriteOptions where
  /-- The greatest number of bytes. -/
  maxSize : Nat := defaultMaxSize
  deriving DecidableEq

/-- How a document is decoded. -/
structure DecodeOptions where
  /-- Read safe 64-bit integers as numbers. -/
  promoteLongs : Bool := true
  deriving DecidableEq

/-- The number of bytes that a document takes. -/
def countBytes (options : WriteOptions) (d : Document) : Except Error Nat :=
  match Writer.document options d ⟨({} : Tally), 0⟩ with
  | .ok _ w => .ok w.sink.count
  | .error e _ => .error e

/-- The number of bytes that a document takes if its keys are not checked. -/
def encodedSize (d : Document) (keepFunctions : Bool) : Except Error Nat :=
  countBytes { keepFunctions } d

/-- Writes a document into a window. -/
def writeWindow (options : WriteOptions) (d : Document) (w : Window) : Except Error Window :=
  match Writer.document options d ⟨w, 0⟩ with
  | .ok _ w => .ok w.sink
  | .error e _ => .error e

/-- The bytes of a document. -/
def encode (d : Document) (options : EncodeOptions) : Except Error ByteArray := do
  let size ← countBytes options.toWriteOptions d
  if options.maxSize < size then throw (.sizeExceeded options.maxSize)
  let window := Window.ofBuffer (zeroBytes size) 0 options.maxSize
  let written ← writeWindow options.toWriteOptions d window
  return written.buffer.extract 0 (Sink.size written)

/-- Writes a document into a buffer from an offset on and gives the position after the last byte
written. What was written before a failure stands. -/
def writeInto (d : Document) (offset : Nat) (options : EncodeOptions) :
    EStateM Error ByteArray Nat := fun buffer =>
  match Writer.document options.toWriteOptions d
      ⟨Window.ofBuffer buffer offset options.maxSize, 0⟩ with
  | .ok _ w => .ok w.sink.position w.sink.buffer
  | .error e w => .error e w.sink.buffer

/-- The buffer with a document from an offset on and the position after the last byte written,
unless the document cannot be written. -/
def encodeInto (d : Document) (buffer : ByteArray) (offset : Nat) (options : EncodeOptions) :
    Except Error (ByteArray × Nat) :=
  match writeInto d offset options buffer with
  | .ok stop written => .ok (written, stop)
  | .error e _ => .error e

/-- The document at the start of the input; what follows it does not count, but for its last
byte. -/
def decode (bytes : ByteArray) (options : DecodeOptions) : Except Error Document := do
  if bytes.size < minDocumentSize then throw (.documentTooShort bytes.size)
  let reader ← Reader.ofBytes bytes 0 options.promoteLongs
  reader.readDocument.1

/-- A number of documents in a row from an offset on, and the position after the last. -/
def decodeMany (bytes : ByteArray) (start count : Nat) (options : DecodeOptions) :
    Except Error (List Document × Nat) := do
  if count = 0 then return ([], start)
  let reader ← Reader.ofBytes bytes start options.promoteLongs
  let (documents, last) ← reader.readAll count
  return (documents, last.position)

end Bson
