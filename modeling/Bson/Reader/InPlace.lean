import Bson.Reader

/-!
# A reader that changes its own bounds

The same reading, done by a reader that is changed step by step. A frame narrows the limit and
counts itself among the open frames as long as what is in it is read, and takes both back when it is
left, be it after a failure. A step that fails leaves the position where it failed, until the next
frame around it moves it to its own end.

* `Reader.opened`, `Reader.closed`: a reader at the start of what is in a frame, and behind the frame.
* `InPlace.framed`: how a frame is read.
* `Reader.readInPlace`: a document, and the reader as it is left. `Reader.readsInPlace`: the reader
  after a number of documents.
-/

namespace Bson

/-- Steps that change a reader; what was done before a failure stands. -/
abbrev ReadM := EStateM Error Reader

/-- A reader in a frame that ends at an offset. -/
def Reader.opened (r : Reader) (stop : Nat) : Reader :=
  { r with limit := stop, openFrames := r.openFrames + 1 }

/-- A reader behind a frame, with the limit that was in force around it. -/
def Reader.closed (r : Reader) (limit stop : Nat) : Reader :=
  { r with limit, openFrames := r.openFrames - 1, position := stop + 1 }

namespace InPlace

variable {α κ : Type}

/-- A check of which nothing but the result is taken over. -/
instance : MonadLift (Except Error) ReadM where
  monadLift x r :=
    match x with
    | .ok a => .ok a r
    | .error e => .error e r

/-- A step of a cursor that moves only if it does not fail. -/
def atCursor (m : Region → Cursor α) : ReadM α := fun r =>
  match m r.region r.position with
  | .ok (a, position) => .ok a { r with position }
  | .error e => .error e r

/-- Does steps and gives what they end with, be it an error. -/
def attempt (m : ReadM α) : ReadM (Except Error α) := fun r =>
  match m r with
  | .ok a r => .ok (.ok a) r
  | .error e r => .ok (.error e) r

/-- What may be read at the moment. -/
def region : ReadM Region := return (← get).region

/-- The position. -/
def here : ReadM Nat := atCursor Cursor.here

/-- Takes a number of bytes. -/
def take (count : Nat) : ReadM ByteArray := atCursor (Cursor.take · count)

/-- Takes a byte. -/
def byte : ReadM UInt8 := atCursor Cursor.byte

/-- Takes a 32-bit integer. -/
def int32 : ReadM Int32 := atCursor Cursor.int32

/-- Takes a 64-bit integer. -/
def int64 : ReadM Int64 := atCursor Cursor.int64

/-- Takes a double. -/
def double : ReadM Double := atCursor Cursor.double

/-- Takes a text that a zero byte ends. -/
def cstring : ReadM String := do
  let r ← region
  let start ← here
  r.checkRange start r.limit
  match r.findZero? start (r.limit - start) with
  | none => throw (.unterminatedText start)
  | some stop =>
    let _ ← take (← r.plus (stop - start) 1)
    Cursor.utf8 (← r.slice start stop) start

/-- Takes a text with its length in front. -/
def string : ReadM String := do
  let r ← region
  let lengthAt ← here
  let length := (← int32).toInt
  if length < 1 then throw (.boundsExceeded lengthAt (.invalidStringLength length))
  let start ← here
  let _ ← take length.toNat
  let stop := start + (← minus length.toNat 1)
  if (← r.byteAt stop) ≠ 0 then throw (.unterminatedText start)
  Cursor.utf8 (← r.slice start stop) start

/-- The offset of the terminator of a frame with a given length, which must be in its place. -/
def terminatorAt (r : Region) (lengthAt length : Nat) : Except Error Nat := do
  if length < minDocumentSize then throw (.documentTooShort length)
  let stop := lengthAt + (← minus length 1)
  if r.limit < stop then throw (.boundsExceeded lengthAt (.frameTooLong length))
  if (← r.byteAt stop) ≠ 0 then throw (.missingTerminator stop)
  return stop

/-- Reads the length of a frame and gives the offset of its terminator. -/
def terminator : ReadM Nat := do
  let r ← region
  let lengthAt ← here
  let length ← int32
  terminatorAt r lengthAt length.toUInt32.toNat

/-- Reads what is in a frame, within its bounds, and leaves it, even after a failure. -/
def framed (body : ReadM α) : ReadM α := do
  let outer ← get
  if maxDepth ≤ outer.openFrames then throw (.nestingTooDeep maxDepth)
  let stop ← terminator
  modify (·.opened stop)
  let result ← attempt body
  modify (·.closed outer.limit stop)
  liftM result

/-- Does a round of a loop, which must take at least two bytes. -/
def round (m : ReadM α) : ReadM α := do
  let offset ← here
  let a ← m
  if (← here) < offset + 2 then throw (.reader (.stalled offset))
  return a

/-- Repeats a step until the terminator is reached, at most a given number of times. -/
def rounds (m : α → ReadM α) : Nat → α → ReadM α
  | 0, a => do
    let offset ← here
    if offset < (← region).limit then throw (.reader (.stalled offset)) else return a
  | n + 1, a => do
    if (← here) < (← region).limit then rounds m n (← round (m a)) else return a

/-- Repeats a step until the terminator is reached, which must then be met exactly. -/
def elements (m : α → ReadM α) (a : α) : ReadM α := do
  let a ← rounds m ((← region).limit - (← here)) a
  let offset ← here
  let r ← region
  if offset ≠ r.limit then throw (.lengthMismatch r.limit offset)
  return a

/-- Reads the tag of an element, its key and its payload. -/
def element (payload : Tag → ReadM Value) (key : String → Except Error κ) : ReadM (κ × Value) := do
  let tagAt ← here
  let tagByte ← byte
  let k ← key (← cstring)
  match Tag.ofByte? tagByte with
  | none => throw (.unknownTag tagByte tagAt)
  | some tag => return (k, ← payload tag)

/-- Reads a field into a document. -/
def field (payload : Tag → ReadM Value) (d : Document) : ReadM Document := do
  let (key, v) ← element payload .ok
  return d.insert key v

/-- Reads the elements of a document. -/
def fields (payload : Tag → ReadM Value) : ReadM Document := elements (field payload) .empty

/-- Reads an item into an array. -/
def item (payload : Tag → ReadM Value) (all : Array Value) : ReadM (Array Value) := do
  let ((key, n), v) ← element payload Frame.index
  Frame.place all key n v ((← region).limit - (← here))

/-- Reads the elements of an array. -/
def items (payload : Tag → ReadM Value) : ReadM (List Value) := do
  let all ← elements (item payload) #[]
  return all.toList

/-- Reads the bytes of binary data, given its length and where the first length stands. -/
def binaryData (lengthAt : Nat) (subtype : UInt8) (length : Int32) : ReadM Binary := do
  if length.toInt < 0 then
    throw (.boundsExceeded lengthAt (.negativeBinaryLength length.toInt))
  return ⟨subtype, ← take length.toInt.toNat⟩

/-- Reads binary data. -/
def binary : ReadM Binary := do
  let lengthAt ← here
  let outer ← int32
  let subtype ← byte
  if subtype = oldBinarySubtype then binaryData lengthAt subtype (← int32)
  else binaryData lengthAt subtype outer

/-- Reads an object id. -/
def objectId : ReadM ObjectId := do
  let start ← here
  match ObjectId.ofBytes (← take 12) with
  | .ok id => return id
  | .error _ => throw (.reader (.outOfRange start (start + 12)))

/-- Reads a 64-bit integer; a safe one becomes a number if the reader promotes. -/
def int64Value : ReadM Value := do
  let promote := (← get).promote
  let low ← int32
  let high ← int32
  let l : Long := ⟨low, high⟩
  let n := l.toInt64.toInt
  if promote ∧ -safeIntegerBound < n ∧ n < safeIntegerBound then return .double (.ofInt n)
  else return .long l

/-- Reads code with a scope. -/
def scopedCode (document : ReadM Document) : ReadM Value := do
  let start ← here
  let total := (← int32).toInt
  let source ← string
  let scope ← document
  let stop ← here
  let taken ← minus stop start
  if (taken : Int) ≠ total then throw (.lengthMismatch (start + total.toNat) stop)
  return .scopedCode source scope

/-- Reads a payload, given how the frames in it are read. -/
def payloadWith (document : ReadM Document) (array : ReadM (List Value)) : Tag → ReadM Value
  | .double => return .double (← double)
  | .string => return .string (← string)
  | .document => return (← document).asReference
  | .array => return .array (← array)
  | .binary => return .binary (← binary)
  | .undefined => return .null
  | .objectId => return .objectId (← objectId)
  | .boolean => return .boolean ((← byte) ≠ 0)
  | .dateTime => return .dateTime (← int64)
  | .null => return .null
  | .regex => do
    let pattern ← cstring
    let options ← cstring
    return .regex ⟨pattern, .ofOptions options⟩
  | .code => return .code (← string)
  | .symbol => return .symbol (← string)
  | .scopedCode => scopedCode document
  | .int32 => return .int32 (← int32)
  | .timestamp => do
    let low ← int32
    let high ← int32
    return .timestamp ⟨low, high⟩
  | .int64 => int64Value
  | .maxKey => return .maxKey
  | .minKey => return .minKey

/-- Refuses to open a frame. -/
def tooDeep : ReadM α := throw (.nestingTooDeep maxDepth)

/-- Reads a payload. The number bounds the frames in it, all of which count themselves; no more than
`maxDepth` of them are ever open. -/
def payload : Nat → Tag → ReadM Value
  | 0 => payloadWith tooDeep tooDeep
  | n + 1 => payloadWith (framed (fields (payload n))) (framed (items (payload n)))

/-- Reads a document. -/
def document : ReadM Document := framed (fields (payload maxDepth))

end InPlace

namespace Reader

/-- The document at the position of a reader, and the reader as the steps leave it. -/
def readInPlace (r : Reader) : Except Error Document × Reader :=
  match InPlace.document r with
  | .ok d r' => (.ok d, r')
  | .error e r' => (.error e, r')

/-- The reader after a number of documents, be they read or refused. -/
def readsInPlace (r : Reader) : Nat → Reader
  | 0 => r
  | n + 1 => (r.readsInPlace n).readInPlace.2

end Reader

end Bson
