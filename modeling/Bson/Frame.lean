import Bson.Cursor
import Bson.Limits
import Bson.Tag
import Bson.Text.Numeral
import Bson.Value.Basic
import Bson.Value.Reference

/-!
# Frames

A frame is an encoded document or array: its length, its elements and a zero byte. The frame
narrows what may be read to its own bytes, its elements must fill it exactly, and what follows it
is read from its end on.

* `Frame.terminator` reads a length and checks the end of the frame.
* `Frame.payload`: the payload of each kind of element. Its first argument is the number of frames
  that may still be opened, which decreases at each frame inside another.
* `Frame.document`: a document frame, with the same count.
-/

namespace Bson.Frame

open Cursor

/-- Reads a payload of the kind that a tag names. -/
abbrev PayloadReader := Region → Tag → Cursor Value

/-- Reads the length of a frame and gives the offset of its terminator. -/
def terminator (r : Region) : Cursor Nat := do
  let lengthAt ← here r
  let length := (← int32 r).toUInt32.toNat
  if length < minDocumentSize then throw (.documentTooShort length)
  let stop := lengthAt + (← minus length 1)
  if r.limit < stop then throw (.boundsExceeded lengthAt (.frameTooLong length))
  if (← r.byteAt stop) ≠ 0 then throw (.missingTerminator stop)
  return stop

/-- Reads what is in a frame and moves on behind it. -/
def framed {α : Type} (body : Region → Cursor α) (r : Region) : Cursor α := do
  let stop ← terminator r
  let a ← body { r with limit := stop }
  set (← r.plus stop 1)
  return a

/-- Does a round of a loop, which must take at least two bytes. -/
def round {α : Type} (r : Region) (step : Cursor α) : Cursor α := do
  let offset ← here r
  let a ← step
  if (← here r) < offset + 2 then throw (.reader (.stalled offset))
  return a

/-- Repeats a step until the terminator is reached, at most a given number of times. -/
def rounds {α : Type} (r : Region) (step : α → Cursor α) : Nat → α → Cursor α
  | 0, a => do
    let offset ← here r
    if offset < r.limit then throw (.reader (.stalled offset)) else return a
  | n + 1, a => do
    if (← here r) < r.limit then rounds r step n (← round r (step a)) else return a

/-- Repeats a step until the terminator is reached, which must then be met exactly. -/
def elements {α : Type} (r : Region) (step : α → Cursor α) (a : α) : Cursor α := do
  let a ← rounds r step (r.limit - (← here r)) a
  let offset ← here r
  if offset ≠ r.limit then throw (.lengthMismatch r.limit offset)
  return a

/-- Reads the tag of an element, its key and its payload. A key may be refused before the payload
is read; an unknown tag is reported after the key. -/
def element {κ : Type} (payload : PayloadReader) (key : String → Except Error κ) (r : Region) :
    Cursor (κ × Value) := do
  let tagAt ← here r
  let tagByte ← byte r
  let k ← key (← cstring r)
  match Tag.ofByte? tagByte with
  | none => throw (.unknownTag tagByte tagAt)
  | some tag => return (k, ← payload r tag)

/-- Reads a field into a document. A repeated key keeps its first place and takes its last value. -/
def field (payload : PayloadReader) (r : Region) (d : Document) : Cursor Document := do
  let (key, v) ← element payload .ok r
  return d.insert key v

/-- Reads the elements of a document. -/
def fields (payload : PayloadReader) (r : Region) : Cursor Document :=
  elements r (field payload r) .empty

/-- The index that the key of an array element gives: decimal digits only, below 2 ^ 32. -/
def index (key : String) : Except Error (String × Nat) :=
  match (Text.digitsValue? 10 key.toList).filter (· < 2 ^ 32) with
  | some n => .ok (key, n)
  | none => .error (.indexInvalid key)

/-- Puts a value at an index of an array. Places that are passed over are left undefined; they may
not be more than the bytes that are left to read. -/
def place (items : Array Value) (key : String) (n : Nat) (v : Value) (bytesLeft : Nat) :
    Except Error (Array Value) :=
  if h : n < items.size then .ok (items.set n v h)
  else do
    let gap ← minus n items.size
    if bytesLeft < gap then throw (.indexInvalid key)
    return (items ++ Array.replicate gap Value.undefined).push v

/-- Reads an item into an array. -/
def item (payload : PayloadReader) (r : Region) (items : Array Value) : Cursor (Array Value) := do
  let ((key, n), v) ← element payload index r
  place items key n v (r.limit - (← here r))

/-- Reads the elements of an array, in any order of their indices. -/
def items (payload : PayloadReader) (r : Region) : Cursor (List Value) := do
  let all ← elements r (item payload r) #[]
  return all.toList

/-- Reads the bytes of binary data, given its length and where the first length stands. -/
def binaryData (r : Region) (lengthAt : Nat) (subtype : UInt8) (length : Int32) :
    Cursor Binary := do
  if length.toInt < 0 then
    throw (.boundsExceeded lengthAt (.negativeBinaryLength length.toInt))
  return ⟨subtype, ← take r length.toInt.toNat⟩

/-- Reads binary data. For the old subtype the inner length counts. -/
def binary (r : Region) : Cursor Binary := do
  let lengthAt ← here r
  let outer ← int32 r
  let subtype ← byte r
  if subtype = oldBinarySubtype then binaryData r lengthAt subtype (← int32 r)
  else binaryData r lengthAt subtype outer

/-- Reads an object id. -/
def objectId (r : Region) : Cursor ObjectId := do
  let start ← here r
  match ObjectId.ofBytes (← take r 12) with
  | .ok id => return id
  | .error _ => throw (.reader (.outOfRange start (start + 12)))

/-- Reads a 64-bit integer; a safe one becomes a number if `promote` is set. -/
def int64Value (promote : Bool) (r : Region) : Cursor Value := do
  let low ← int32 r
  let high ← int32 r
  let l : Long := ⟨low, high⟩
  let n := l.toInt64.toInt
  if promote ∧ -safeIntegerBound < n ∧ n < safeIntegerBound then return .double (.ofInt n)
  else return .long l

/-- Reads code with a scope. Its total length must be that of its parts. -/
def scopedCode (document : Region → Cursor Document) (r : Region) : Cursor Value := do
  let start ← here r
  let total := (← int32 r).toInt
  let source ← string r
  let scope ← document r
  let stop ← here r
  let taken ← minus stop start
  if (taken : Int) ≠ total then throw (.lengthMismatch (start + total.toNat) stop)
  return .scopedCode source scope

/-- Reads a payload, given how the frames in it are read. -/
def payloadWith (promote : Bool) (document : Region → Cursor Document)
    (array : Region → Cursor (List Value)) : PayloadReader
  | r, .double => return .double (← double r)
  | r, .string => return .string (← string r)
  | r, .document => return (← document r).asReference
  | r, .array => return .array (← array r)
  | r, .binary => return .binary (← binary r)
  | _, .undefined => return .null
  | r, .objectId => return .objectId (← objectId r)
  | r, .boolean => return .boolean ((← byte r) ≠ 0)
  | r, .dateTime => return .dateTime (← int64 r)
  | _, .null => return .null
  | r, .regex => do
    let pattern ← cstring r
    let options ← cstring r
    return .regex ⟨pattern, .ofOptions options⟩
  | r, .code => return .code (← string r)
  | r, .symbol => return .symbol (← string r)
  | r, .scopedCode => scopedCode document r
  | r, .int32 => return .int32 (← int32 r)
  | r, .timestamp => do
    let low ← int32 r
    let high ← int32 r
    return .timestamp ⟨low, high⟩
  | r, .int64 => int64Value promote r
  | _, .maxKey => return .maxKey
  | _, .minKey => return .minKey

/-- Refuses to open a frame. -/
def tooDeep {α : Type} : Cursor α := throw (.nestingTooDeep maxDepth)

/-- Reads a payload in which at most `levels` frames may be open at once. -/
def payload (promote : Bool) : (levels : Nat) → PayloadReader
  | 0 => payloadWith promote (fun _ => tooDeep) fun _ => tooDeep
  | levels + 1 =>
    payloadWith promote (framed (fields (payload promote levels)))
      (framed (items (payload promote levels)))

/-- Reads a document in which at most `levels` frames may be open at once, itself included. -/
def document (promote : Bool) : (levels : Nat) → Region → Cursor Document
  | 0, _ => tooDeep
  | levels + 1, r => framed (fields (payload promote levels)) r

end Bson.Frame
