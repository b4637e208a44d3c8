import Bson.Key
import Bson.Limits
import Bson.Sink.Basic

/-!
# Writing values to a sink

The encoding of values, the same for every sink. A document is its length, its elements and a zero
byte; an element is the tag of its payload, its key and the payload. Lengths and tags are filled in
after what they describe.

A `Writer` is a sink with the number of documents and arrays that are open. A write that fails
leaves them open, so later writes count them too.
-/

namespace Bson

/-- What a writer refuses and leaves out. -/
structure WriteOptions where
  /-- Refuse keys that break the rule for keys. -/
  checkKeys : Bool := false
  /-- Write functions as code instead of leaving them out. -/
  keepFunctions : Bool := false
  deriving DecidableEq

/-- A sink with the number of documents and arrays that are open. -/
structure Writer (σ : Type) where
  sink : σ
  depth : Nat := 0

/-- Steps of a writer; what was done before a failure stands. -/
abbrev WriteM (σ : Type) := EStateM Error (Writer σ)

namespace Writer

variable {σ : Type}

/-- Runs steps on the sink of a writer. -/
def onSink {α : Type} (f : SinkM σ α) : WriteM σ α := fun ⟨sink, depth⟩ =>
  match f sink with
  | .ok a sink => .ok a ⟨sink, depth⟩
  | .error e sink => .error e ⟨sink, depth⟩

/-- Opens a document or an array, unless too many are open. -/
def enter : WriteM σ Unit := do
  if maxDepth ≤ (← get).depth then throw (.nestingTooDeep maxDepth)
  modify fun w => { w with depth := w.depth + 1 }

/-- Closes a document or an array. -/
def leave : WriteM σ Unit := modify fun w => { w with depth := w.depth - 1 }

/-- Refuses a key that breaks the rule, if keys are checked. -/
def checkKey (options : WriteOptions) (key : String) : WriteM σ Unit :=
  if options.checkKeys then
    match Key.check key with
    | .ok _ => pure ()
    | .error e => throw e
  else pure ()

/-- Whether the field of a value is left out of a document. -/
def isDropped (options : WriteOptions) : Value → Bool
  | .undefined => true
  | .function _ => !options.keepFunctions
  | _ => false

variable [Sink σ]

/-- A length field and what it measures. -/
def measured (body : WriteM σ Unit) : WriteM σ Unit := do
  let position ← onSink Sink.openLength
  body
  onSink (Sink.closeLength position)

/-- A document or an array with the elements that `elements` writes. -/
def container (elements : WriteM σ Unit) : WriteM σ Unit := do
  enter
  measured do
    elements
    onSink (Sink.writeByte 0)
  leave

/-- An element: tag, key and a payload that tells its tag. -/
def element (key : String) (payload : WriteM σ Tag) : WriteM σ Unit := do
  let position ← onSink Sink.openTag
  onSink (Sink.writeCString key)
  let tag ← payload
  onSink (Sink.closeTag position tag)

/-- A text as payload. -/
def text (tag : Tag) (s : String) : WriteM σ Tag := do
  onSink (Sink.writeString s)
  return tag

/-- Binary data: its length, its subtype, the length again for the old subtype, and the bytes. -/
def binary (subtype : UInt8) (data : ByteArray) : WriteM σ Tag := do
  let length := Int32.ofNat data.size
  onSink do
    Sink.writeInt32 length
    Sink.writeByte subtype
    if subtype = oldBinarySubtype then Sink.writeInt32 length
    Sink.write data
  return .binary

/-- A number: as a 32-bit integer if it is one, else as a double. -/
def number (x : Double) : WriteM σ Tag := do
  match x.toInt32? with
  | some n =>
    onSink (Sink.writeInt32 n)
    return .int32
  | none =>
    onSink (Sink.writeDouble x)
    return .double

/-- Two 32-bit integers as payload. -/
def halves (tag : Tag) (low high : Int32) : WriteM σ Tag := do
  onSink do
    Sink.writeInt32 low
    Sink.writeInt32 high
  return tag

mutual

/-- Writes the payload of a value and tells its tag. -/
def value (options : WriteOptions) : Value → WriteM σ Tag
  | .double x => number x
  | .boxedDouble x => do
    onSink (Sink.writeDouble x)
    return .double
  | .int32 n => do
    onSink (Sink.writeInt32 n)
    return .int32
  | .long n => halves .int64 n.low n.high
  | .string s => text .string s
  | .document fields => do
    container (elements options fields.entries)
    return .document
  | .array list => do
    container (items options 0 list)
    return .array
  | .binary b => binary b.subtype b.data
  | .bytes data => binary genericSubtype data
  | .objectId id => do
    onSink (Sink.write id.bytes)
    return .objectId
  | .boolean b => do
    onSink (Sink.writeByte (if b then 1 else 0))
    return .boolean
  | .dateTime millis => do
    onSink (Sink.writeInt64 millis)
    return .dateTime
  | .null => return .null
  | .undefined => return .null
  | .regex r => do
    onSink do
      Sink.writeCString r.pattern
      Sink.writeCString r.flags.toOptions
    return .regex
  | .code source => text .code source
  | .scopedCode source scope =>
    if scope.isEmpty then text .code source
    else do
      measured do
        onSink (Sink.writeString source)
        container (elements options scope.entries)
      return .scopedCode
  | .function source => text .code source
  | .symbol s => text .symbol s
  | .timestamp t => halves .timestamp t.low t.high
  | .minKey => return .minKey
  | .maxKey => return .maxKey
  | .dbRef collection id database => do
    container do
      element refKey (text .string collection)
      element idKey (value options id)
      match database with
      | some database => element dbKey (text .string database)
      | none => pure ()
    return .document
  | .hook _ result =>
    if result.isConvertible then throw (.hookInvalid .returnedHook) else value options result
  | .brokenHook slot => throw (.hookInvalid (.notCallable slot.kind))

/-- Writes the fields of a document, without those that are left out. -/
def elements (options : WriteOptions) : {keys : List String} → Entries Value keys → WriteM σ Unit
  | _, .nil => pure ()
  | _, .snoc init key v _ => do
    elements options init
    checkKey options key
    if isDropped options v then pure () else element key (value options v)

/-- Writes the items of an array, the first of them under a given index. -/
def items (options : WriteOptions) : Nat → List Value → WriteM σ Unit
  | _, [] => pure ()
  | index, v :: rest => do
    element (toString index) (value options v)
    items options (index + 1) rest

end

/-- Writes a document. -/
def document (options : WriteOptions) (d : Document) : WriteM σ Unit :=
  container (elements options d.entries)

/-- Writes an array. -/
def array (options : WriteOptions) (list : List Value) : WriteM σ Unit :=
  container (items options 0 list)

end Writer

end Bson
