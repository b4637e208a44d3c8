import Bson.Json.Writing
import Bson.Text.Quoted
import Bson.Value.Basic

/-!
# Errors

Why a document cannot be encoded, bytes cannot be decoded, or JSON stands for no value. Each error
is a cause; `Error.message` is its wording.
-/

namespace Bson

/-- What is wrong with a key of a document. -/
inductive KeyFault
  | containsNul
  | startsWithDollar
  | containsDot
  deriving DecidableEq

/-- The wording of a key fault. -/
def KeyFault.message : KeyFault → String
  | containsNul => "must not contain null bytes"
  | startsWithDollar => "must not start with '$'"
  | containsDot => "must not contain '.'"

/-- Why a conversion hook gives no value to write. -/
inductive HookFault
  /-- The slot holds a value of some kind that cannot be called. -/
  | notCallable (found : Kind)
  /-- The hook returned a value that has a hook itself. -/
  | returnedHook
  deriving DecidableEq

/-- The wording of a hook fault. -/
def HookFault.message : HookFault → String
  | notCallable found => "toBSON is not a function (found " ++ found.name ++ ")"
  | returnedHook => "toBSON returned another convertible value"

/-- A read or a length that leaves the bounds in force. -/
inductive BoundsFault
  | startBeyond (size : Nat)
  | readPast (count limit : Nat)
  | frameTooLong (length : Nat)
  | negativeBinaryLength (length : Int)
  | invalidStringLength (length : Int)
  deriving DecidableEq

/-- The wording of a bounds fault. -/
def BoundsFault.message : BoundsFault → String
  | startBeyond size => "start offset beyond input of " ++ toString size ++ " bytes"
  | readPast count limit =>
    "read of " ++ toString count ++ " bytes past end of document at " ++ toString limit
  | frameTooLong length =>
    "child document of " ++ toString length ++ " bytes exceeds parent's bounds"
  | negativeBinaryLength length => "negative binary length " ++ toString length
  | invalidStringLength length => "invalid string length " ++ toString length

/-- Why JSON stands for no value. -/
inductive JsonFault
  | malformed
  | notObject (found : Json)
  | scopeNotObject
  | missingField (name : String)
  | notString (name : String)
  | notUInt32 (name : String)
  | badObjectId (fault : ObjectId.Fault)
  | badDateText (text : String)
  | badDate (found : Json)
  | dateWithoutNumber
  /-- The text under a number wrapper is no such number. -/
  | badNumber (wrapper text : String)
  | badBase64
  | badSubtype (text : String)

/-- The wording of a JSON fault. -/
def JsonFault.message : JsonFault → String
  | malformed => "JSON parsing failed"
  | notObject found => "expected an object, found " ++ found.compact
  | scopeNotObject => "$scope must be an object"
  | missingField name => "missing field " ++ Text.Quoted.text name
  | notString name => name ++ " must be a string"
  | notUInt32 name => name ++ " must be a 32-bit unsigned integer"
  | badObjectId fault => fault.message
  | badDateText text => "bad $date " ++ Text.Quoted.text text
  | badDate found => "bad $date " ++ found.compact
  | dateWithoutNumber => "$date object must hold $numberLong"
  | badNumber wrapper text => "bad " ++ wrapper ++ " " ++ Text.Quoted.text text
  | badBase64 => "bad base64"
  | badSubtype text => "bad binary subType " ++ Text.Quoted.text text

/-- A step that a reader must never take: it is refused and reported, and no input leads to it. -/
inductive ReaderFault
  /-- Bytes were asked for that are not in the input, or from behind the end of their range. -/
  | outOfRange (start stop : Nat)
  /-- A number was taken from a smaller one. -/
  | underflow (a b : Nat)
  /-- A sum of offsets passed the size of the input, the greatest offset there is. -/
  | overflow (a b : Nat)
  /-- The cursor left the input, or the terminator in force is not in it. -/
  | misplaced (offset limit : Nat)
  /-- A round of a loop took fewer than two bytes, or there were more rounds than bytes. -/
  | stalled (offset : Nat)
  deriving DecidableEq

/-- Why an operation fails. Offsets count from the start of the input. -/
inductive Error
  | sizeExceeded (limit : Nat)
  | keyInvalid (key : String) (fault : KeyFault)
  | hookInvalid (fault : HookFault)
  | documentTooShort (length : Nat)
  | boundsExceeded (offset : Nat) (fault : BoundsFault)
  | unterminatedText (offset : Nat)
  | lengthMismatch (expected actual : Nat)
  | indexInvalid (key : String)
  | unknownTag (byte : UInt8) (offset : Nat)
  | missingTerminator (offset : Nat)
  | invalidUtf8 (offset : Nat)
  | nestingTooDeep (limit : Nat)
  | invalidJson (fault : JsonFault)
  | reader (fault : ReaderFault)

/-- The wording of an error. -/
def Error.message : Error → String
  | sizeExceeded limit =>
    "Document is larger than the maximum BSON size of " ++ toString limit ++ " bytes"
  | keyInvalid key fault => "Invalid key " ++ Text.Quoted.text key ++ ": " ++ fault.message
  | hookInvalid fault => "Invalid conversion hook: " ++ fault.message
  | documentTooShort length =>
    "Bad BSON: document length " ++ toString length ++ " is less than 5 bytes"
  | boundsExceeded offset fault =>
    "Bad BSON: " ++ fault.message ++ " at offset " ++ toString offset
  | unterminatedText offset =>
    "Bad BSON: unterminated string starting at offset " ++ toString offset
  | lengthMismatch expected actual =>
    "Bad BSON: document body ended at offset " ++ toString actual ++ ", expected " ++
      toString expected
  | indexInvalid key => "Bad BSON: invalid array index " ++ Text.Quoted.text key
  | unknownTag byte offset =>
    "Unhandled BSON type 0x" ++ String.ofList (Text.Hex.ofByte byte) ++ " at offset " ++
      toString offset
  | missingTerminator offset => "Missing end of document marker at offset " ++ toString offset
  | invalidUtf8 offset => "Bad BSON: invalid UTF-8 in string at offset " ++ toString offset
  | nestingTooDeep limit => "Nesting too deep: max " ++ toString limit
  | invalidJson fault => "Invalid extended JSON: " ++ fault.message
  | reader (.outOfRange start stop) =>
    "Bad BSON: bytes " ++ toString start ++ " to " ++ toString stop ++ " are not in the input"
  | reader (.underflow a b) =>
    "Bad BSON: " ++ toString b ++ " cannot be taken from " ++ toString a
  | reader (.overflow a b) =>
    "Bad BSON: offset " ++ toString a ++ " and " ++ toString b ++ " bytes pass the end of the input"
  | reader (.misplaced offset limit) =>
    "Bad BSON: cursor at offset " ++ toString offset ++ " or terminator at offset " ++
      toString limit ++ " is not in the input"
  | reader (.stalled offset) => "Bad BSON: no progress at offset " ++ toString offset

/-- Steps that may fail succeed if each of them does. -/
theorem Error.bind_eq_ok {α β : Type} {x : Except Error α} {f : α → Except Error β} {b : β} :
    x >>= f = .ok b ↔ ∃ a, x = .ok a ∧ f a = .ok b := by
  change Except.bind x f = _ ↔ _
  cases x <;> simp [Except.bind]

section Steps

variable {σ α β : Type} {m : EStateM Error σ α} {s s' : σ}

/-- Steps that change a state go on from where the first of them ends well. -/
theorem Error.bind_eq_of_ok (f : α → EStateM Error σ β) {a : α} (h : m s = .ok a s') :
    (m >>= f) s = f a s' := by
  change EStateM.bind m f s = _
  rw [EStateM.bind, h]

/-- They end where the first of them fails. -/
theorem Error.bind_eq_of_error (f : α → EStateM Error σ β) {e : Error} (h : m s = .error e s') :
    (m >>= f) s = .error e s' := by
  change EStateM.bind m f s = _
  rw [EStateM.bind, h]

end Steps

end Bson
