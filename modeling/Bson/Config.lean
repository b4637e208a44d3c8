import Bson.Codec
import Bson.Toml.Reading

/-!
# Codec configuration

The choices of a codec, read from TOML. A missing key has its default, an unknown one does not
count. The greatest size must hold the empty document and fit a length field.
-/

namespace Bson

/-- The choices of a codec. -/
structure Config where
  maxSize : Nat := defaultMaxSize
  checkKeys : Bool := false
  keepFunctions : Bool := false
  promoteLongs : Bool := true
  deriving DecidableEq

namespace Config

/-- Why there is no configuration. -/
inductive Fault
  | unreadable
  | malformed
  | sizeTooSmall (size : Nat)
  | sizeTooLarge (size : Nat)
  deriving DecidableEq

/-- The wording of a fault. -/
def Fault.message : Fault → String
  | unreadable => "Config error: Failed to read config"
  | malformed => "Config error: Failed to parse config"
  | sizeTooSmall size =>
    "Config error: max_bson_size must be at least " ++ toString minDocumentSize ++
      " bytes, got " ++ toString size
  | sizeTooLarge size =>
    "Config error: max_bson_size " ++ toString size ++
      " does not fit in an int32 length prefix"

/-- Refuses a greatest size that is out of range. -/
def validate (c : Config) : Except Fault Config :=
  if c.maxSize < minDocumentSize then .error (.sizeTooSmall c.maxSize)
  else if maxLengthField < c.maxSize then .error (.sizeTooLarge c.maxSize)
  else .ok c

/-- A truth value under a key, or its default. -/
def boolField? (t : Toml.Table) (key : String) (default : Bool) : Option Bool :=
  match t.get? key with
  | none => some default
  | some (.boolean b) => some b
  | some _ => none

/-- A size under a key, or its default. -/
def sizeField? (t : Toml.Table) (key : String) (default : Nat) : Option Nat :=
  match t.get? key with
  | none => some default
  | some (.integer n) => if 0 ≤ n.toInt then some n.toInt.toNat else none
  | some _ => none

/-- The choices that a table makes. -/
def ofTable? (t : Toml.Table) : Option Config := do
  let maxSize ← sizeField? t "max_bson_size" defaultMaxSize
  let checkKeys ← boolField? t "check_keys" false
  let keepFunctions ← boolField? t "serialize_functions" false
  let promoteLongs ← boolField? t "promote_longs" true
  return { maxSize, checkKeys, keepFunctions, promoteLongs }

/-- The configuration that a TOML text gives. -/
def ofToml (s : String) : Except Fault Config :=
  match (Toml.read? s).bind ofTable? with
  | none => .error .malformed
  | some c => c.validate

/-- The configuration in a file with given bytes, if there is one. -/
def ofFile : Option ByteArray → Except Fault Config
  | none => .error .unreadable
  | some bytes =>
    if h : bytes.IsValidUTF8 then ofToml (String.fromUTF8 bytes h) else .error .unreadable

/-- A truth value in TOML. -/
def boolText (b : Bool) : String := if b then "true" else "false"

/-- The configuration as TOML. -/
def toToml (c : Config) : String :=
  "max_bson_size = " ++ toString c.maxSize ++ "\n" ++
    "check_keys = " ++ boolText c.checkKeys ++ "\n" ++
    "serialize_functions = " ++ boolText c.keepFunctions ++ "\n" ++
    "promote_longs = " ++ boolText c.promoteLongs ++ "\n"

/-- The choices for encoding. -/
def encodeOptions (c : Config) : EncodeOptions :=
  { checkKeys := c.checkKeys, keepFunctions := c.keepFunctions, maxSize := c.maxSize }

/-- The choices for decoding. -/
def decodeOptions (c : Config) : DecodeOptions := { promoteLongs := c.promoteLongs }

end Config

end Bson
