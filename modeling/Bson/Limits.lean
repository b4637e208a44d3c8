import Bson.Instances

/-!
# Limits of the format

The numbers that encoder, decoder and configuration share.
-/

namespace Bson

/-- How deep documents and arrays may nest, the outermost included. -/
def maxDepth : Nat := 100

/-- The least length of a document: its length field and its terminator. -/
def minDocumentSize : Nat := 5

/-- The greatest size of an encoded document unless another is chosen: 17 MiB. -/
def defaultMaxSize : Nat := 17 * 1024 * 1024

/-- The greatest length that a length field holds. -/
def maxLengthField : Nat := 2 ^ 31 - 1

/-- Integers below this magnitude are told apart as doubles. -/
def safeIntegerBound : Int := 2 ^ 53

/-- The subtype of plain bytes. -/
def genericSubtype : UInt8 := 0

/-- The subtype whose payload repeats its length. -/
def oldBinarySubtype : UInt8 := 2

/-- The key of the collection of a reference. -/
def refKey : String := "$ref"

/-- The key of the object of a reference. -/
def idKey : String := "$id"

/-- The key of the database of a reference. -/
def dbKey : String := "$db"

end Bson
