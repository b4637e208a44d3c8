import Bson.Instances
import Bson.Text.Hex
import Bson.Text.Quoted

/-!
# Object ids

Twelve bytes: four of a time in seconds, five of the process, three of a counter, each number with
its most significant byte first.

* `ObjectId.ofHex` and `ObjectId.toHex`: the 24 hexadecimal digits of an id.
* `ObjectId.Generator`: the state from which a process draws its ids. The counter has 32 bits and
  wraps; an id shows its low 24.
-/

namespace Bson

/-- Twelve bytes that name an object. -/
structure ObjectId where
  bytes : ByteArray
  size_bytes : bytes.size = 12
  deriving DecidableEq

namespace ObjectId

/-- Why a text or a list names no object. -/
inductive Fault
  | hex (fault : Text.Hex.Fault)
  | wrongSize
  deriving DecidableEq

/-- The wording of a fault. -/
def Fault.message : Fault → String
  | .hex .oddLength => "Invalid ObjectId: Invalid hex: Odd number of digits"
  | .hex (.badDigit byte position) =>
    "Invalid ObjectId: Invalid hex: Invalid character " ++
      Text.Quoted.char (Char.ofNat byte.toNat) ++ " at position " ++ toString position
  | .wrongSize => "Invalid ObjectId: ObjectId must be 12 bytes"

/-- The id with given bytes, if there are twelve. -/
def ofBytes (bytes : ByteArray) : Except Fault ObjectId :=
  if h : bytes.size = 12 then .ok ⟨bytes, h⟩ else .error .wrongSize

/-- The id that a text spells in hexadecimal digits. -/
def ofHex (s : String) : Except Fault ObjectId :=
  match Text.Hex.decode s with
  | .ok bytes => ofBytes bytes
  | .error fault => .error (.hex fault)

/-- The 24 lower-case digits of an id. -/
def toHex (id : ObjectId) : String := Text.Hex.encode id.bytes

/-- The number with given bytes, the most significant first. -/
def bigEndian (bytes : List UInt8) : Nat := bytes.foldl (fun n b => n * 256 + b.toNat) 0

/-- The seconds recorded in an id. -/
def timestamp (id : ObjectId) : UInt32 := UInt32.ofNat (bigEndian (id.bytes.data.toList.take 4))

/-- The five bytes that ids of one process share. -/
def processBytes (id : ObjectId) : List UInt8 := (id.bytes.data.toList.drop 4).take 5

/-- The counter recorded in an id. -/
def counter (id : ObjectId) : Nat := bigEndian (id.bytes.data.toList.drop 9)

/-- The order of ids byte by byte. -/
def compare (a b : ObjectId) : Ordering := compareOfLessAndEq a.bytes.data.toList b.bytes.data.toList

/-- The state from which a process draws ids. -/
structure Generator where
  process : Vector UInt8 5
  counter : UInt32

namespace Generator

/-- A generator that starts from random bytes; the counter starts within 24 bits. -/
def seeded (process : Vector UInt8 5) (seed : UInt32) : Generator := ⟨process, seed % 0x1000000⟩

/-- The bytes of the id drawn at a time in seconds. -/
def bytes (g : Generator) (seconds : UInt32) : Vector UInt8 12 :=
  let t := seconds.toNat
  let n := g.counter.toNat % 2 ^ 24
  (#v[t / 2 ^ 24, t / 2 ^ 16, t / 2 ^ 8, t].map UInt8.ofNat ++ g.process ++
    #v[n / 2 ^ 16, n / 2 ^ 8, n].map UInt8.ofNat).cast rfl

/-- Draws an id at a time in seconds and steps the counter. -/
def next (g : Generator) (seconds : UInt32) : ObjectId × Generator :=
  let drawn := g.bytes seconds
  (⟨⟨drawn.toArray⟩, drawn.size_toArray⟩, { g with counter := g.counter + 1 })

/-- Draws one id at each of the given times. -/
def draw (g : Generator) : List UInt32 → List ObjectId
  | [] => []
  | seconds :: rest => (g.next seconds).1 :: (g.next seconds).2.draw rest

end Generator

end ObjectId

end Bson
