/-!
# Hexadecimal bytes

Two digits a byte, the high half first. Writing uses lower case, reading takes either case and
looks at the bytes of the text: first at their number, then at each of them in turn.
-/

namespace Bson.Text.Hex

/-- Why a text spells no bytes. -/
inductive Fault
  | oddLength
  | badDigit (byte : UInt8) (position : Nat)
  deriving DecidableEq

/-- The lower-case digit of a number below sixteen. -/
def digit (n : UInt8) : Char :=
  if n < 10 then Char.ofNat ('0'.toNat + n.toNat) else Char.ofNat ('a'.toNat + n.toNat - 10)

/-- The two digits of a byte. -/
def ofByte (b : UInt8) : List Char := [digit (b / 16), digit (b % 16)]

/-- The digits of bytes. -/
def encode (bytes : ByteArray) : String := String.ofList (bytes.data.toList.flatMap ofByte)

/-- The value of a digit given as a byte of text. -/
def digit? (b : UInt8) : Option UInt8 :=
  if 48 ≤ b ∧ b ≤ 57 then some (b - 48)
  else if 97 ≤ b ∧ b ≤ 102 then some (b - 87)
  else if 65 ≤ b ∧ b ≤ 70 then some (b - 55)
  else none

/-- The value of the digit at a position. -/
def digitAt (b : UInt8) (position : Nat) : Except Fault UInt8 :=
  match digit? b with
  | some d => .ok d
  | none => .error (.badDigit b position)

/-- Reads pairs of digits, the first of them at a position. -/
def decodeFrom : Nat → List UInt8 → Except Fault (List UInt8)
  | position, high :: low :: rest => do
    let h ← digitAt high position
    let l ← digitAt low (position + 1)
    return (h * 16 + l) :: (← decodeFrom (position + 2) rest)
  | _, _ => .ok []

/-- The bytes that a text spells. -/
def decode (s : String) : Except Fault ByteArray := do
  let bytes := s.toUTF8.data.toList
  if bytes.length % 2 = 1 then throw .oddLength
  return (← decodeFrom 0 bytes).toByteArray

end Bson.Text.Hex
