/-!
# Base64

Three bytes as four characters of the standard alphabet. The last group is filled up with `=`, and
reading insists on it: the length is a multiple of four, nothing but the end is filled up, and the
bits that no byte uses are zero.
-/

namespace Bson.Text.Base64

/-- The character of a number below 64. -/
def symbol (n : Nat) : Char :=
  if n < 26 then Char.ofNat (65 + n)
  else if n < 52 then Char.ofNat (97 + (n - 26))
  else if n < 62 then Char.ofNat (48 + (n - 52))
  else if n = 62 then '+'
  else '/'

/-- The number of a character of the alphabet. -/
def symbolValue? (c : Char) : Option Nat :=
  let n := c.toNat
  if 65 ≤ n ∧ n ≤ 90 then some (n - 65)
  else if 97 ≤ n ∧ n ≤ 122 then some (n - 97 + 26)
  else if 48 ≤ n ∧ n ≤ 57 then some (n - 48 + 52)
  else if n = 43 then some 62
  else if n = 47 then some 63
  else none

/-- The four characters of three bytes. -/
def group (a b c : Nat) : List Char :=
  [symbol (a / 4), symbol (a % 4 * 16 + b / 16), symbol (b % 16 * 4 + c / 64), symbol (c % 64)]

/-- The characters of bytes. -/
def encodeList : List UInt8 → List Char
  | a :: b :: c :: rest => group a.toNat b.toNat c.toNat ++ encodeList rest
  | [a, b] => (group a.toNat b.toNat 0).take 3 ++ ['=']
  | [a] => (group a.toNat 0 0).take 2 ++ ['=', '=']
  | [] => []

/-- The text of bytes. -/
def encode (bytes : ByteArray) : String := String.ofList (encodeList bytes.data.toList)

/-- The bytes of the last group of four, which may be filled up. -/
def decodeLast (a b : Nat) (c d : Char) : Option (List UInt8) :=
  let first := UInt8.ofNat (a * 4 + b / 16)
  if c = '=' ∧ d = '=' then
    if b % 16 = 0 then some [first] else none
  else do
    let c ← symbolValue? c
    let second := UInt8.ofNat (b % 16 * 16 + c / 4)
    if d = '=' then
      if c % 4 = 0 then return [first, second] else none
    else
      let d ← symbolValue? d
      return [first, second, UInt8.ofNat (c % 4 * 64 + d)]

/-- The bytes that characters spell. -/
def decodeList? : List Char → Option (List UInt8)
  | [] => some []
  | a :: b :: c :: d :: rest => do
    let x ← symbolValue? a
    let y ← symbolValue? b
    if rest.isEmpty then decodeLast x y c d
    else
      let z ← symbolValue? c
      let w ← symbolValue? d
      let bytes := [x * 4 + y / 16, y % 16 * 16 + z / 4, z % 4 * 64 + w].map UInt8.ofNat
      return bytes ++ (← decodeList? rest)
  | _ => none

/-- The bytes that a text spells. -/
def decode? (s : String) : Option ByteArray := (decodeList? s.toList).map List.toByteArray

end Bson.Text.Base64
