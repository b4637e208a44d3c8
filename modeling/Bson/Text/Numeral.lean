/-!
# Integers and decimal numbers as text

* `digitsValue? base`: the number that a nonempty run of digits spells.
* `natural?` and `integer?`: a bounded integer with an optional sign, as it stands in a key or a
  field. Leading zeros are allowed, other characters are not.
* `Numeral`: the parts of a decimal number (sign, whole digits, fraction, exponent), read by
  `Numeral.ofChars?` and not yet judged; which parts may be missing is for the format to say.
-/

namespace Bson.Text

/-- The value of a digit, letters of either case counting from ten. -/
def digitValue (c : Char) : Option Nat :=
  if c.isDigit then some (c.toNat - '0'.toNat)
  else if 'a' ≤ c ∧ c ≤ 'z' then some (c.toNat - 'a'.toNat + 10)
  else if 'A' ≤ c ∧ c ≤ 'Z' then some (c.toNat - 'A'.toNat + 10)
  else none

/-- The value of a digit of a base. -/
def digit? (base : Nat) (c : Char) : Option Nat := (digitValue c).filter (· < base)

/-- The number that digits spell after a number that is already read. -/
def digitsFrom? (base : Nat) : Nat → List Char → Option Nat
  | acc, [] => some acc
  | acc, c :: rest => (digit? base c).bind fun d => digitsFrom? base (base * acc + d) rest

/-- The number that a nonempty run of digits spells. -/
def digitsValue? (base : Nat) (cs : List Char) : Option Nat :=
  if cs.isEmpty then none else digitsFrom? base 0 cs

/-- A sign in front of a number, if there is one. -/
def splitSign : List Char → Option Char × List Char
  | '+' :: rest => (some '+', rest)
  | '-' :: rest => (some '-', rest)
  | cs => (none, cs)

/-- A natural number below a bound, with an optional plus sign. -/
def natural? (base bound : Nat) (s : String) : Option Nat :=
  match splitSign s.toList with
  | (some '-', _) => none
  | (_, ds) => (digitsValue? base ds).filter (· < bound)

/-- A decimal integer between two bounds, both included, with an optional sign. -/
def integer? (least greatest : Int) (s : String) : Option Int :=
  let (sign, ds) := splitSign s.toList
  (digitsValue? 10 ds).bind fun n =>
    let value : Int := if sign = some '-' then -n else n
    if least ≤ value ∧ value ≤ greatest then some value else none

/-- The parts of a decimal number. -/
structure Numeral where
  sign : Option Char
  whole : List Char
  /-- The digits after the point, if there is a point. -/
  fraction : Option (List Char)
  exponent : Option Int
  deriving DecidableEq

namespace Numeral

/-- Reads what may follow the fraction: nothing, or an exponent mark with an integer. -/
def exponent? : List Char → Option (Option Int)
  | [] => some none
  | c :: rest =>
    if c = 'e' ∨ c = 'E' then
      let (sign, ds) := splitSign rest
      (digitsValue? 10 ds).map fun n => some (if sign = some '-' then -(n : Int) else n)
    else none

/-- The parts of a text that is a decimal number through and through. -/
def ofChars? (cs : List Char) : Option Numeral :=
  let (sign, cs) := splitSign cs
  let whole := cs.takeWhile Char.isDigit
  match cs.dropWhile Char.isDigit with
  | '.' :: rest =>
    (exponent? (rest.dropWhile Char.isDigit)).map fun e =>
      ⟨sign, whole, some (rest.takeWhile Char.isDigit), e⟩
  | rest => (exponent? rest).map fun e => ⟨sign, whole, none, e⟩

/-- Whether the sign is a minus sign. -/
def isNegative (n : Numeral) : Bool := n.sign = some '-'

/-- Whether the number has neither a point nor an exponent. -/
def isWhole (n : Numeral) : Bool := n.fraction.isNone ∧ n.exponent.isNone

/-- The digits before and after the point, read as one number. -/
def coefficient (n : Numeral) : Nat :=
  (digitsFrom? 10 0 (n.whole ++ n.fraction.getD [])).getD 0

/-- The power of ten by which that number is multiplied. -/
def scale (n : Numeral) : Int := n.exponent.getD 0 - (n.fraction.getD []).length

end Numeral

end Bson.Text
