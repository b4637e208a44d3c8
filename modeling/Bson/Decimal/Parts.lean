import Bson.Decimal.Basic
import Bson.Double.Arithmetic
import Bson.Text.Numeral

/-!
# Reading a decimal by its parts

A quick way to read a number rounds its parts instead of the number. The digits make a whole number
of 64 bits as long as there is room; of those that are left over only the ones before the point
count, by their number. The whole number is rounded to a double, and this is multiplied with or
divided by a power of ten that is rounded too. What comes out is near the number, but it need not be
the double nearest to it.

* `Text.Numeral.parts`: the digits that are taken, and the power of ten that belongs to them.
* `Decimal.byParts?`: the double that is made of them; too large a number has none.
-/

namespace Bson

namespace Text.Numeral

/-- Takes digits into a number of 64 bits as long as it has room for them: the number, and the
digits that are left. -/
def takeDigits (n : Nat) : List Char → Nat × List Char
  | [] => (n, [])
  | c :: rest =>
    let next := 10 * n + (c.toNat - '0'.toNat)
    if next < 2 ^ 64 then takeDigits next rest else (n, c :: rest)

/-- The digits that are taken from a numeral, and their power of ten. -/
def parts (n : Numeral) : Decimal :=
  let fraction := n.fraction.getD []
  let (whole, wholeLeft) := takeDigits 0 n.whole
  let (coefficient, fractionLeft) := takeDigits whole fraction
  let fractionTaken := fraction.length - fractionLeft.length
  ⟨coefficient, n.exponent.getD 0 + wholeLeft.length - fractionTaken⟩

end Text.Numeral

namespace Double

/-- The double nearest to a power of ten. -/
def powerOfTen (k : Nat) : Double := Decimal.toDouble false ⟨1, k⟩

/-- Multiplies with a power of ten; too large a product is none. -/
def mulPowerOfTen? (x : Double) (k : Nat) : Option Double :=
  if k ≤ 308 then
    let y := x.mul (powerOfTen k)
    if y.isFinite then some y else none
  else if x.isZero then some x else none

/-- Divides by a power of ten, by `10 ^ 308` as long as there is more left and the result is not
zero. -/
def divPowerOfTen (x : Double) (k : Nat) : Double :=
  if k ≤ 308 then x.div (powerOfTen k)
  else if x.isZero then x
  else divPowerOfTen (x.div (powerOfTen 308)) (k - 308)
termination_by k

end Double

/-- The double that is made of the parts of a decimal, with a sign. -/
def Decimal.byParts? (negative : Bool) (d : Decimal) : Option Double :=
  let x := Double.ofInt d.coefficient
  let y? :=
    if 0 ≤ d.exponent then x.mulPowerOfTen? d.exponent.toNat
    else some (x.divPowerOfTen (-d.exponent).toNat)
  y?.map fun y => if negative then y.neg else y

end Bson
