import Bson.Double.Basic

/-!
# Rounding to a double

The double nearest to an exact number, a tie going to the even significand.

* `roundDiv a b`: the natural number nearest to `a / b`.
* `Double.ofRatio`: the double nearest to `± num / den`, from the least scale on which the quotient
  has at most 53 bits.
* `Double.ofInt`: the double nearest to an integer.
-/

namespace Bson

/-- The natural number nearest to `a / b`; a tie goes to the even neighbour. -/
def roundDiv (a b : Nat) : Nat :=
  let q := a / b
  let r := a % b
  if 2 * r < b then q else if b < 2 * r then q + 1 else q + q % 2

namespace Double

/-- The numerator of `num / den` in units of `2 ^ e`. -/
def scaledNum (num : Nat) (e : Int) : Nat := num * 2 ^ (-e).toNat

/-- The denominator of `num / den` in units of `2 ^ e`. -/
def scaledDen (den : Nat) (e : Int) : Nat := den * 2 ^ e.toNat

/-- The scale on which `num / den` is rounded: 53 bits of it are whole, or the scale is the least
there is. -/
def ratioScale (num den : Nat) : Int :=
  let e := max ((num.log2 : Int) - den.log2 - 53) (-1074)
  if scaledNum num e / scaledDen den e < 2 ^ 53 then e else e + 1

/-- The double nearest to `num / den` with a sign; too large a quotient gives infinity. -/
def ofRatio (negative : Bool) (num den : Nat) : Double :=
  if num = 0 then zero negative
  else
    let e := ratioScale num den
    let m := roundDiv (scaledNum num e) (scaledDen den e)
    ofMagnitude negative (min ((e + 1074).toNat * 2 ^ 52 + m) infinityMagnitude)

/-- The double nearest to an integer. -/
def ofInt (n : Int) : Double := ofRatio (n < 0) n.natAbs 1

end Double

end Bson
