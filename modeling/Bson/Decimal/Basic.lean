import Bson.Double.Rounding

/-!
# Decimals

A decimal is a whole number times a power of ten. `Decimal.toDouble` rounds it to the nearest
double; exponents far outside the range of doubles are settled without forming the power.
-/

namespace Bson

/-- The number `coefficient * 10 ^ exponent`. -/
structure Decimal where
  coefficient : Nat
  exponent : Int
  deriving DecidableEq

namespace Decimal

/-- The numerator of a decimal as a quotient of natural numbers. -/
def num (d : Decimal) : Nat := d.coefficient * 10 ^ d.exponent.toNat

/-- The denominator of a decimal as a quotient of natural numbers. -/
def den (d : Decimal) : Nat := 10 ^ (-d.exponent).toNat

/-- The double nearest to a decimal with a sign. -/
def toDouble (negative : Bool) (d : Decimal) : Double :=
  if d.coefficient = 0 then .zero negative
  else if 400 < d.exponent then .infinity negative
  else if d.exponent < -400 - d.coefficient.log2 then .zero negative
  else .ofRatio negative d.num d.den

end Decimal

end Bson
