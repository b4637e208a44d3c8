import Bson.Double.Rounding

/-!
# Arithmetic on doubles

Products and quotients of finite doubles, rounded to the nearest double, and the change of the sign.
-/

namespace Bson.Double

/-- The same magnitude with the other sign. -/
def neg (x : Double) : Double := ofMagnitude (!x.isNegative) (x.bits.toNat % 2 ^ 63)

/-- The product of two finite doubles. -/
def mul (x y : Double) : Double :=
  let e := x.scale + y.scale
  ofRatio (x.isNegative != y.isNegative) (x.significand * y.significand * 2 ^ e.toNat)
    (2 ^ (-e).toNat)

/-- The quotient of two finite doubles, of which the second is not zero. -/
def div (x y : Double) : Double :=
  let e := x.scale - y.scale
  ofRatio (x.isNegative != y.isNegative) (x.significand * 2 ^ e.toNat)
    (y.significand * 2 ^ (-e).toNat)

end Bson.Double
