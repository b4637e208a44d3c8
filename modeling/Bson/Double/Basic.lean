import Bson.Instances

/-!
# Double-precision numbers

A double is its 64 bits: sign, 11-bit exponent field, 52-bit fraction field. Everything here is
arithmetic on these fields, so a number that is only carried keeps all its bits, a NaN too.

* A finite double has the value `±significand * 2 ^ scale`.
* `Double.toInt?` gives the value of a double that is an integer, `Double.toInt32?` one that fits
  32 bits.
* `Double.ieeeEq` is numeric equality: the two zeros are equal and a NaN differs from itself.
-/

namespace Bson

/-- A double-precision number, given by its bits. -/
structure Double where
  bits : UInt64
  deriving DecidableEq

namespace Double

/-- The low 52 bits. -/
def fractionField (x : Double) : Nat := x.bits.toNat % 2 ^ 52

/-- The eleven bits above the fraction. -/
def exponentField (x : Double) : Nat := x.bits.toNat / 2 ^ 52 % 2 ^ 11

/-- Whether the sign bit is set. -/
def isNegative (x : Double) : Bool := 2 ^ 63 ≤ x.bits.toNat

/-- Whether the double is a number other than the infinities. -/
def isFinite (x : Double) : Bool := x.exponentField ≠ 2047

/-- Whether the double is not a number. -/
def isNaN (x : Double) : Bool := x.exponentField = 2047 ∧ x.fractionField ≠ 0

/-- Whether the double is one of the two zeros. -/
def isZero (x : Double) : Bool := x.bits.toNat % 2 ^ 63 = 0

/-- The whole number whose multiple by a power of two is the magnitude of a finite double. -/
def significand (x : Double) : Nat :=
  if x.exponentField = 0 then x.fractionField else x.fractionField + 2 ^ 52

/-- The exponent of that power of two. -/
def scale (x : Double) : Int := (max x.exponentField 1 : Nat) - 1075

/-- The magnitude bits of infinity. -/
def infinityMagnitude : Nat := 2047 * 2 ^ 52

/-- The double with a given sign and magnitude bits. -/
def ofMagnitude (negative : Bool) (magnitude : Nat) : Double :=
  ⟨UInt64.ofNat ((if negative then 2 ^ 63 else 0) + magnitude)⟩

/-- Zero with a sign. -/
def zero (negative : Bool) : Double := ofMagnitude negative 0

/-- Infinity with a sign. -/
def infinity (negative : Bool) : Double := ofMagnitude negative infinityMagnitude

/-- The quiet NaN with an empty payload and a sign. -/
def nan (negative : Bool) : Double := ofMagnitude negative (infinityMagnitude + 2 ^ 51)

/-- The same bits with the sign cleared. -/
def abs (x : Double) : Double := ofMagnitude false (x.bits.toNat % 2 ^ 63)

/-- Numeric equality. -/
def ieeeEq (x y : Double) : Bool :=
  !x.isNaN && !y.isNaN && (x.bits == y.bits || (x.isZero && y.isZero))

/-- The magnitude of a finite double, if it is a whole number. -/
def wholeMagnitude? (x : Double) : Option Nat :=
  if 0 ≤ x.scale then some (x.significand * 2 ^ x.scale.toNat)
  else if x.significand % 2 ^ (-x.scale).toNat = 0 then
    some (x.significand / 2 ^ (-x.scale).toNat)
  else none

/-- The value of a double that is an integer. -/
def toInt? (x : Double) : Option Int :=
  if x.isFinite then
    x.wholeMagnitude?.map fun n => if x.isNegative then -(n : Int) else n
  else none

/-- The value of a double that is an integer of 32 bits. -/
def toInt32? (x : Double) : Option Int32 :=
  x.toInt?.bind fun n => if -2 ^ 31 ≤ n ∧ n < 2 ^ 31 then some (Int32.ofInt n) else none

theorem isNaN_of_isFinite {x : Double} (h : x.isFinite) : ¬x.isNaN := fun hnan =>
  of_decide_eq_true h (of_decide_eq_true hnan).1

/-- A double that is neither finite nor a NaN is one of the infinities. -/
theorem eq_infinity {x : Double} (hfinite : ¬x.isFinite) (hnan : ¬x.isNaN) :
    x = infinity x.isNegative := by
  obtain ⟨bits⟩ := x
  have hlt : bits.toNat < 18446744073709551616 := bits.toNat_lt
  have hexponent : bits.toNat / 4503599627370496 % 2048 = 2047 :=
    Decidable.not_not.1 (mt decide_eq_true hfinite)
  have hfraction : bits.toNat % 4503599627370496 = 0 :=
    Decidable.not_not.1 fun h => hnan (decide_eq_true ⟨hexponent, h⟩)
  have hvalue : bits.toNat = (if (⟨bits⟩ : Double).isNegative then 9223372036854775808 else 0) +
      9218868437227405312 := by
    by_cases hneg : 9223372036854775808 ≤ bits.toNat
    · rw [if_pos (show (⟨bits⟩ : Double).isNegative = true from decide_eq_true hneg)]
      omega
    · rw [if_neg (show ¬(⟨bits⟩ : Double).isNegative = true from mt of_decide_eq_true hneg)]
      omega
  have hback : UInt64.ofNat bits.toNat = bits := UInt64.ofNat_toNat
  exact congrArg Double.mk (hback.symm.trans (congrArg UInt64.ofNat hvalue))

end Double

end Bson
