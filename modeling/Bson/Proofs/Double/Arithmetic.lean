import Bson.Double.Arithmetic
import Bson.Proofs.Double.Order

/-!
# Products and quotients of doubles

A product is rounded from the exact product of the two numbers, and a quotient from the exact
quotient, so both keep the order.

* `Double.mul_eq`, `Double.div_eq`: product and quotient by the units of the numbers.
* `Double.toNat_bits_mul_le`: larger numbers have the larger product.
* `Double.neg_ofRatio`: the other sign.
* `Double.isFinite_of_toNat_bits_le`: what is no larger than a finite double is finite.
-/

namespace Bson.Double

variable {x x' y y' : Double}

/-- A product, by the units of the two numbers. -/
theorem mul_eq (x y : Double) :
    x.mul y = ofRatio (x.isNegative != y.isNegative) (x.units * y.units)
      (unitsOfOne * unitsOfOne) := by
  have hx := x.scale_eq
  have hy := y.scale_eq
  rw [mul]
  refine ofRatio_congr _ (Nat.two_pow_pos _) (Nat.mul_pos unitsOfOne_pos unitsOfOne_pos) ?_
  have hpow : 2 ^ (x.scale + y.scale).toNat * (unitsOfOne * unitsOfOne) =
      2 ^ x.shift * 2 ^ y.shift * 2 ^ (-(x.scale + y.scale)).toNat := by
    rw [unitsOfOne]
    simp only [← Nat.pow_add]
    congr 1
    omega
  rw [units, units, Nat.mul_assoc _ (2 ^ _), hpow]
  simp only [Nat.mul_assoc, Nat.mul_left_comm]

/-- A quotient, by the units of the two numbers. -/
theorem div_eq (x : Double) (hy : 0 < y.units) :
    x.div y = ofRatio (x.isNegative != y.isNegative) x.units y.units := by
  have hx := x.scale_eq
  have hyscale := y.scale_eq
  have hpos : 0 < y.significand := Nat.pos_of_mul_pos_right hy
  rw [div]
  refine ofRatio_congr _ (Nat.mul_pos hpos (Nat.two_pow_pos _)) hy ?_
  have hpow : 2 ^ (x.scale - y.scale).toNat * 2 ^ y.shift =
      2 ^ x.shift * 2 ^ (-(x.scale - y.scale)).toNat := by
    simp only [← Nat.pow_add]
    congr 1
    omega
  rw [units, units, Nat.mul_assoc, Nat.mul_left_comm (2 ^ _), hpow]
  simp only [Nat.mul_assoc, Nat.mul_left_comm]

/-- **Larger numbers have the larger product.** -/
theorem toNat_bits_mul_le (hx : x.isNegative = false) (hx' : x'.isNegative = false)
    (hy : y.isNegative = false) (hy' : y'.isNegative = false) (hxx' : x.units ≤ x'.units)
    (hyy' : y.units ≤ y'.units) : (x.mul y).bits.toNat ≤ (x'.mul y').bits.toNat := by
  have hone : 0 < unitsOfOne * unitsOfOne := Nat.mul_pos unitsOfOne_pos unitsOfOne_pos
  rw [mul_eq, mul_eq, hx, hx', hy, hy']
  exact ofRatio_mono hone hone (Nat.mul_le_mul_right _ (Nat.mul_le_mul hxx' hyy'))

theorem neg_ofRatio (negative : Bool) (num den : Nat) :
    (ofRatio negative num den).neg = ofRatio (!negative) num den := by
  obtain ⟨m, hm, hround⟩ := ofRatio_eq_ofMagnitude num den
  have hbits : (ofMagnitude negative m).bits.toNat % 2 ^ 63 = m := by
    rw [toNat_bits_ofMagnitude hm]
    split <;> omega
  rw [hround, hround, neg, hbits, isNegative_ofMagnitude hm]

/-- What is no larger than a finite double is finite. -/
theorem isFinite_of_toNat_bits_le (hy : y.isFinite) (hsign : y.isNegative = false)
    (h : x.bits.toNat ≤ y.bits.toNat) : x.isFinite := by
  have hlt : ¬2 ^ 63 ≤ y.bits.toNat := of_decide_eq_false hsign
  have hne : y.exponentField ≠ 2047 := of_decide_eq_true hy
  rw [exponentField] at hne
  refine decide_eq_true ?_
  rw [exponentField]
  omega

end Bson.Double
