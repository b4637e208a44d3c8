import Bson.Decimal.Shortest
import Bson.Proofs.Decimal.Rounding

/-!
# The shortest decimal rounds back

The decimal that is found for a finite double is rounded to that double. A hit on a grid is so by
the test that it has passed; the exact decimal, which stands in where there is no hit, is so since
the value of a double is rounded to the double.

* `Decimal.toDouble_exact`: the exact decimal of a double.
* `Decimal.toDouble_dropZeros`: taking off zeros at the end changes nothing.
* `Decimal.toDouble_false_shortest`, `Decimal.toDouble_shortest`: the shortest decimal, without the
  sign and with it.
-/

namespace Bson

namespace Decimal

variable {tie : Tie} {x : Double}

theorem toDouble_of_onGrid? {g : Int} {d : Decimal} (h : onGrid? tie x g = some d) :
    d.toDouble false = x := by
  rw [onGrid?] at h
  dsimp only at h
  split at h
  · rename_i hbelow habove
    cases h
    -- whichever of the two is preferred
    split <;> split <;>
      first | exact of_decide_eq_true habove | exact of_decide_eq_true hbelow
  · rename_i hbelow _
    cases h
    exact of_decide_eq_true hbelow
  · rename_i _ habove
    cases h
    exact of_decide_eq_true habove
  · cases h

/-- The exact decimal of a double has the units of the double. -/
theorem num_exact (x : Double) : (exact x).num * Double.unitsOfOne = x.units * (exact x).den := by
  have hscale := x.scale_eq
  rw [exact]
  split
  · rename_i hwhole
    have hpow : 2 ^ x.scale.toNat * Double.unitsOfOne = 2 ^ x.shift := by
      rw [Double.unitsOfOne, ← Nat.pow_add]
      congr 1
      omega
    simp only [num, den, magnitudeNum, Int.toNat_zero, Int.neg_zero, Nat.pow_zero, Nat.mul_one,
      Nat.mul_assoc, hpow, Double.units]
  · rename_i hpart
    have hpow : Double.unitsOfOne = 2 ^ x.shift * 2 ^ (-x.scale).toNat := by
      rw [Double.unitsOfOne, ← Nat.pow_add]
      congr 1
      omega
    simp only [num, den, show x.scale.toNat = 0 by omega, Nat.pow_zero, Nat.mul_one, hpow,
      Double.units, Nat.mul_assoc]
    congr 1
    rw [Nat.mul_left_comm, ← Nat.mul_pow]

/-- The exact decimal of a double, which need not be told its sign. -/
theorem toDouble_exact (hfinite : x.isFinite) (hzero : ¬x.isZero) :
    (exact x.abs).toDouble false = x.abs := by
  have hfits := Double.fits_of_isFinite hfinite
  have hpos : 0 < x.significand :=
    Nat.pos_of_mul_pos_right (Nat.pos_of_ne_zero (mt (Double.units_eq_zero_iff hfinite).1 hzero))
  have hexact := num_exact x.abs
  rw [Double.abs_eq_ofFields] at hexact ⊢
  rw [hfits.units_ofFields] at hexact
  rw [toDouble_eq]
  exact Double.ofRatio_exact false (den_pos _) hfits hpos hexact

/-- Taking off zeros at the end keeps what the decimal is rounded to. -/
theorem toDouble_dropZeros (negative : Bool) (n : Nat) (d : Decimal) :
    (dropZeros n d).toDouble negative = d.toDouble negative := by
  induction n generalizing d with
  | zero => rfl
  | succ n ih =>
    obtain ⟨c, e⟩ := d
    rw [dropZeros]
    split
    · rename_i hzero
      rw [ih]
      have hc : c / 10 * 10 ^ 1 = c := Nat.div_mul_cancel (Nat.dvd_of_mod_eq_zero hzero)
      have hsame := same_mul_ten_pow (c / 10) 1 e
      rw [hc] at hsame
      exact (hsame.toDouble_eq negative).symm
    · rfl

/-- The shortest decimal of a finite double is rounded to its magnitude. -/
theorem toDouble_false_shortest (tie : Tie) (hfinite : x.isFinite) :
    (shortest tie x).toDouble false = x.abs := by
  rw [shortest]
  split
  · rename_i hzero
    rw [Double.abs, show x.bits.toNat % 2 ^ 63 = 0 from of_decide_eq_true hzero]
    rfl
  · rename_i hzero
    dsimp only
    rw [toDouble_dropZeros]
    cases hhit : (List.range 17).findSome? _ with
    | none => exact toDouble_exact hfinite hzero
    | some d =>
      obtain ⟨i, -, hgrid⟩ := List.exists_of_findSome?_eq_some hhit
      exact toDouble_of_onGrid? hgrid

/-- **The shortest decimal of a finite double is rounded to the double.** -/
theorem toDouble_shortest (tie : Tie) (hfinite : x.isFinite) :
    (shortest tie x).toDouble x.isNegative = x :=
  toDouble_of_abs (toDouble_false_shortest tie hfinite)

end Decimal

end Bson
