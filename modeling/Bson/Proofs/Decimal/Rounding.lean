import Bson.Decimal.Basic
import Bson.Proofs.Double.Order

/-!
# Rounding a decimal

A decimal is rounded to the double nearest to its value, and to nothing else: the exponents that
are settled without forming the power are rounded like all others.

* `Decimal.toDouble_eq`: a decimal is rounded as the quotient that it is.
* `Decimal.Same`: decimals of one value, with other zeros at the end. `Decimal.Same.toDouble_eq`:
  they are rounded alike.
* `Decimal.Le`: decimals by their values. `Decimal.Le.toNat_bits_le`: rounding keeps the order.
* `Decimal.toDouble_of_abs`: a decimal that is rounded to a magnitude is rounded to the double with
  that magnitude and any sign.
-/

namespace Bson

/-- What is less than a half is rounded to zero. -/
theorem roundDiv_eq_zero {a b : Nat} (h : 2 * a < b) : roundDiv a b = 0 := by
  have hlt : a < b := by omega
  simp only [roundDiv, Nat.div_eq_of_lt hlt, Nat.mod_eq_of_lt hlt, if_pos h]

namespace Double

variable {num den : Nat}

/-- Too large a quotient is rounded to infinity. -/
theorem ofRatio_eq_infinity (negative : Bool) {q : Nat} (hden : 0 < den) (hq : 2098 ≤ q)
    (h : den * 2 ^ q ≤ num * unitsOfOne) : ofRatio negative num den = infinity negative := by
  have hnum : 0 < num :=
    Nat.pos_of_mul_pos_right (Nat.lt_of_lt_of_le (Nat.mul_pos hden (Nat.two_pow_pos q)) h)
  obtain ⟨-, hp⟩ := ratioScale_roundsAt hnum hden
  rw [ofRatio_eq negative hnum hden hp]
  generalize (ratioScale num den + lowestScale).toNat = p at hp
  have hpow : 2 ^ q < 2 ^ (p + 53) := Nat.lt_of_mul_lt_mul_left (Nat.lt_of_le_of_lt h hp.lt)
  have hqp : q < p + 53 := (Nat.pow_lt_pow_iff_right (by decide)).1 hpow
  have hround : 2 ^ 52 ≤ roundDiv (num * unitsOfOne) (den * 2 ^ p) := by
    refine le_roundDiv (Nat.mul_pos hden (Nat.two_pow_pos p)) ?_
    rw [Nat.mul_left_comm, ← Nat.pow_add, Nat.add_comm]
    exact hp.normal.resolve_left (by omega)
  rw [infinity, Nat.min_eq_right]
  rw [infinityMagnitude]
  omega

/-- Too small a quotient is rounded to zero. -/
theorem ofRatio_eq_zero (negative : Bool) (h : 2 * (num * unitsOfOne) < den) :
    ofRatio negative num den = zero negative := by
  rcases Nat.eq_zero_or_pos num with rfl | hnum
  · rw [ofRatio, if_pos rfl]
  · have hp : RoundsAt num den 0 := by
      refine ⟨Nat.lt_of_lt_of_le ?_ (Nat.le_mul_of_pos_right den (Nat.two_pow_pos _)), .inl rfl⟩
      omega
    rw [ofRatio_eq negative hnum (by omega) hp, Nat.pow_zero, Nat.mul_one, roundDiv_eq_zero h,
      Nat.zero_mul, Nat.zero_min, zero]

/-- A magnitude with the sign of a double is the double. -/
theorem eq_of_ofMagnitude_eq_abs {x : Double} {m : Nat} (hm : m < 2 ^ 63)
    (h : ofMagnitude false m = x.abs) : ofMagnitude x.isNegative m = x := by
  have hbits := congrArg (fun y : Double => y.bits.toNat) h
  simp only [toNat_bits_abs, toNat_bits_ofMagnitude hm, Bool.false_eq_true, if_false,
    Nat.zero_add] at hbits
  rw [hbits, ofMagnitude_bits]

end Double

namespace Decimal

variable {d d' : Decimal}

theorem den_pos (d : Decimal) : 0 < d.den := Nat.pow_pos (by decide)

/-- Powers of ten are larger than those of eight. -/
theorem two_pow_le_ten_pow {k n : Nat} (h : k ≤ 3 * n) : 2 ^ k ≤ 10 ^ n :=
  calc 2 ^ k ≤ 2 ^ (3 * n) := Nat.pow_le_pow_right (by decide) h
    _ = 8 ^ n := Nat.pow_mul 2 3 n
    _ ≤ 10 ^ n := Nat.pow_le_pow_left (by decide) n

/-- **A decimal is rounded as the quotient that it is.** -/
theorem toDouble_eq (negative : Bool) (d : Decimal) :
    d.toDouble negative = .ofRatio negative d.num d.den := by
  obtain ⟨c, e⟩ := d
  have hlowest := Double.lowestScale_eq
  rw [toDouble]
  split
  · rename_i hzero
    rw [Double.ofRatio, num, show c = 0 from hzero, Nat.zero_mul, if_pos rfl]
  · rename_i hne
    change c ≠ 0 at hne
    split
    · -- such a power of ten is more than every double
      rename_i hlarge
      change 400 < e at hlarge
      obtain ⟨k, hk, hke⟩ : ∃ k, 2098 ≤ k + Double.lowestScale ∧ k ≤ 3 * e.toNat :=
        ⟨1203, by omega, by omega⟩
      have hden : (⟨c, e⟩ : Decimal).den = 1 := by
        rw [den, show (-e).toNat = 0 by omega, Nat.pow_zero]
      refine (Double.ofRatio_eq_infinity negative (den_pos _) hk ?_).symm
      rw [hden, Nat.one_mul, Nat.pow_add, Double.unitsOfOne]
      refine Nat.mul_le_mul_right _ (Nat.le_trans (two_pow_le_ten_pow hke) ?_)
      exact Nat.le_mul_of_pos_left _ (Nat.pos_of_ne_zero hne)
    · split
      · -- the power of ten leaves less than half of the least double
        rename_i hsmall
        change e < -400 - (c.log2 : Int) at hsmall
        have hc : c < 2 ^ (c.log2 + 1) := Nat.lt_log2_self
        have hnum : (⟨c, e⟩ : Decimal).num = c := by
          rw [num, show e.toNat = 0 by omega, Nat.pow_zero, Nat.mul_one]
        refine (Double.ofRatio_eq_zero negative ?_).symm
        rw [hnum]
        calc 2 * (c * Double.unitsOfOne) = c * 2 ^ (Double.lowestScale + 1) := by
              rw [Double.unitsOfOne, Nat.pow_succ, Nat.mul_left_comm, Nat.mul_comm 2]
          _ < 2 ^ (c.log2 + 1) * 2 ^ (Double.lowestScale + 1) :=
              Nat.mul_lt_mul_of_pos_right hc (Nat.two_pow_pos _)
          _ = 2 ^ (c.log2 + 1 + (Double.lowestScale + 1)) := (Nat.pow_add ..).symm
          _ ≤ 10 ^ (-e).toNat := two_pow_le_ten_pow (by omega)
      · rfl

theorem isNegative_toDouble (negative : Bool) (d : Decimal) :
    (d.toDouble negative).isNegative = negative := by
  rw [toDouble_eq, Double.isNegative_ofRatio]

/-- Whether two decimals have one value. -/
def Same (d d' : Decimal) : Prop := d.num * d'.den = d'.num * d.den

/-- Decimals of one value are rounded alike. -/
theorem Same.toDouble_eq (h : Same d d') (negative : Bool) :
    d.toDouble negative = d'.toDouble negative := by
  rw [Decimal.toDouble_eq, Decimal.toDouble_eq]
  exact Double.ofRatio_congr negative d.den_pos d'.den_pos h

/-- Zeros at the end of the coefficient may go to the exponent. -/
theorem same_mul_ten_pow (c k : Nat) (e : Int) : Same ⟨c * 10 ^ k, e⟩ ⟨c, e + k⟩ := by
  simp only [Same, num, den, Nat.mul_assoc, ← Nat.pow_add]
  congr 2
  omega

/-- Whether a decimal is no larger than another. -/
def Le (d d' : Decimal) : Prop := d.num * d'.den ≤ d'.num * d.den

theorem Le.total (d d' : Decimal) : Le d d' ∨ Le d' d := Nat.le_total _ _

theorem Le.trans {d'' : Decimal} (h : Le d d') (h' : Le d' d'') : Le d d'' := by
  refine Nat.le_of_mul_le_mul_right (c := d'.den) ?_ d'.den_pos
  calc d.num * d''.den * d'.den = d.num * d'.den * d''.den := Nat.mul_right_comm ..
    _ ≤ d'.num * d.den * d''.den := Nat.mul_le_mul_right _ h
    _ = d'.num * d''.den * d.den := Nat.mul_right_comm ..
    _ ≤ d''.num * d'.den * d.den := Nat.mul_le_mul_right _ h'
    _ = d''.num * d.den * d'.den := Nat.mul_right_comm ..

theorem Same.symm (h : Same d d') : Same d' d := Eq.symm h

theorem Same.le (h : Same d d') : Le d d' := Nat.le_of_eq h

theorem le_of_coefficient_le {c c' : Nat} (e : Int) (h : c ≤ c') : Le ⟨c, e⟩ ⟨c', e⟩ :=
  Nat.mul_le_mul_right _ (Nat.mul_le_mul_right _ h)

/-- The larger decimal is rounded to the larger double. -/
theorem Le.toNat_bits_le (h : Le d d') :
    (d.toDouble false).bits.toNat ≤ (d'.toDouble false).bits.toNat := by
  rw [toDouble_eq, toDouble_eq]
  exact Double.ofRatio_mono d.den_pos d'.den_pos h

/-- A decimal that is rounded to a magnitude is rounded, with a sign, to that magnitude with the
sign. -/
theorem toDouble_of_abs {x : Double} (h : d.toDouble false = x.abs) :
    d.toDouble x.isNegative = x := by
  obtain ⟨m, hm, hround⟩ := Double.ofRatio_eq_ofMagnitude d.num d.den
  rw [toDouble_eq, hround] at h
  rw [toDouble_eq, hround, Double.eq_of_ofMagnitude_eq_abs hm h]

end Decimal

end Bson
