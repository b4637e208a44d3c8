import Bson.Proofs.Double.Rounding

/-!
# Rounding keeps the order

The larger of two quotients is rounded to the larger double. The magnitude bits of a double say how
large it is: of two finite doubles the one with the larger bits has more units.

* `roundDiv_mono`: of quotients with one denominator.
* `Double.ofRatio_mono`: the larger quotient has the larger bits.
* `Double.units_le_of_toNat_bits_le`: the larger bits are the larger number.
-/

namespace Bson

/-! ### Whole numbers -/

theorem div_le_roundDiv (a b : Nat) : a / b ≤ roundDiv a b := by
  rw [roundDiv]
  split
  · exact Nat.le_refl _
  · split <;> omega

theorem roundDiv_le_succ (a b : Nat) : roundDiv a b ≤ a / b + 1 := by
  rw [roundDiv]
  split
  · omega
  · split <;> omega

theorem le_roundDiv {m a b : Nat} (hb : 0 < b) (h : m * b ≤ a) : m ≤ roundDiv a b :=
  Nat.le_trans ((Nat.le_div_iff_mul_le hb).2 h) (div_le_roundDiv a b)

theorem roundDiv_le {m a b : Nat} (h : a < m * b) : roundDiv a b ≤ m :=
  Nat.le_trans (roundDiv_le_succ a b) (Nat.div_lt_of_lt_mul (Nat.mul_comm m b ▸ h))

theorem roundDiv_mono {a a' : Nat} (b : Nat) (h : a ≤ a') : roundDiv a b ≤ roundDiv a' b := by
  rcases Nat.eq_or_lt_of_le (Nat.div_le_div_right (c := b) h) with hq | hq
  · -- of two numbers with one quotient the larger has the larger rest
    have hr : a % b ≤ a' % b := by
      have hdiv := Nat.div_add_mod a b
      have hdiv' := Nat.div_add_mod a' b
      rw [hq] at hdiv
      omega
    simp only [roundDiv, hq]
    split <;> split <;> (try split) <;> (try split) <;> omega
  · exact Nat.le_trans (roundDiv_le_succ a b) (Nat.le_trans hq (div_le_roundDiv a' b))

namespace Double

variable {num den num' den' p q : Nat} {x y : Double}

/-! ### Quotients -/

/-- The larger quotient is rounded on the larger shift. -/
theorem RoundsAt.le_of_le (hden : 0 < den) (h : num * den' ≤ num' * den)
    (hp : RoundsAt num den p) (hq : RoundsAt num' den' q) : p ≤ q := by
  rcases hp.normal with rfl | hnormal
  · exact Nat.zero_le q
  · have hlt : den * den' * 2 ^ (p + 52) < den * den' * 2 ^ (q + 53) :=
      calc den * den' * 2 ^ (p + 52) = den * 2 ^ (p + 52) * den' := Nat.mul_right_comm ..
        _ ≤ num * unitsOfOne * den' := Nat.mul_le_mul_right den' hnormal
        _ = num * den' * unitsOfOne := Nat.mul_right_comm ..
        _ ≤ num' * den * unitsOfOne := Nat.mul_le_mul_right unitsOfOne h
        _ = den * (num' * unitsOfOne) := by rw [Nat.mul_comm num', Nat.mul_assoc]
        _ < den * (den' * 2 ^ (q + 53)) := Nat.mul_lt_mul_of_pos_left hq.lt hden
        _ = den * den' * 2 ^ (q + 53) := (Nat.mul_assoc ..).symm
    have := (Nat.pow_lt_pow_iff_right (by decide)).1 (Nat.lt_of_mul_lt_mul_left hlt)
    omega

/-- The bits of a quotient that is not zero. -/
theorem toNat_bits_ofRatio (hnum : 0 < num) (hden : 0 < den) (hp : RoundsAt num den p) :
    (ofRatio false num den).bits.toNat =
      min (p * 2 ^ 52 + roundDiv (num * unitsOfOne) (den * 2 ^ p)) infinityMagnitude := by
  have hlt : min (p * 2 ^ 52 + roundDiv (num * unitsOfOne) (den * 2 ^ p)) infinityMagnitude <
      2 ^ 63 := Nat.lt_of_le_of_lt (Nat.min_le_right _ _) (by decide)
  rw [ofRatio_eq false hnum hden hp, toNat_bits_ofMagnitude hlt, if_neg Bool.false_ne_true,
    Nat.zero_add]

/-- **The larger quotient is rounded to the larger double.** -/
theorem ofRatio_mono (hden : 0 < den) (hden' : 0 < den') (h : num * den' ≤ num' * den) :
    (ofRatio false num den).bits.toNat ≤ (ofRatio false num' den').bits.toNat := by
  rcases Nat.eq_zero_or_pos num with rfl | hnum
  · exact Nat.zero_le _
  · have hnum' : 0 < num' :=
      Nat.pos_of_mul_pos_right (Nat.lt_of_lt_of_le (Nat.mul_pos hnum hden') h)
    obtain ⟨-, hp⟩ := ratioScale_roundsAt hnum hden
    obtain ⟨-, hq⟩ := ratioScale_roundsAt hnum' hden'
    rw [toNat_bits_ofRatio hnum hden hp, toNat_bits_ofRatio hnum' hden' hq]
    generalize (ratioScale num den + lowestScale).toNat = p at hp ⊢
    generalize (ratioScale num' den' + lowestScale).toNat = q at hq ⊢
    refine Nat.le_min.2 ⟨Nat.le_trans (Nat.min_le_left _ _) ?_, Nat.min_le_right _ _⟩
    rcases Nat.eq_or_lt_of_le (hp.le_of_le hden h hq) with rfl | hlt
    · -- on one shift, over the product of the denominators
      refine Nat.add_le_add_left ?_ _
      rw [← roundDiv_mul_right (num * unitsOfOne) (den * 2 ^ p) hden',
        ← roundDiv_mul_right (num' * unitsOfOne) (den' * 2 ^ p) hden,
        show den' * 2 ^ p * den = den * 2 ^ p * den' by
          rw [Nat.mul_right_comm, Nat.mul_comm den', Nat.mul_right_comm]]
      refine roundDiv_mono _ ?_
      rw [Nat.mul_right_comm, Nat.mul_right_comm num']
      exact Nat.mul_le_mul_right unitsOfOne h
    · have hround : roundDiv (num * unitsOfOne) (den * 2 ^ p) ≤ 2 ^ 53 := by
        refine roundDiv_le (Nat.lt_of_lt_of_le hp.lt (Nat.le_of_eq ?_))
        rw [Nat.pow_add, ← Nat.mul_assoc, Nat.mul_comm]
      have hround' : 2 ^ 52 ≤ roundDiv (num' * unitsOfOne) (den' * 2 ^ q) := by
        refine le_roundDiv (Nat.mul_pos hden' (Nat.two_pow_pos q)) ?_
        rw [Nat.mul_left_comm, ← Nat.pow_add, Nat.add_comm]
        exact hq.normal.resolve_left (by omega)
      omega

/-! ### Doubles -/

theorem eq_of_toNat_bits_eq (h : x.bits.toNat = y.bits.toNat) : x = y := by
  cases x
  cases y
  exact congrArg Double.mk (UInt64.toNat_inj.1 h)

theorem toNat_bits_mod_of_isNegative (h : x.isNegative = false) :
    x.bits.toNat % 2 ^ 63 = x.bits.toNat :=
  Nat.mod_eq_of_lt (Nat.lt_of_not_le (of_decide_eq_false h))

/-- Of finite doubles without sign, the larger bits are the larger number. -/
theorem units_le_of_toNat_bits_le (hx : x.isFinite) (hy : y.isFinite)
    (hxsign : x.isNegative = false) (hysign : y.isNegative = false)
    (h : x.bits.toNat ≤ y.bits.toNat) : x.units ≤ y.units := by
  have hbits := h
  rw [← toNat_bits_mod_of_isNegative hxsign, ← toNat_bits_mod_of_isNegative hysign, magnitude_eq,
    magnitude_eq] at hbits
  have hxfits := fits_of_isFinite hx
  have hyfits := fits_of_isFinite hy
  have hlt := hxfits.lt
  have hlt' := hyfits.lt
  have hnormal := hxfits.normal
  rcases Nat.lt_trichotomy x.shift y.shift with hshift | hshift | hshift
  · -- the significand of the larger number is at least half as large
    have hhalf : x.significand ≤ 2 * y.significand := by
      have := hyfits.normal
      omega
    calc x.units ≤ 2 * y.significand * 2 ^ x.shift := Nat.mul_le_mul_right _ hhalf
      _ = y.significand * 2 ^ (x.shift + 1) := by
          rw [Nat.pow_succ', Nat.mul_left_comm, Nat.mul_assoc]
      _ ≤ y.units := Nat.mul_le_mul_left _ (Nat.pow_le_pow_right (by decide) hshift)
  · have hle : x.significand ≤ y.significand := by omega
    rw [units, units, hshift]
    exact Nat.mul_le_mul_right _ hle
  · omega

end Double

end Bson
