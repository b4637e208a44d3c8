import Bson.Decimal.Parts
import Bson.Proofs.Decimal.Rounding
import Bson.Proofs.Double.Arithmetic

/-!
# Decimals that are read by their parts

The parts of a numeral are its value, or less where digits are left over. Reading by parts does not
round to the nearest double, but it keeps the order, and so it is enough to look at the largest
numbers to see that no number is refused that is rounded to a finite double below the greatest.

* `Text.Numeral.parts_le`: the parts of a numeral are no larger than the numeral, and have 64 bits
  (`Text.Numeral.coefficient_parts_lt`). `Text.Numeral.parts_eq`: if no digits are left over, they
  are the numeral.
* `Decimal.isSome_byParts?`: decimals of 64 bits are read up to `Decimal.greatest`, which is rounded
  to the greatest finite double.
* `Decimal.byParts?_eq_toDouble`: if coefficient and power of ten are doubles themselves, the
  decimal is read as the double nearest to it.
-/

namespace Bson

namespace Text.Numeral

/-! ### Parts -/

theorem le_ofDigitChars (n : Nat) (ds : List Char) : n ≤ Nat.ofDigitChars 10 ds n := by
  have hpow : 0 < 10 ^ ds.length := Nat.pow_pos (by decide)
  rw [Nat.ofDigitChars_eq_ofDigitChars_zero]
  exact Nat.le_trans (Nat.le_mul_of_pos_left n hpow) (Nat.le_add_right _ _)

/-- What is taken has 64 bits. -/
theorem takeDigits_lt (ds : List Char) {n : Nat} (h : n < 2 ^ 64) :
    (takeDigits n ds).1 < 2 ^ 64 := by
  induction ds generalizing n with
  | nil => exact h
  | cons c rest ih =>
    rw [takeDigits]
    split
    · rename_i hnext
      exact ih hnext
    · exact h

/-- With zeros for the digits that are left over, what is taken is no larger than all the digits. -/
theorem takeDigits_le (n : Nat) (ds : List Char) :
    (takeDigits n ds).1 * 10 ^ (takeDigits n ds).2.length ≤ Nat.ofDigitChars 10 ds n := by
  induction ds generalizing n with
  | nil => exact Nat.le_of_eq (Nat.mul_one n)
  | cons c rest ih =>
    rw [takeDigits]
    split
    · exact ih _
    · rw [Nat.ofDigitChars_eq_ofDigitChars_zero, Nat.mul_comm]
      exact Nat.le_add_right _ _

/-- Digits that make a number of 64 bits are all taken. -/
theorem takeDigits_eq {n : Nat} {ds : List Char} (h : Nat.ofDigitChars 10 ds n < 2 ^ 64) :
    takeDigits n ds = (Nat.ofDigitChars 10 ds n, []) := by
  induction ds generalizing n with
  | nil => rfl
  | cons c rest ih =>
    rw [Nat.ofDigitChars_cons] at h ⊢
    have hnext : 10 * n + (c.toNat - '0'.toNat) < 2 ^ 64 :=
      Nat.lt_of_le_of_lt (le_ofDigitChars _ rest) h
    rw [takeDigits]
    exact (if_pos hnext).trans (ih h)

theorem length_takeDigits_le (n : Nat) (ds : List Char) :
    (takeDigits n ds).2.length ≤ ds.length := by
  induction ds generalizing n with
  | nil => exact Nat.le_refl _
  | cons c rest ih =>
    rw [takeDigits]
    split
    · exact Nat.le_succ_of_le (ih _)
    · exact Nat.le_refl _

/-- The coefficient of the parts has 64 bits. -/
theorem coefficient_parts_lt (n : Numeral) : n.parts.coefficient < 2 ^ 64 :=
  takeDigits_lt _ (takeDigits_lt _ (by decide))

variable {n : Numeral}

/-- The parts of a numeral with few digits before the point. -/
theorem parts_of_whole (h : Nat.ofDigitChars 10 n.whole 0 < 2 ^ 64) :
    n.parts = ⟨(takeDigits (Nat.ofDigitChars 10 n.whole 0) (n.fraction.getD [])).1,
      n.scale + (takeDigits (Nat.ofDigitChars 10 n.whole 0) (n.fraction.getD [])).2.length⟩ := by
  have hlength := length_takeDigits_le (Nat.ofDigitChars 10 n.whole 0) (n.fraction.getD [])
  rw [parts, takeDigits_eq h, scale]
  dsimp only
  congr 1
  rw [List.length_nil]
  omega

/-- **If no digits are left over, the parts are the value.** -/
theorem parts_eq (h : Nat.ofDigitChars 10 (n.whole ++ n.fraction.getD []) 0 < 2 ^ 64) :
    n.parts = ⟨Nat.ofDigitChars 10 (n.whole ++ n.fraction.getD []) 0, n.scale⟩ := by
  rw [Nat.ofDigitChars_append] at h ⊢
  have hwhole : Nat.ofDigitChars 10 n.whole 0 < 2 ^ 64 :=
    Nat.lt_of_le_of_lt (le_ofDigitChars _ _) h
  rw [parts_of_whole hwhole, takeDigits_eq h]
  dsimp only
  rw [List.length_nil]
  congr 1
  omega

/-- **With few digits before the point, the parts are no larger than the value.** -/
theorem parts_le (h : Nat.ofDigitChars 10 n.whole 0 < 2 ^ 64) :
    n.parts.Le ⟨Nat.ofDigitChars 10 (n.whole ++ n.fraction.getD []) 0, n.scale⟩ := by
  rw [parts_of_whole h, Nat.ofDigitChars_append]
  exact (Decimal.same_mul_ten_pow _ _ _).symm.le.trans
    (Decimal.le_of_coefficient_le _ (takeDigits_le _ _))

end Text.Numeral

namespace Double

/-! ### Coefficients and powers of ten -/

theorem ofInt_natCast (n : Nat) : ofInt n = ofRatio false n 1 := by
  rw [ofInt, Int.natAbs_natCast, decide_eq_false (by omega)]

theorem isNegative_ofInt_natCast (n : Nat) : (ofInt n).isNegative = false := by
  rw [ofInt_natCast, isNegative_ofRatio]

theorem powerOfTen_eq (k : Nat) : powerOfTen k = ofRatio false (10 ^ k) 1 := by
  rw [powerOfTen, Decimal.toDouble_eq, Decimal.num, Decimal.den]
  congr 1
  · rw [Int.toNat_natCast, Nat.one_mul]
  · rw [show (-(k : Int)).toNat = 0 by omega, Nat.pow_zero]

theorem isNegative_powerOfTen (k : Nat) : (powerOfTen k).isNegative = false := by
  rw [powerOfTen_eq, isNegative_ofRatio]

theorem toNat_bits_ofInt_le {m n : Nat} (h : m ≤ n) :
    (ofInt m).bits.toNat ≤ (ofInt n).bits.toNat := by
  rw [ofInt_natCast, ofInt_natCast]
  exact ofRatio_mono Nat.one_pos Nat.one_pos (Nat.mul_le_mul_right 1 h)

theorem toNat_bits_powerOfTen_le {k l : Nat} (h : k ≤ l) :
    (powerOfTen k).bits.toNat ≤ (powerOfTen l).bits.toNat := by
  rw [powerOfTen_eq, powerOfTen_eq]
  exact ofRatio_mono Nat.one_pos Nat.one_pos
    (Nat.mul_le_mul_right 1 (Nat.pow_le_pow_right (by decide) h))

theorem isFinite_ofInt {n : Nat} (h : n < 2 ^ 64) : (ofInt n).isFinite :=
  isFinite_of_toNat_bits_le (y := ofInt (2 ^ 64 : Nat)) (by decide +kernel)
    (isNegative_ofInt_natCast _) (toNat_bits_ofInt_le (Nat.le_of_lt h))

theorem isFinite_powerOfTen {k : Nat} (h : k ≤ 308) : (powerOfTen k).isFinite :=
  isFinite_of_toNat_bits_le (y := powerOfTen 308) (by decide +kernel) (isNegative_powerOfTen _)
    (toNat_bits_powerOfTen_le h)

/-- Reading a coefficient and a power of ten by parts keeps the order in both. -/
theorem isFinite_mul_of_le {c c' k k' : Nat} (hc : c ≤ c') (hc' : c' < 2 ^ 64) (hk : k ≤ k')
    (hk' : k' ≤ 308) (h : ((ofInt c').mul (powerOfTen k')).isFinite) :
    ((ofInt c).mul (powerOfTen k)).isFinite := by
  have hsign : ((ofInt c').mul (powerOfTen k')).isNegative = false := by
    rw [mul_eq, isNegative_ofRatio, isNegative_ofInt_natCast, isNegative_powerOfTen]
    rfl
  refine isFinite_of_toNat_bits_le h hsign (toNat_bits_mul_le (isNegative_ofInt_natCast c)
    (isNegative_ofInt_natCast c') (isNegative_powerOfTen k) (isNegative_powerOfTen k') ?_ ?_)
  · exact units_le_of_toNat_bits_le (isFinite_ofInt (Nat.lt_of_le_of_lt hc hc'))
      (isFinite_ofInt hc') (isNegative_ofInt_natCast c) (isNegative_ofInt_natCast c')
      (toNat_bits_ofInt_le hc)
  · exact units_le_of_toNat_bits_le (isFinite_powerOfTen (Nat.le_trans hk hk'))
      (isFinite_powerOfTen hk') (isNegative_powerOfTen k) (isNegative_powerOfTen k')
      (toNat_bits_powerOfTen_le hk)

end Double

namespace Decimal

open Double

variable {d : Decimal}

/-! ### Numbers that are not refused -/

/-- A decimal that is rounded to the greatest finite double. -/
def greatest : Decimal := ⟨179769313486231561, 291⟩

/-- The largest coefficient of 64 bits that is no larger than `greatest` with a power of ten. -/
def greatestCoefficient (k : Nat) : Nat := min (2 ^ 64 - 1) (greatest.num / 10 ^ k)

theorem greatestCoefficient_lt (k : Nat) : greatestCoefficient k < 2 ^ 64 :=
  Nat.lt_of_le_of_lt (Nat.min_le_left _ _) (by decide)

/-- For the powers of ten up to `10 ^ 288` all coefficients of 64 bits are small enough. -/
theorem greatestCoefficient_288 : greatestCoefficient 288 = 2 ^ 64 - 1 := by decide +kernel

theorem isFinite_greatestCoefficient : ∀ i < 21,
    ((ofInt (greatestCoefficient (288 + i))).mul (powerOfTen (288 + i))).isFinite := by
  decide +kernel

theorem isFinite_mul_powerOfTen {c k : Nat} (hc : c < 2 ^ 64) (hk : k ≤ 308)
    (h : c * 10 ^ k ≤ greatest.num) : ((ofInt c).mul (powerOfTen k)).isFinite := by
  rcases Nat.lt_or_ge k 288 with hsmall | hlarge
  · refine isFinite_mul_of_le ?_ (greatestCoefficient_lt 288) (Nat.le_of_lt hsmall) (by decide)
      (isFinite_greatestCoefficient 0 (by decide))
    rw [greatestCoefficient_288]
    omega
  · obtain ⟨i, rfl⟩ : ∃ i, k = 288 + i := ⟨k - 288, by omega⟩
    refine isFinite_mul_of_le ?_ (greatestCoefficient_lt _) (Nat.le_refl _) hk
      (isFinite_greatestCoefficient i (by omega))
    exact Nat.le_min.2 ⟨by omega, (Nat.le_div_iff_mul_le (Nat.pow_pos (by decide))).2 h⟩

theorem isSome_mulPowerOfTen? {c k : Nat} (hc : c < 2 ^ 64) (h : c * 10 ^ k ≤ greatest.num) :
    ((ofInt c).mulPowerOfTen? k).isSome := by
  rw [mulPowerOfTen?]
  split
  · rename_i hk
    dsimp only
    rw [if_pos (isFinite_mul_powerOfTen hc hk h), Option.isSome_some]
  · -- a coefficient with so large a power of ten is zero
    rename_i hk
    have hlarge : greatest.num < 10 ^ k :=
      calc greatest.num < 10 ^ 309 := by decide +kernel
        _ ≤ 10 ^ k := Nat.pow_le_pow_right (by decide) (by omega)
    have hzero : c = 0 := Nat.eq_zero_of_not_pos fun hpos =>
      absurd (Nat.le_trans (Nat.le_mul_of_pos_left _ hpos) h) (Nat.not_le_of_lt hlarge)
    rw [hzero, if_pos (by decide), Option.isSome_some]

/-- **Decimals of 64 bits are read by parts up to `greatest`.** -/
theorem isSome_byParts? (negative : Bool) (hc : d.coefficient < 2 ^ 64) (h : d.Le greatest) :
    (d.byParts? negative).isSome := by
  rw [byParts?, Option.isSome_map]
  split
  · rename_i hexponent
    refine isSome_mulPowerOfTen? hc ?_
    have hden : d.den = 1 := by rw [den, show (-d.exponent).toNat = 0 by omega, Nat.pow_zero]
    have hgreatest : greatest.den = 1 := by decide
    rwa [Le, hden, hgreatest, Nat.mul_one, Nat.mul_one] at h
  · exact Option.isSome_some

/-- Decimals that are rounded to a finite double other than the greatest are up to `greatest`. -/
theorem le_greatest (hfinite : (d.toDouble false).isFinite)
    (hne : d.toDouble false ≠ greatest.toDouble false) : d.Le greatest := by
  refine (Le.total d greatest).resolve_right fun hge => hne ?_
  have hle := hge.toNat_bits_le
  -- there is no finite double above it
  have hgreatest : (greatest.toDouble false).bits.toNat = infinityMagnitude - 1 := by
    decide +kernel
  have hlt : (d.toDouble false).bits.toNat < infinityMagnitude := by
    rw [← toNat_bits_mod_of_isNegative (isNegative_toDouble false d), magnitude_eq]
    exact (fits_of_isFinite hfinite).magnitude_lt
  rw [hgreatest] at hle
  exact eq_of_toNat_bits_eq ((Nat.le_antisymm (Nat.le_pred_of_lt hlt) hle).trans hgreatest.symm)

/-! ### Numbers that are read as the nearest double -/

theorem units_of_toInt? {x : Double} {n : Nat} (hsign : x.isNegative = false)
    (h : x.toInt? = some (n : Int)) : x.units = n * unitsOfOne := by
  have hunits := (toInt?_eq_some.1 h).2
  rw [signedUnits, hsign, if_neg Bool.false_ne_true] at hunits
  exact Int.ofNat.inj (hunits.trans (Int.natCast_mul ..).symm)

theorem units_ofInt {n : Nat} (h : n < 2 ^ 53) : (ofInt n).units = n * unitsOfOne :=
  units_of_toInt? (isNegative_ofInt_natCast n) (ofInt_exact h)

/-- Powers of ten up to `10 ^ 22` are doubles themselves. -/
theorem units_powerOfTen {k : Nat} (h : k ≤ 22) : (powerOfTen k).units = 10 ^ k * unitsOfOne := by
  have htable : ∀ k < 23, (powerOfTen k).toInt? = some ((10 ^ k : Nat) : Int) := by decide +kernel
  exact units_of_toInt? (isNegative_powerOfTen k) (htable k (Nat.lt_succ_of_le h))

/-- Such a product is rounded once. -/
theorem ofInt_mul_powerOfTen {c k : Nat} (hc : c < 2 ^ 53) (hk : k ≤ 22) :
    (ofInt c).mul (powerOfTen k) = ofRatio false (c * 10 ^ k) 1 := by
  rw [mul_eq, isNegative_ofInt_natCast, isNegative_powerOfTen, units_ofInt hc, units_powerOfTen hk]
  refine ofRatio_congr _ (Nat.mul_pos unitsOfOne_pos unitsOfOne_pos) Nat.one_pos ?_
  rw [Nat.mul_one, Nat.mul_mul_mul_comm]

/-- And so is such a quotient. -/
theorem ofInt_div_powerOfTen {c k : Nat} (hc : c < 2 ^ 53) (hk : k ≤ 22) :
    (ofInt c).div (powerOfTen k) = ofRatio false c (10 ^ k) := by
  have hpow : 0 < 10 ^ k := Nat.pow_pos (by decide)
  have hunits := units_powerOfTen hk
  have hpos : 0 < (powerOfTen k).units := hunits ▸ Nat.mul_pos hpow unitsOfOne_pos
  rw [div_eq _ hpos, isNegative_ofInt_natCast, isNegative_powerOfTen]
  refine ofRatio_congr _ hpos hpow ?_
  rw [units_ofInt hc, hunits, Nat.mul_assoc, Nat.mul_comm unitsOfOne]

theorem neg_toDouble (d : Decimal) : (d.toDouble false).neg = d.toDouble true := by
  rw [toDouble_eq, toDouble_eq, neg_ofRatio, Bool.not_false]

/-- **If coefficient and power of ten are doubles themselves, a decimal is read as the double
nearest to it.** -/
theorem byParts?_eq_toDouble (negative : Bool) (hc : d.coefficient < 2 ^ 53)
    (he : d.exponent.natAbs ≤ 22) : d.byParts? negative = some (d.toDouble negative) := by
  have hread : (if 0 ≤ d.exponent then
      (ofInt d.coefficient).mulPowerOfTen? d.exponent.toNat
      else some ((ofInt d.coefficient).divPowerOfTen (-d.exponent).toNat)) =
        some (d.toDouble false) := by
    rw [toDouble_eq, num, den]
    split
    · have hk : d.exponent.toNat ≤ 22 := by omega
      have hle : d.coefficient * 10 ^ d.exponent.toNat ≤ greatest.num :=
        calc d.coefficient * 10 ^ d.exponent.toNat ≤ 2 ^ 53 * 10 ^ 22 :=
              Nat.mul_le_mul (Nat.le_of_lt hc) (Nat.pow_le_pow_right (by decide) hk)
          _ ≤ greatest.num := by decide +kernel
      have hfinite := isFinite_mul_powerOfTen (Nat.lt_trans hc (by decide)) (by omega) hle
      rw [mulPowerOfTen?, if_pos (by omega), if_pos hfinite, ofInt_mul_powerOfTen hc hk,
        show (-d.exponent).toNat = 0 by omega, Nat.pow_zero]
    · have hk : (-d.exponent).toNat ≤ 22 := by omega
      rw [divPowerOfTen, if_pos (by omega), ofInt_div_powerOfTen hc hk,
        show d.exponent.toNat = 0 by omega, Nat.pow_zero, Nat.mul_one]
  rw [byParts?, hread, Option.map_some]
  cases negative
  · rw [if_neg Bool.false_ne_true]
  · rw [if_pos rfl, neg_toDouble]

end Decimal

end Bson
