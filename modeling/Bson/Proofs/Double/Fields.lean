import Bson.Double.Rounding

/-!
# The fields of a double

What the fields of a double say about its value. The magnitude of a finite double is counted in
units of the least one there is, `2 ^ -1074`, so that it is a whole number.

* `Double.units`: the magnitude of a finite double in these units, `significand * 2 ^ shift`.
* `Double.Fits`: the significands and shifts that finite doubles have. `Double.fits_of_isFinite`,
  `Double.eq_ofFields` and `Double.Fits.units_ofFields`: with the sign, the two are the double.
* `Double.Fits.unique`: a magnitude has one significand and one shift.
* `Double.toInt?_eq_some`: a double has the value of an integer if its units are so many wholes.
* `Double.ieeeEq_iff`: doubles are equal as numbers if they are the same number or two zeros.
-/

namespace Bson.Double

/-- How many powers of two the scale of a double is above the least scale. -/
def shift (x : Double) : Nat := max x.exponentField 1 - 1

/-- The magnitude of a finite double in units of the least one. -/
def units (x : Double) : Nat := x.significand * 2 ^ x.shift

/-- How many powers of two the least scale is below one. -/
@[irreducible] def lowestScale : Nat := 1074

/-- The units in one. -/
def unitsOfOne : Nat := 2 ^ lowestScale

/-- The units with the sign. -/
def signedUnits (x : Double) : Int := if x.isNegative then -(x.units : Int) else x.units

/-- The finite double with a given sign, shift and significand. -/
def ofFields (negative : Bool) (shift significand : Nat) : Double :=
  ofMagnitude negative (shift * 2 ^ 52 + significand)

/-- Whether a finite double has a given shift and significand: significands have 53 bits, fewer only
on the least scale. -/
structure Fits (shift significand : Nat) : Prop where
  lt : significand < 2 ^ 53
  normal : shift = 0 ∨ 2 ^ 52 ≤ significand
  le : shift ≤ 2045

theorem lowestScale_eq : lowestScale = 1074 := by rw [lowestScale]

theorem unitsOfOne_pos : 0 < unitsOfOne := by
  unfold unitsOfOne
  generalize lowestScale = k
  exact Nat.two_pow_pos k

theorem scale_eq (x : Double) : x.scale = (x.shift : Int) - lowestScale := by
  rw [scale, shift, lowestScale]
  omega

/-! ### Doubles from their magnitude bits -/

section Magnitude

variable {negative : Bool} {m : Nat}

theorem toNat_bits_ofMagnitude (h : m < 2 ^ 63) :
    (ofMagnitude negative m).bits.toNat = (if negative then 2 ^ 63 else 0) + m := by
  have hlt : (if negative then 2 ^ 63 else 0) + m < UInt64.size := by
    rw [UInt64.size]
    cases negative
    · rw [if_neg Bool.false_ne_true]
      omega
    · rw [if_pos rfl]
      omega
  exact UInt64.toNat_ofNat_of_lt' hlt

theorem fractionField_ofMagnitude (h : m < 2 ^ 63) :
    (ofMagnitude negative m).fractionField = m % 2 ^ 52 := by
  rw [fractionField, toNat_bits_ofMagnitude h]
  split <;> omega

theorem exponentField_ofMagnitude (h : m < 2 ^ 63) :
    (ofMagnitude negative m).exponentField = m / 2 ^ 52 := by
  rw [exponentField, toNat_bits_ofMagnitude h]
  split <;> omega

theorem isNegative_ofMagnitude (h : m < 2 ^ 63) :
    (ofMagnitude negative m).isNegative = negative := by
  rw [isNegative, toNat_bits_ofMagnitude h]
  cases negative
  · rw [if_neg Bool.false_ne_true]
    exact decide_eq_false (by omega)
  · rw [if_pos rfl]
    exact decide_eq_true (by omega)

/-- Magnitude bits up to those of infinity are a number's. -/
theorem isNaN_ofMagnitude (h : m ≤ infinityMagnitude) : (ofMagnitude negative m).isNaN = false := by
  rw [infinityMagnitude] at h
  rw [isNaN, exponentField_ofMagnitude (by omega), fractionField_ofMagnitude (by omega)]
  exact decide_eq_false (by omega)

theorem toNat_bits_abs (x : Double) : x.abs.bits.toNat = x.bits.toNat % 2 ^ 63 := by
  rw [abs, toNat_bits_ofMagnitude (Nat.mod_lt _ (by decide)), if_neg Bool.false_ne_true,
    Nat.zero_add]

/-- Nothing is rounded to a NaN. -/
theorem isNaN_ofRatio (negative : Bool) (num den : Nat) :
    (ofRatio negative num den).isNaN = false := by
  rw [ofRatio]
  split
  · exact isNaN_ofMagnitude (Nat.zero_le _)
  · exact isNaN_ofMagnitude (Nat.min_le_right _ _)

end Magnitude

/-- A double is its sign and its magnitude bits. -/
theorem ofMagnitude_bits (x : Double) :
    ofMagnitude x.isNegative (x.bits.toNat % 2 ^ 63) = x := by
  have hlt := x.bits.toNat_lt
  have hback : UInt64.ofNat x.bits.toNat = x.bits := UInt64.ofNat_toNat
  have hsum : (if x.isNegative then 2 ^ 63 else 0) + x.bits.toNat % 2 ^ 63 = x.bits.toNat := by
    by_cases hneg : 2 ^ 63 ≤ x.bits.toNat
    · rw [if_pos (show x.isNegative = true from decide_eq_true hneg)]
      omega
    · rw [if_neg (show ¬x.isNegative = true from mt of_decide_eq_true hneg)]
      omega
  rw [ofMagnitude, hsum, hback]

/-! ### Significand and shift -/

namespace Fits

variable {negative : Bool} {p m q n : Nat}

theorem magnitude_lt (h : Fits p m) : p * 2 ^ 52 + m < infinityMagnitude := by
  have := h.lt
  have := h.le
  rw [infinityMagnitude]
  omega

theorem magnitude_lt_two_pow (h : Fits p m) : p * 2 ^ 52 + m < 2 ^ 63 :=
  Nat.lt_trans h.magnitude_lt (by decide)

theorem exponentField_ofFields (h : Fits p m) :
    (ofFields negative p m).exponentField = if m < 2 ^ 52 then 0 else p + 1 := by
  have := h.lt
  have := h.normal
  rw [ofFields, exponentField_ofMagnitude h.magnitude_lt_two_pow]
  split <;> omega

theorem isFinite_ofFields (h : Fits p m) : (ofFields negative p m).isFinite := by
  have := h.le
  rw [isFinite, h.exponentField_ofFields]
  refine decide_eq_true ?_
  split <;> omega

theorem shift_ofFields (h : Fits p m) : (ofFields negative p m).shift = p := by
  have := h.normal
  rw [shift, h.exponentField_ofFields]
  split <;> omega

theorem significand_ofFields (h : Fits p m) : (ofFields negative p m).significand = m := by
  have := h.lt
  have := h.normal
  rw [significand, h.exponentField_ofFields, ofFields,
    fractionField_ofMagnitude h.magnitude_lt_two_pow]
  by_cases hm : m < 2 ^ 52
  · rw [if_pos hm, if_pos rfl]
    omega
  · rw [if_neg hm, if_neg (Nat.succ_ne_zero p)]
    omega

theorem isNegative_ofFields (h : Fits p m) : (ofFields negative p m).isNegative = negative :=
  isNegative_ofMagnitude h.magnitude_lt_two_pow

theorem units_ofFields (h : Fits p m) : (ofFields negative p m).units = m * 2 ^ p := by
  rw [units, h.significand_ofFields, h.shift_ofFields]

/-- Of two significands for one magnitude, the one with the smaller shift would have a bit too
many. -/
theorem shift_le (hp : Fits p m) (hq : Fits q n) (h : m * 2 ^ p = n * 2 ^ q) : p ≤ q := by
  refine Nat.le_of_not_lt fun hlt => ?_
  have hnormal : 2 ^ 52 ≤ m := hp.normal.resolve_left (by omega)
  obtain ⟨k, rfl⟩ : ∃ k, p = q + (k + 1) := ⟨p - q - 1, by omega⟩
  have hn : m * 2 ^ (k + 1) = n := by
    refine Nat.eq_of_mul_eq_mul_right (Nat.two_pow_pos q) ?_
    rw [← h, Nat.mul_assoc, ← Nat.pow_add, Nat.add_comm]
  have hk : 2 ^ 1 ≤ 2 ^ (k + 1) := Nat.pow_le_pow_right (by decide) (by omega)
  have hprod := Nat.mul_le_mul hnormal hk
  have := hq.lt
  omega

/-- A magnitude has one significand and one shift. -/
theorem unique (hp : Fits p m) (hq : Fits q n) (h : m * 2 ^ p = n * 2 ^ q) : p = q ∧ m = n := by
  have hpq : p = q := Nat.le_antisymm (shift_le hp hq h) (shift_le hq hp h.symm)
  exact ⟨hpq, Nat.eq_of_mul_eq_mul_right (Nat.two_pow_pos p) (hpq ▸ h)⟩

end Fits

theorem fits_of_isFinite {x : Double} (h : x.isFinite) : Fits x.shift x.significand := by
  have hne : x.exponentField ≠ 2047 := of_decide_eq_true h
  have hexponent : x.exponentField < 2 ^ 11 := Nat.mod_lt _ (by decide)
  have hfraction : x.fractionField < 2 ^ 52 := Nat.mod_lt _ (by decide)
  rw [shift, significand]
  constructor
  · split <;> omega
  · split <;> omega
  · omega

/-- The magnitude bits of a double, by its shift and significand. -/
theorem magnitude_eq (x : Double) : x.bits.toNat % 2 ^ 63 = x.shift * 2 ^ 52 + x.significand := by
  rw [shift, significand, exponentField, fractionField]
  split <;> omega

/-- A finite double is its sign, shift and significand. -/
theorem eq_ofFields (x : Double) : x = ofFields x.isNegative x.shift x.significand := by
  rw [ofFields, ← magnitude_eq, ofMagnitude_bits]

/-- A double without its sign has the same shift and significand. -/
theorem abs_eq_ofFields (x : Double) : x.abs = ofFields false x.shift x.significand := by
  rw [abs, ofFields, ← magnitude_eq]

theorem isFinite_abs {x : Double} (h : x.isFinite) : x.abs.isFinite := by
  rw [abs_eq_ofFields]
  exact (fits_of_isFinite h).isFinite_ofFields

/-- Finite doubles of one sign and one magnitude are the same. -/
theorem eq_of_units_eq {x y : Double} (hx : x.isFinite) (hy : y.isFinite)
    (hsign : x.isNegative = y.isNegative) (hunits : x.units = y.units) : x = y := by
  obtain ⟨hshift, hsignificand⟩ := (fits_of_isFinite hx).unique (fits_of_isFinite hy) hunits
  rw [eq_ofFields x, eq_ofFields y, hsign, hshift, hsignificand]

/-! ### Integers -/

/-- The magnitude of a double that is a whole number, and of no other. -/
theorem wholeMagnitude?_eq_some {x : Double} {n : Nat} :
    x.wholeMagnitude? = some n ↔ x.units = n * unitsOfOne := by
  have hscale := x.scale_eq
  rw [wholeMagnitude?, units]
  by_cases hwhole : 0 ≤ x.scale
  · obtain ⟨k, hk⟩ : ∃ k, x.shift = k + lowestScale :=
      ⟨x.shift - lowestScale, by omega⟩
    have hk' : x.scale.toNat = k := by omega
    have hpow : 2 ^ (k + lowestScale) = 2 ^ k * unitsOfOne := by rw [unitsOfOne, Nat.pow_add]
    rw [if_pos hwhole, Option.some.injEq, hk, hk', hpow, ← Nat.mul_assoc,
      Nat.mul_right_cancel_iff unitsOfOne_pos]
  · obtain ⟨k, hk⟩ : ∃ k, lowestScale = k + x.shift :=
      ⟨lowestScale - x.shift, by omega⟩
    have hk' : (-x.scale).toNat = k := by omega
    have hpow : unitsOfOne = 2 ^ k * 2 ^ x.shift := by rw [unitsOfOne, hk, Nat.pow_add]
    rw [if_neg hwhole, hk', hpow, ← Nat.mul_assoc,
      Nat.mul_right_cancel_iff (Nat.two_pow_pos x.shift)]
    constructor
    · intro h
      split at h
      · rename_i hmod
        cases h
        exact (Nat.div_mul_cancel (Nat.dvd_of_mod_eq_zero hmod)).symm
      · cases h
    · intro h
      rw [h, Nat.mul_mod_left, if_pos rfl, Nat.mul_div_cancel _ (Nat.two_pow_pos k)]

theorem toInt?_of_isFinite {x : Double} (h : x.isFinite) :
    x.toInt? = x.wholeMagnitude?.map fun k : Nat => if x.isNegative then -(k : Int) else k := by
  rw [toInt?, if_pos h]
  cases x.wholeMagnitude? <;> rfl

/-- A double has the value of an integer if it has the units of so many ones. -/
theorem toInt?_eq_some {x : Double} {n : Int} :
    x.toInt? = some n ↔ x.isFinite ∧ x.signedUnits = n * unitsOfOne := by
  by_cases hfinite : x.isFinite
  · rw [toInt?_of_isFinite hfinite, Option.map_eq_some_iff, and_iff_right hfinite, signedUnits]
    simp only [wholeMagnitude?_eq_some]
    constructor
    · rintro ⟨k, hk, rfl⟩
      rw [hk, Int.natCast_mul]
      split
      · rw [Int.neg_mul]
      · rfl
    · intro h
      have hone : (unitsOfOne : Int) ≠ 0 := Int.natCast_ne_zero.2 (Nat.ne_of_gt unitsOfOne_pos)
      have habs : x.units = n.natAbs * unitsOfOne := by
        have := congrArg Int.natAbs h
        rw [Int.natAbs_mul, Int.natAbs_natCast] at this
        split at this
        · rwa [Int.natAbs_neg, Int.natAbs_natCast] at this
        · rwa [Int.natAbs_natCast] at this
      refine ⟨n.natAbs, habs, Int.eq_of_mul_eq_mul_right hone ?_⟩
      rw [← h, habs, Int.natCast_mul]
      split
      · rw [Int.neg_mul]
      · rfl
  · rw [toInt?, if_neg hfinite]
    exact ⟨fun h => (nomatch h), fun h => absurd h.1 hfinite⟩

theorem toInt32?_eq_some {x : Double} {n : Int32} :
    x.toInt32? = some n ↔ x.toInt? = some n.toInt := by
  rw [toInt32?, Option.bind_eq_some_iff]
  constructor
  · rintro ⟨k, hk, h⟩
    split at h
    · rename_i hrange
      cases h
      rw [hk, Int32.toInt_ofInt_of_le hrange.1 hrange.2]
    · cases h
  · intro h
    refine ⟨n.toInt, h, ?_⟩
    rw [if_pos ⟨n.le_toInt, n.toInt_lt⟩, Int32.ofInt_toInt]

/-! ### Equality -/

theorem eq_ofFields_of_isZero {x : Double} (h : x.isZero) : x = ofFields x.isNegative 0 0 := by
  have hbits : x.bits.toNat % 2 ^ 63 = 0 := of_decide_eq_true h
  rw [ofFields, show 0 * 2 ^ 52 + 0 = x.bits.toNat % 2 ^ 63 from hbits.symm, ofMagnitude_bits]

/-- Both zeros have the value of the integer zero. -/
theorem toInt?_of_isZero {x : Double} (h : x.isZero) : x.toInt? = some 0 := by
  have hfits : Fits 0 0 := ⟨by decide, .inl rfl, by decide⟩
  rw [eq_ofFields_of_isZero h, toInt?_eq_some]
  refine ⟨hfits.isFinite_ofFields, ?_⟩
  rw [signedUnits, hfits.units_ofFields, Nat.zero_mul, Int.zero_mul]
  split <;> rfl

theorem units_eq_zero_iff {x : Double} (h : x.isFinite) : x.units = 0 ↔ x.isZero := by
  constructor
  · intro hunits
    have hsignificand : x.significand = 0 :=
      (Nat.mul_eq_zero.1 hunits).resolve_right (Nat.ne_of_gt (Nat.two_pow_pos x.shift))
    have hshift : x.shift = 0 := (fits_of_isFinite h).normal.resolve_right (by omega)
    rw [eq_ofFields x, hsignificand, hshift]
    cases x.isNegative <;> rfl
  · intro hzero
    have hfits : Fits 0 0 := ⟨by decide, .inl rfl, by decide⟩
    rw [eq_ofFields_of_isZero hzero, hfits.units_ofFields, Nat.zero_mul]

theorem isNaN_of_isZero {x : Double} (h : x.isZero) : x.isNaN = false := by
  have hbits : x.bits.toNat % 2 ^ 63 = 0 := of_decide_eq_true h
  refine decide_eq_false fun hnan => hnan.2 ?_
  rw [fractionField]
  omega

/-- Doubles are equal as numbers if they are one number or two zeros. -/
theorem ieeeEq_iff {x y : Double} :
    x.ieeeEq y ↔ (x = y ∧ x.isNaN = false) ∨ (x.isZero ∧ y.isZero) := by
  have hbits : x.bits = y.bits ↔ x = y := ⟨fun h => by cases x; cases y; cases h; rfl, congrArg _⟩
  simp only [ieeeEq, Bool.and_eq_true, Bool.or_eq_true, Bool.not_eq_true', beq_iff_eq, hbits]
  constructor
  · rintro ⟨⟨hx, -⟩, rfl | hzeros⟩
    · exact .inl ⟨rfl, hx⟩
    · exact .inr hzeros
  · rintro (⟨rfl, hx⟩ | hzeros)
    · exact ⟨⟨hx, hx⟩, .inl rfl⟩
    · exact ⟨⟨isNaN_of_isZero hzeros.1, isNaN_of_isZero hzeros.2⟩, .inr hzeros⟩

/-- Equal numbers are the same integer of 32 bits, if they are one. -/
theorem toInt32?_of_ieeeEq {x y : Double} (h : x.ieeeEq y) : x.toInt32? = y.toInt32? := by
  rcases ieeeEq_iff.1 h with ⟨rfl, -⟩ | ⟨hx, hy⟩
  · rfl
  · rw [toInt32?, toInt32?, toInt?_of_isZero hx, toInt?_of_isZero hy]

end Bson.Double
