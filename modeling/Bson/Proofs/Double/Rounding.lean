import Bson.Proofs.Double.Fields

/-!
# Rounding to a double

Rounding is a function of the exact value: of the numbers that a quotient may be written with only
the quotient counts, and a double is the rounding of its own value.

* `Double.RoundsAt`: the shift on which a quotient is rounded, said of the quotient alone.
  `Double.ratioScale_roundsAt` says that the scale found from the binary lengths is that shift, and
  `Double.RoundsAt.unique` that there is no other.
* `Double.ofRatio_eq`: rounding, with the shift given in this way.
* `Double.ofRatio_congr`: equal quotients are rounded alike.
* `Double.ofRatio_exact`: a quotient that is the magnitude of a finite double gives that double.
* `Double.ofInt_exact`: integers below `2 ^ 53` are doubles.
-/

namespace Bson

theorem roundDiv_mul_right (a b : Nat) {c : Nat} (hc : 0 < c) :
    roundDiv (a * c) (b * c) = roundDiv a b := by
  have hr : 2 * (a % b * c) = 2 * (a % b) * c := (Nat.mul_assoc 2 _ c).symm
  simp only [roundDiv, Nat.mul_div_mul_right _ _ hc, Nat.mul_mod_mul_right, hr,
    Nat.mul_lt_mul_right hc]

/-- A quotient without remainder is rounded to itself. -/
theorem roundDiv_mul_self (m : Nat) {b : Nat} (hb : 0 < b) : roundDiv (m * b) b = m := by
  simp only [roundDiv, Nat.mul_mod_left, Nat.mul_zero, if_pos hb, Nat.mul_div_cancel _ hb]

namespace Double

variable {num den p : Nat}

/-- Whether a quotient is rounded on a shift: in units of that shift it has at most 53 bits, and
fewer only on the least shift. -/
structure RoundsAt (num den p : Nat) : Prop where
  lt : num * unitsOfOne < den * 2 ^ (p + 53)
  normal : p = 0 ∨ den * 2 ^ (p + 52) ≤ num * unitsOfOne

namespace RoundsAt

theorem le {q : Nat} (hp : RoundsAt num den p) (hq : RoundsAt num den q) : p ≤ q := by
  rcases hp.normal with rfl | hnormal
  · exact Nat.zero_le q
  · have hpow : 2 ^ (p + 52) < 2 ^ (q + 53) :=
      Nat.lt_of_mul_lt_mul_left (Nat.lt_of_le_of_lt hnormal hq.lt)
    have := (Nat.pow_lt_pow_iff_right (by decide)).1 hpow
    omega

/-- A quotient is rounded on one shift. -/
theorem unique {q : Nat} (hp : RoundsAt num den p) (hq : RoundsAt num den q) : p = q :=
  Nat.le_antisymm (hp.le hq) (hq.le hp)

/-- Numbers of the same quotient are rounded on the same shift. -/
theorem congr {num' den' : Nat} (hden : 0 < den) (hden' : 0 < den')
    (h : num * den' = num' * den) (hp : RoundsAt num den p) : RoundsAt num' den' p := by
  have hunits : num' * unitsOfOne * den = num * unitsOfOne * den' := by
    rw [Nat.mul_right_comm, ← h, Nat.mul_right_comm]
  have hswap : ∀ k, den * k * den' = den' * k * den := fun k => by
    rw [Nat.mul_right_comm, Nat.mul_comm den, Nat.mul_right_comm]
  constructor
  · refine Nat.lt_of_mul_lt_mul_right (a := den) ?_
    calc num' * unitsOfOne * den = num * unitsOfOne * den' := hunits
      _ < den * 2 ^ (p + 53) * den' := Nat.mul_lt_mul_of_pos_right hp.lt hden'
      _ = den' * 2 ^ (p + 53) * den := hswap _
  · refine hp.normal.imp_right fun hnormal => Nat.le_of_mul_le_mul_right (c := den) ?_ hden
    calc den' * 2 ^ (p + 52) * den = den * 2 ^ (p + 52) * den' := (hswap _).symm
      _ ≤ num * unitsOfOne * den' := Nat.mul_le_mul_right den' hnormal
      _ = num' * unitsOfOne * den := hunits.symm

end RoundsAt

/-- On a scale from the least one on, numerator and denominator are those of the value in units,
but for a power of two. -/
theorem scaled_eq (num den : Nat) {e : Int} (he : -(lowestScale : Int) ≤ e) :
    ∃ c, 0 < c ∧ scaledNum num e * c = num * unitsOfOne ∧
      scaledDen den e * c = den * 2 ^ (e + lowestScale).toNat := by
  refine ⟨2 ^ (lowestScale - (-e).toNat), Nat.two_pow_pos _, ?_, ?_⟩
  · rw [scaledNum, Nat.mul_assoc, ← Nat.pow_add, unitsOfOne]
    congr 2
    omega
  · rw [scaledDen, Nat.mul_assoc, ← Nat.pow_add]
    congr 2
    omega

/-- The scale of a quotient is the shift on which it is rounded. -/
theorem ratioScale_roundsAt (hnum : 0 < num) (hden : 0 < den) :
    -(lowestScale : Int) ≤ ratioScale num den ∧
      RoundsAt num den (ratioScale num den + lowestScale).toNat := by
  have hnumLe : 2 ^ num.log2 ≤ num := Nat.log2_self_le (Nat.ne_of_gt hnum)
  have hnumLt : num < 2 ^ (num.log2 + 1) := Nat.lt_log2_self
  have hdenLe : 2 ^ den.log2 ≤ den := Nat.log2_self_le (Nat.ne_of_gt hden)
  have hdenLt : den < 2 ^ (den.log2 + 1) := Nat.lt_log2_self
  have hlowest : (-1074 : Int) = -(lowestScale : Int) := by rw [lowestScale_eq]; rfl
  rw [ratioScale, hlowest]
  generalize num.log2 = n at *
  generalize den.log2 = d at *
  generalize he : max ((n : Int) - d - 53) (-(lowestScale : Int)) = e
  -- the first guess has enough bits, and at most one bit too many
  have hge : -(lowestScale : Int) ≤ e := by omega
  obtain ⟨c, hc, hcNum, hcDen⟩ := scaled_eq num den hge
  obtain ⟨p, hp⟩ : ∃ p : Nat, (e + lowestScale).toNat = p := ⟨_, rfl⟩
  have hfits : scaledNum num e / scaledDen den e < 2 ^ 53 ↔
      num * unitsOfOne < den * 2 ^ (p + 53) := by
    have hpos : 0 < scaledDen den e := Nat.mul_pos hden (Nat.two_pow_pos _)
    rw [Nat.div_lt_iff_lt_mul hpos, ← Nat.mul_lt_mul_right hc, hcNum, Nat.mul_assoc, hcDen, hp,
      Nat.pow_add, Nat.mul_comm (2 ^ 53), Nat.mul_assoc]
  have hunits : num * unitsOfOne < 2 ^ (n + 1 + lowestScale) := by
    rw [Nat.pow_add, ← unitsOfOne]
    exact Nat.mul_lt_mul_of_pos_right hnumLt unitsOfOne_pos
  by_cases hsmall : scaledNum num e / scaledDen den e < 2 ^ 53
  · rw [if_pos hsmall]
    refine ⟨hge, hp ▸ hfits.1 hsmall, ?_⟩
    -- fewer bits than 53 are possible only on the least scale
    by_cases hleast : e = -lowestScale
    · exact .inl (by omega)
    · refine .inr (Nat.le_of_lt ?_)
      calc den * 2 ^ ((e + lowestScale).toNat + 52)
          < 2 ^ (d + 1) * 2 ^ ((e + lowestScale).toNat + 52) :=
            Nat.mul_lt_mul_of_pos_right hdenLt (Nat.two_pow_pos _)
        _ = 2 ^ n * unitsOfOne := by
            rw [unitsOfOne, ← Nat.pow_add, ← Nat.pow_add]
            congr 1
            omega
        _ ≤ num * unitsOfOne := Nat.mul_le_mul_right _ hnumLe
  · rw [if_neg hsmall]
    have hnext : (e + 1 + lowestScale).toNat = p + 1 := by omega
    refine ⟨by omega, ?_, .inr ?_⟩
    · calc num * unitsOfOne < 2 ^ (n + 1 + lowestScale) := hunits
        _ ≤ 2 ^ d * 2 ^ (p + 1 + 53) := by
            rw [← Nat.pow_add]
            exact Nat.pow_le_pow_right (by decide) (by omega)
        _ ≤ den * 2 ^ ((e + 1 + lowestScale).toNat + 53) := by
            rw [hnext]
            exact Nat.mul_le_mul_right _ hdenLe
    · rw [hnext, Nat.add_right_comm]
      exact Nat.le_of_not_lt (mt hfits.2 hsmall)

/-- Rounding, in units of the shift on which the quotient is rounded. -/
theorem ofRatio_eq (negative : Bool) (hnum : 0 < num) (hden : 0 < den) (hp : RoundsAt num den p) :
    ofRatio negative num den =
      ofMagnitude negative
        (min (p * 2 ^ 52 + roundDiv (num * unitsOfOne) (den * 2 ^ p)) infinityMagnitude) := by
  obtain ⟨hle, hscale⟩ := ratioScale_roundsAt hnum hden
  obtain ⟨c, hc, hcNum, hcDen⟩ := scaled_eq num den hle
  have hshift := hscale.unique hp
  have hlowest : (1074 : Int) = (lowestScale : Int) := by rw [lowestScale_eq]; rfl
  rw [hshift] at hcDen
  rw [ofRatio, if_neg (Nat.ne_of_gt hnum)]
  simp only [hlowest, hshift, ← hcNum, ← hcDen, roundDiv_mul_right _ _ hc]

/-- The magnitude of what a quotient is rounded to does not depend on the sign. -/
theorem ofRatio_eq_ofMagnitude (num den : Nat) :
    ∃ m < 2 ^ 63, ∀ negative, ofRatio negative num den = ofMagnitude negative m := by
  by_cases hnum : num = 0
  · exact ⟨0, by decide, fun negative => by rw [ofRatio, if_pos hnum, zero]⟩
  · refine ⟨_, ?_, fun negative => if_neg hnum⟩
    exact Nat.lt_of_le_of_lt (Nat.min_le_right _ infinityMagnitude) (by decide)

theorem isNegative_ofRatio (negative : Bool) (num den : Nat) :
    (ofRatio negative num den).isNegative = negative := by
  obtain ⟨m, hm, hround⟩ := ofRatio_eq_ofMagnitude num den
  rw [hround, isNegative_ofMagnitude hm]

/-- Equal quotients are rounded alike. -/
theorem ofRatio_congr (negative : Bool) {num' den' : Nat} (hden : 0 < den) (hden' : 0 < den')
    (h : num * den' = num' * den) : ofRatio negative num den = ofRatio negative num' den' := by
  rcases Nat.eq_zero_or_pos num with rfl | hnum
  · have hnum' : num' = 0 := by
      rw [Nat.zero_mul] at h
      exact (Nat.mul_eq_zero.1 h.symm).resolve_right (Nat.ne_of_gt hden)
    rw [hnum', ofRatio, ofRatio, if_pos rfl, if_pos rfl]
  · have hnum' : 0 < num' :=
      Nat.pos_of_mul_pos_right (h ▸ Nat.mul_pos hnum hden')
    obtain ⟨-, hp⟩ := ratioScale_roundsAt hnum hden
    rw [ofRatio_eq negative hnum hden hp, ofRatio_eq negative hnum' hden' (hp.congr hden hden' h)]
    generalize (ratioScale num den + lowestScale).toNat = p
    have hunits : num * unitsOfOne * den' = num' * unitsOfOne * den := by
      rw [Nat.mul_right_comm, h, Nat.mul_right_comm]
    rw [← roundDiv_mul_right (num * unitsOfOne) _ hden', hunits,
      ← roundDiv_mul_right (num' * unitsOfOne) (den' * 2 ^ p) hden, Nat.mul_right_comm den,
      Nat.mul_comm den den', Nat.mul_right_comm den']

/-- A quotient that is the magnitude of a finite double is rounded to that double. -/
theorem ofRatio_exact (negative : Bool) (hden : 0 < den) {m : Nat} (hfits : Fits p m)
    (hm : 0 < m) (h : num * unitsOfOne = m * 2 ^ p * den) :
    ofRatio negative num den = ofFields negative p m := by
  have hD : 0 < den * 2 ^ p := Nat.mul_pos hden (Nat.two_pow_pos p)
  have hunits : num * unitsOfOne = m * (den * 2 ^ p) := by
    rw [h, Nat.mul_assoc, Nat.mul_comm (2 ^ p)]
  have hnum : 0 < num := by
    refine Nat.pos_of_mul_pos_right (b := unitsOfOne) ?_
    rw [hunits]
    exact Nat.mul_pos hm hD
  have hp : RoundsAt num den p := by
    constructor
    · calc num * unitsOfOne = den * 2 ^ p * m := by rw [hunits, Nat.mul_comm]
        _ < den * 2 ^ p * 2 ^ 53 := Nat.mul_lt_mul_of_pos_left hfits.lt hD
        _ = den * 2 ^ (p + 53) := by rw [Nat.mul_assoc, ← Nat.pow_add]
    · refine hfits.normal.imp_right fun hnormal => ?_
      calc den * 2 ^ (p + 52) = den * 2 ^ p * 2 ^ 52 := by rw [Nat.mul_assoc, ← Nat.pow_add]
        _ ≤ den * 2 ^ p * m := Nat.mul_le_mul_left _ hnormal
        _ = num * unitsOfOne := by rw [hunits, Nat.mul_comm]
  have hlt := hfits.magnitude_lt
  rw [ofRatio_eq negative hnum hden hp, hunits, roundDiv_mul_self m hD, Nat.min_eq_left (by omega),
    ofFields]

/-- Every whole magnitude of at most 53 bits is that of a finite double. -/
theorem exists_fits {n : Nat} (hpos : 0 < n) (hlt : n < 2 ^ 53) :
    ∃ p m, Fits p m ∧ m * 2 ^ p = n * unitsOfOne := by
  have hle : 2 ^ n.log2 ≤ n := Nat.log2_self_le (Nat.ne_of_gt hpos)
  have hlt' : n < 2 ^ (n.log2 + 1) := Nat.lt_log2_self
  have hlog : n.log2 < 53 := (Nat.pow_lt_pow_iff_right (by decide)).1 (Nat.lt_of_le_of_lt hle hlt)
  have hlowest := lowestScale_eq
  -- the bits of `n` are moved up until there are 53 of them
  obtain ⟨k, hk⟩ : ∃ k, n.log2 + k = 52 := ⟨52 - n.log2, by omega⟩
  refine ⟨lowestScale - k, n * 2 ^ k, ⟨?_, .inr ?_, by omega⟩, ?_⟩
  · calc n * 2 ^ k
        < 2 ^ (n.log2 + 1) * 2 ^ k := Nat.mul_lt_mul_of_pos_right hlt' (Nat.two_pow_pos k)
      _ = 2 ^ 53 := by rw [← Nat.pow_add, Nat.add_right_comm, hk]
  · calc 2 ^ 52 = 2 ^ n.log2 * 2 ^ k := by rw [← Nat.pow_add, hk]
      _ ≤ n * 2 ^ k := Nat.mul_le_mul_right _ hle
  · rw [Nat.mul_assoc, ← Nat.pow_add, unitsOfOne]
    congr 2
    omega

/-- Integers of at most 53 bits are rounded to doubles of their value. -/
theorem ofInt_exact {n : Int} (h : n.natAbs < 2 ^ 53) : (ofInt n).toInt? = some n := by
  rw [ofInt]
  rcases Nat.eq_zero_or_pos n.natAbs with hzero | hpos
  · rw [ofRatio, if_pos hzero, Int.natAbs_eq_zero.1 hzero]
    exact toInt?_of_isZero rfl
  · obtain ⟨p, m, hfits, hm⟩ := exists_fits hpos h
    have hmpos : 0 < m := by
      refine Nat.pos_of_mul_pos_right (b := 2 ^ p) ?_
      rw [hm]
      exact Nat.mul_pos hpos unitsOfOne_pos
    rw [ofRatio_exact _ Nat.one_pos hfits hmpos (by rw [hm, Nat.mul_one]), toInt?_eq_some]
    refine ⟨hfits.isFinite_ofFields, ?_⟩
    rw [signedUnits, hfits.isNegative_ofFields, hfits.units_ofFields, hm, Int.natCast_mul]
    by_cases hneg : n < 0
    · rw [if_pos (decide_eq_true hneg), ← Int.neg_mul, Int.ofNat_natAbs_of_nonpos (by omega),
        Int.neg_neg]
    · rw [if_neg (by simpa using hneg), Int.natAbs_of_nonneg (by omega)]

end Double

end Bson
