import Mathlib.Algebra.Field.Rat
import Mathlib.Algebra.Order.Ring.Rat
import Mathlib.Data.Rat.Cast.Order
import Mathlib.Tactic.FieldSimp
import Bson.Proofs.Double.Rounding

/-!
# The number of a double

The exact value of a double: a rational number, one of the infinities, or a NaN with its bits.

* `Double.number`: the value of a double.
* `Double.number_eq_finite_intCast`: a double has the value of an integer if `toInt?` says so.
* `Double.number_eq_iff`: only the two zeros have one value.
-/

namespace Bson

/-- What a number can be. -/
inductive Number
  | finite (value : ℚ)
  | infinite (negative : Bool)
  /-- Not a number; all its bits count. -/
  | nan (bits : UInt64)

namespace Double

/-- The exact value of a double: the units that it has, each of which is `2 ^ -1074`. -/
def number (x : Double) : Number :=
  if x.isFinite then .finite ((x.signedUnits : ℚ) / (unitsOfOne : ℚ))
  else if x.isNaN then .nan x.bits
  else .infinite x.isNegative

theorem unitsOfOne_ne_zero : (unitsOfOne : ℚ) ≠ 0 :=
  Nat.cast_ne_zero.2 (Nat.ne_of_gt unitsOfOne_pos)

/-- A double has the value of an integer if it has the units of so many ones. -/
theorem number_eq_finite_intCast {x : Double} {n : ℤ} :
    x.number = .finite n ↔ x.toInt? = some n := by
  rw [toInt?_eq_some, number]
  by_cases hfinite : x.isFinite
  · rw [if_pos hfinite, and_iff_right hfinite, Number.finite.injEq,
      div_eq_iff unitsOfOne_ne_zero]
    norm_cast
  · rw [if_neg hfinite]
    refine ⟨fun h => ?_, fun h => absurd h.1 hfinite⟩
    split at h <;> cases h

theorem number_eq_of_int32 {x : Double} {n : Int32} :
    x.number = .finite (n.toInt : ℤ) ↔ x.toInt32? = some n := by
  rw [number_eq_finite_intCast, toInt32?_eq_some]

theorem number_of_isFinite {x : Double} (h : x.isFinite) :
    x.number = .finite ((x.signedUnits : ℚ) / (unitsOfOne : ℚ)) := if_pos h

/-- Units with a sign have one magnitude and, unless there are none, one sign. -/
theorem eq_or_isZero_of_signedUnits_eq {x y : Double} (hx : x.isFinite) (hy : y.isFinite)
    (h : x.signedUnits = y.signedUnits) : x = y ∨ (x.isZero ∧ y.isZero) := by
  rw [signedUnits, signedUnits] at h
  have hunits : x.units = y.units := by
    split at h <;> split at h <;> omega
  by_cases hzero : x.units = 0
  · exact .inr ⟨(units_eq_zero_iff hx).1 hzero, (units_eq_zero_iff hy).1 (hunits ▸ hzero)⟩
  · refine .inl (eq_of_units_eq hx hy ?_ hunits)
    cases hxn : x.isNegative <;> cases hyn : y.isNegative <;> first | rfl | skip
    all_goals
      rw [hxn, hyn] at h
      simp only [if_true, Bool.false_eq_true, if_false] at h
      omega

/-- **Only the two zeros have one value.** -/
theorem number_eq_iff {x y : Double} : x.number = y.number ↔ x = y ∨ (x.isZero ∧ y.isZero) := by
  constructor
  · intro h
    by_cases hx : x.isFinite <;> by_cases hy : y.isFinite
    · rw [number_of_isFinite hx, number_of_isFinite hy, Number.finite.injEq,
        div_left_inj' unitsOfOne_ne_zero, Int.cast_inj] at h
      exact eq_or_isZero_of_signedUnits_eq hx hy h
    · rw [number_of_isFinite hx, number, if_neg hy] at h
      split at h <;> cases h
    · rw [number_of_isFinite hy, number, if_neg hx] at h
      split at h <;> cases h
    · rw [number, number, if_neg hx, if_neg hy] at h
      refine .inl ?_
      by_cases hxn : x.isNaN <;> by_cases hyn : y.isNaN
      · rw [if_pos hxn, if_pos hyn, Number.nan.injEq] at h
        exact congrArg Double.mk h
      · rw [if_pos hxn, if_neg hyn] at h
        cases h
      · rw [if_neg hxn, if_pos hyn] at h
        cases h
      · rw [if_neg hxn, if_neg hyn, Number.infinite.injEq] at h
        rw [eq_infinity hx hxn, eq_infinity hy hyn, h]
  · rintro (rfl | ⟨hx, hy⟩)
    · rfl
    · rw [number_eq_finite_intCast.2 (toInt?_of_isZero hx),
        number_eq_finite_intCast.2 (toInt?_of_isZero hy)]

end Double

end Bson
