import Formula.Number.Scaled
import Mathlib.Algebra.Order.Field.Power
import Mathlib.Data.Rat.Cast.Order
import Mathlib.Tactic.FieldSimp
import Mathlib.Tactic.Linarith
import Mathlib.Tactic.Positivity

/-! # Values of scaled integers

Comparison and truncation of scaled integers are those of the rationals that they stand for. -/

namespace Formula.Scaled

/-- The number that a mantissa and an exponent stand for. -/
def value (x : Scaled) : ℚ := x.mantissa * 2 ^ x.exponent

@[simp] theorem value_ofInt (n : ℤ) : (ofInt n).value = n := by
  simp [value, ofInt]

/-- The number above all 64-bit integers. -/
theorem value_ofInt_limit : (ofInt (Int64.maxValue.toInt + 1)).value = 2 ^ 63 := by
  rw [value_ofInt, show Int64.maxValue.toInt + 1 = 2 ^ 63 from rfl]
  norm_num

theorem value_eq_zero_iff {x : Scaled} : x.value = 0 ↔ x.mantissa = 0 := by
  have hpower : (2 : ℚ) ^ x.exponent ≠ 0 := by positivity
  rw [value, mul_eq_zero, or_iff_left hpower, Int.cast_eq_zero]

theorem mantissaAt_mul {x : Scaled} {e : ℤ} (h : e ≤ x.exponent) :
    (x.mantissaAt e : ℚ) * 2 ^ e = x.value := by
  have hsum : ((x.exponent - e).toNat : ℤ) + e = x.exponent := by omega
  have hpower : (2 : ℚ) ^ x.exponent = 2 ^ (x.exponent - e).toNat * 2 ^ e := by
    rw [← zpow_natCast, ← zpow_add₀ two_ne_zero, hsum]
  rw [mantissaAt, Int.shiftLeft_eq, value, hpower]
  push_cast
  exact mul_assoc _ _ _

theorem compare_eq (x y : Scaled) : x.compare y = cmp x.value y.value := by
  have hmono : StrictMono fun n : ℤ => (n : ℚ) * 2 ^ min x.exponent y.exponent := by
    intro m n hmn
    have hpos : (0 : ℚ) < 2 ^ min x.exponent y.exponent := by positivity
    have hcast : (m : ℚ) < n := by exact_mod_cast hmn
    exact mul_lt_mul_of_pos_right hcast hpos
  rw [compare, ← cmp_eq_compare, ← hmono.cmp_map_eq, mantissaAt_mul (min_le_left _ _),
    mantissaAt_mul (min_le_right _ _)]

theorem isGE_compare_iff {x y : Scaled} : (x.compare y).isGE = true ↔ y.value ≤ x.value := by
  rw [compare_eq, ← not_lt, ← cmp_eq_lt_iff]
  cases cmp x.value y.value <;> decide

theorem isLE_compare_iff {x y : Scaled} : (x.compare y).isLE = true ↔ x.value ≤ y.value := by
  rw [compare_eq, ← not_lt, ← cmp_eq_gt_iff]
  cases cmp x.value y.value <;> decide

/-- Below the exponent zero, the value is an integer when the mantissa is a multiple of its unit. -/
theorem value_eq_intCast_iff {x : Scaled} {n : ℤ} (h : x.exponent < 0) :
    x.value = n ↔ x.mantissa = n * 2 ^ (-x.exponent).toNat := by
  have hpower : (2 : ℚ) ^ x.exponent * 2 ^ (-x.exponent).toNat = 1 := by
    rw [← zpow_natCast, ← zpow_add₀ two_ne_zero]
    have hzero : x.exponent + ((-x.exponent).toNat : ℤ) = 0 := by omega
    rw [hzero, zpow_zero]
  have hunit : (2 : ℚ) ^ (-x.exponent).toNat ≠ 0 := by positivity
  rw [← mul_left_inj' hunit, value, mul_assoc, hpower, mul_one]
  norm_cast

theorem value_eq_mantissaAt {x : Scaled} (h : 0 ≤ x.exponent) : x.value = x.mantissaAt 0 := by
  rw [← mantissaAt_mul h, zpow_zero, mul_one]

/-- The integer part of an integer is the integer. -/
theorem truncate_eq {x : Scaled} {n : ℤ} (h : x.value = n) : x.truncate = n := by
  unfold truncate
  split
  · rename_i hexponent
    rw [value_eq_mantissaAt hexponent] at h
    exact_mod_cast h
  · rename_i hexponent
    rw [(value_eq_intCast_iff (not_le.mp hexponent)).mp h, Int.shiftLeft_eq, one_mul]
    exact Int.mul_tdiv_cancel _ (by positivity)

/-- The integer that a number is found to be equal to is the one that it is equal to. -/
theorem toInt?_eq_some_iff {x : Scaled} {n : ℤ} : x.toInt? = some n ↔ x.value = n := by
  unfold toInt?
  split
  · rename_i hexponent
    rw [value_eq_mantissaAt hexponent, Option.some_inj]
    norm_cast
  · rename_i hexponent
    rw [value_eq_intCast_iff (not_le.mp hexponent), Int.shiftLeft_eq, one_mul]
    have hunit : (0 : ℤ) < 2 ^ (-x.exponent).toNat := by positivity
    dsimp only
    split
    · rename_i hmultiple
      rw [Option.some_inj]
      exact Int.ediv_eq_iff_eq_mul_left hunit.ne' (Int.dvd_of_emod_eq_zero hmultiple)
    · rename_i hmultiple
      simp only [reduceCtorEq, false_iff]
      intro hmantissa
      rw [hmantissa] at hmultiple
      exact hmultiple (Int.mul_emod_left _ _)

theorem toInt?_eq_none_iff {x : Scaled} : x.toInt? = none ↔ ∀ n : ℤ, x.value ≠ n := by
  simp only [Option.eq_none_iff_forall_ne_some, ne_eq, toInt?_eq_some_iff]

end Formula.Scaled
