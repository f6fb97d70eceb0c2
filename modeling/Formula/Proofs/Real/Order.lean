import Formula.Number
import Formula.Number.Integer
import Formula.Proofs.Real.Nearest

/-! # The order of numbers

Integers and reals compare as the numbers that they stand for, although an integer is rounded before
it is compared with a real. -/

namespace Formula

open Double

/-! ## Exact values -/

/-- The number that a defined value stands for, the infinities being the extremes. -/
def Exact.extended? : Exact → Option (WithBot (WithTop ℚ))
  | finite x => some (x.value : WithTop ℚ)
  | infinite negative => some (if negative then ⊥ else ⊤)
  | undefined => none

/-- The number that an integer or a real stands for. -/
def Number.extended? : Number → Option (WithBot (WithTop ℚ))
  | integer n => some ((n.toInt : ℚ) : WithTop ℚ)
  | real x => (Exact.ofFloat x).extended?

theorem cmp_coe (p q : ℚ) :
    cmp ((p : WithTop ℚ) : WithBot (WithTop ℚ)) ((q : WithTop ℚ) : WithBot (WithTop ℚ)) =
      cmp p q :=
  (WithBot.coe_strictMono.cmp_map_eq _ _).trans (WithTop.coe_strictMono.cmp_map_eq _ _)

theorem cmp_coe_infinite (p : ℚ) (negative : Bool) :
    cmp ((p : WithTop ℚ) : WithBot (WithTop ℚ)) (if negative then ⊥ else ⊤) =
      if negative then .gt else .lt := by
  cases negative
  · exact (cmp_eq_lt_iff _ _).mpr (WithBot.coe_lt_coe.mpr (WithTop.coe_lt_top p))
  · exact (cmp_eq_gt_iff _ _).mpr (WithBot.bot_lt_coe _)

namespace Exact

variable {a b : Exact} {x y : WithBot (WithTop ℚ)}

theorem extended?_eq_none_iff : a.extended? = none ↔ a = undefined := by
  cases a <;> simp [extended?]

/-- Defined values compare as the numbers that they stand for. -/
theorem compare_eq (ha : a.extended? = some x) (hb : b.extended? = some y) :
    a.compare b = some (cmp x y) := by
  cases a with
  | undefined => cases ha
  | finite s =>
      cases ha
      cases b with
      | undefined => cases hb
      | finite t =>
          cases hb
          rw [compare, cmp_coe, Scaled.compare_eq]
      | infinite negative =>
          cases hb
          rw [compare, cmp_coe_infinite]
  | infinite negative =>
      cases ha
      cases b with
      | undefined => cases hb
      | finite t =>
          cases hb
          rw [compare, ← cmp_swap, cmp_coe_infinite]
          cases negative <;> rfl
      | infinite negative' =>
          cases hb
          cases negative <;> cases negative' <;> simp [compare, cmp, cmpUsing]

/-- An undefined value is in order with nothing. -/
theorem compare_eq_none (h : a.extended? = none ∨ b.extended? = none) : a.compare b = none := by
  rw [extended?_eq_none_iff, extended?_eq_none_iff] at h
  rcases h with rfl | rfl
  · rfl
  · cases a <;> rfl

end Exact

/-! ## An integer beside a real -/

namespace Number

/-- The double that an integer is rounded to. -/
theorem toReal_isNearest (n : Int64) :
    ∃ t, Exact.ofFloat (integer n).toReal = .finite t ∧ IsNearest t.value n.toInt := by
  have hsmall : |(Scaled.ofInt n.toInt).value| < 2 ^ 1023 := by
    have hlow : -2 ^ 63 ≤ n.toInt := Int64.minValue_le_toInt n
    have hhigh : n.toInt ≤ 2 ^ 63 - 1 := Int64.toInt_le n
    have habs : |(n.toInt : ℚ)| ≤ 2 ^ 63 := by
      exact_mod_cast abs_le.mpr ⟨hlow, by omega⟩
    rw [Scaled.value_ofInt]
    exact habs.trans_lt (pow_lt_pow_right₀ one_lt_two (by decide))
  obtain ⟨t, ht, hnearest⟩ := Scaled.toFloat_isNearest hsmall
  rw [Scaled.value_ofInt] at hnearest
  exact ⟨t, ht, hnearest⟩

/-- The order of the rounded integer and a representable number is that of the integer and the
number, unless they are equal. -/
theorem cmp_eq_of_isNearest {n v x : ℚ} (h : IsNearest v n) (hx : Representable x) (hne : v ≠ x) :
    cmp v x = cmp n x := by
  rcases lt_or_gt_of_ne hne with hlt | hgt
  · rw [(cmp_eq_lt_iff v x).mpr hlt, eq_comm, cmp_eq_lt_iff]
    by_contra hle
    exact absurd (h.le_of_le hx (not_lt.mp hle)) (not_le.mpr hlt)
  · rw [(cmp_eq_gt_iff v x).mpr hgt, eq_comm, cmp_eq_gt_iff]
    by_contra hle
    exact absurd (h.ge_of_ge hx (not_lt.mp hle)) (not_le.mpr hgt)

/-- The cast of an integral value in range is exact. -/
theorem toInt_toInt64 {s : Scaled} {m : ℤ} (h : s.value = m) (hm : Integer.Fits m) :
    (Exact.finite s).toInt64.toInt = m := by
  rw [Exact.toInt64, Scaled.truncate_eq h]
  exact Int64.toInt_ofIntClamp hm.1 hm.2

/-- The comparison with the number above all 64-bit integers tells reals from `2 ^ 63` on. -/
theorem isGE_compare_iff (s : Scaled) :
    ((Exact.finite s).compare (.finite (.ofInt (Int64.maxValue.toInt + 1)))).any Ordering.isGE =
      true ↔ (2 : ℚ) ^ 63 ≤ s.value := by
  rw [Exact.compare, Option.any_some, Scaled.isGE_compare_iff, Scaled.value_ofInt_limit]

/-- Where a real is equal to the rounded integer, both are integers to compare, or the real is above
all 64-bit integers. -/
theorem compareReal_of_eq {n : Int64} {s : Scaled} (h : IsNearest s.value n.toInt) :
    (if ((Exact.finite s).compare (.finite (.ofInt (Int64.maxValue.toInt + 1)))).any Ordering.isGE
      then Ordering.lt else Ord.compare n.toInt (Exact.finite s).toInt64.toInt) =
      cmp (n.toInt : ℚ) s.value := by
  have hlow : -2 ^ 63 ≤ n.toInt := Int64.minValue_le_toInt n
  have hhigh : n.toInt < 2 ^ 63 := Int64.toInt_lt n
  obtain ⟨m, hm⟩ := h.exists_int
  split
  · rename_i hge
    have hlt : (n.toInt : ℚ) < 2 ^ 63 := by exact_mod_cast hhigh
    exact ((cmp_eq_lt_iff _ _).mpr (hlt.trans_le ((isGE_compare_iff s).mp hge))).symm
  · rename_i hlt
    rw [isGE_compare_iff, not_le, hm] at hlt
    have hlimit : Representable (-2 ^ 63) := by
      have hpower : Representable (2 ^ (63 : ℤ)) := representable_two_zpow (by norm_num)
      exact_mod_cast hpower.neg
    have hge : (-2 ^ 63 : ℚ) ≤ m := hm ▸ h.le_of_le hlimit (by exact_mod_cast hlow)
    have hfits : Integer.Fits m := by
      have hge : -2 ^ 63 ≤ m := by exact_mod_cast hge
      have hlt : m < 2 ^ 63 := by exact_mod_cast hlt
      exact ⟨hge, Int.le_sub_one_of_lt hlt⟩
    rw [toInt_toInt64 hm hfits, hm, ← cmp_eq_compare]
    exact (Int.cast_strictMono.cmp_map_eq n.toInt m).symm

/-- An integer compares with a finite real as the numbers that they stand for. -/
theorem compareReal_finite {n : Int64} {x : Float} {s : Scaled}
    (hx : Exact.ofFloat x = .finite s) :
    compareReal n x = some (cmp (n.toInt : ℚ) s.value) := by
  obtain ⟨t, ht, hnearest⟩ := toReal_isNearest n
  have hcompare : (Exact.finite t).compare (.finite s) = some (cmp t.value s.value) := by
    rw [Exact.compare, Scaled.compare_eq]
  simp only [compareReal, ht, hx, hcompare]
  by_cases heq : t.value = s.value
  · rw [heq, cmp_self_eq_eq, ← compareReal_of_eq (heq ▸ hnearest), apply_ite some]
  · have horder := cmp_eq_of_isNearest hnearest (representable_of_ofFloat hx) heq
    rw [← horder]
    split
    · rename_i hcmp
      exact absurd ((cmp_eq_eq_iff _ _).mp (Option.some.inj hcmp)) heq
    · rfl

/-- An integer and a real compare as the numbers that they stand for. -/
theorem compareReal_eq {n : Int64} {x : Float} {y : WithBot (WithTop ℚ)}
    (hx : (Exact.ofFloat x).extended? = some y) :
    compareReal n x = some (cmp (((n.toInt : ℚ) : WithTop ℚ) : WithBot (WithTop ℚ)) y) := by
  cases hvalue : Exact.ofFloat x with
  | undefined =>
      rw [hvalue] at hx
      cases hx
  | finite s =>
      rw [hvalue] at hx
      cases hx
      rw [compareReal_finite hvalue, cmp_coe]
  | infinite negative =>
      rw [hvalue] at hx
      cases hx
      obtain ⟨t, ht, -⟩ := toReal_isNearest n
      rw [cmp_coe_infinite]
      cases negative <;> simp only [compareReal, ht, hvalue, Exact.compare] <;> rfl

variable {a b : Number} {x y : WithBot (WithTop ℚ)}

/-- Numbers compare as the numbers that they stand for. -/
theorem compare_eq (ha : a.extended? = some x) (hb : b.extended? = some y) :
    a.compare b = some (cmp x y) := by
  cases a with
  | integer n =>
      cases ha
      cases b with
      | integer m =>
          cases hb
          rw [compare, cmp_coe, ← cmp_eq_compare]
          exact congrArg some (Int.cast_strictMono.cmp_map_eq n.toInt m.toInt).symm
      | real z => exact compareReal_eq hb
  | real w =>
      cases b with
      | integer m =>
          cases hb
          rw [compare, compareReal_eq ha, Option.map_some, cmp_swap]
      | real z => exact Exact.compare_eq ha hb

theorem compareReal_eq_none {n : Int64} {x : Float} (hx : (Exact.ofFloat x).extended? = none) :
    compareReal n x = none := by
  obtain ⟨t, ht, -⟩ := toReal_isNearest n
  rw [Exact.extended?_eq_none_iff] at hx
  simp only [compareReal, ht, hx, Exact.compare]

/-- An undefined number is in order with nothing. -/
theorem compare_eq_none (h : a.extended? = none ∨ b.extended? = none) : a.compare b = none := by
  cases a with
  | integer n =>
      cases b with
      | integer m => simp [extended?] at h
      | real z => exact compareReal_eq_none (h.resolve_left (Option.some_ne_none _))
  | real w =>
      cases b with
      | integer m =>
          have hundefined := h.resolve_right (Option.some_ne_none _)
          rw [compare, compareReal_eq_none hundefined, Option.map_none]
      | real z => exact Exact.compare_eq_none h

end Number

end Formula
