import Formula.Number.Integer

/-! # Checked integers are exact

A checked operation has a result exactly when the result over the unbounded integers fits, and then
it is that result. -/

namespace Formula.Integer

variable {a b n : Int64}

theorem fits_toInt (n : Int64) : Fits n.toInt :=
  ⟨Int64.minValue_le_toInt n, Int64.toInt_le n⟩

/-- The integers that fit are those of 64-bit integers. -/
theorem fits_iff {m : Int} : Fits m ↔ ∃ n : Int64, n.toInt = m := by
  constructor
  · intro h
    have hlow : -2 ^ 63 ≤ m := h.1
    have hhigh : m ≤ 2 ^ 63 - 1 := h.2
    exact ⟨Int64.ofInt m, Int64.toInt_ofInt_of_le hlow (by omega)⟩
  · rintro ⟨n, rfl⟩
    exact fits_toInt n

theorem ofInt?_toInt (n : Int64) : ofInt? n.toInt = some n := by
  rw [ofInt?, if_pos (fits_toInt n), Int64.ofInt_toInt]

theorem ofInt?_eq_some_iff {m : Int} : ofInt? m = some n ↔ n.toInt = m := by
  constructor
  · intro h
    by_cases hfits : Fits m
    · obtain ⟨n', rfl⟩ := fits_iff.mp hfits
      rw [ofInt?_toInt] at h
      cases h
      rfl
    · rw [ofInt?, if_neg hfits] at h
      cases h
  · rintro rfl
    exact ofInt?_toInt n

theorem ofInt?_eq_none_iff {m : Int} : ofInt? m = none ↔ ¬ Fits m := by
  rw [ofInt?]
  split <;> simp_all

theorem neg?_eq_some_iff : neg? a = some n ↔ n.toInt = -a.toInt :=
  ofInt?_eq_some_iff

theorem neg?_comm : neg? a = some b ↔ neg? b = some a := by
  rw [neg?_eq_some_iff, neg?_eq_some_iff]
  omega

/-- Only the smallest integer has a negative that does not fit. -/
theorem neg?_eq_none_iff : neg? n = none ↔ n = Int64.minValue := by
  rw [neg?, ofInt?_eq_none_iff, ← Int64.toInt_inj]
  have hlow := Int64.minValue_le_toInt n
  have hhigh := Int64.toInt_le n
  have hmin : Int64.minValue.toInt = -2 ^ 63 := rfl
  have hmax : Int64.maxValue.toInt = 2 ^ 63 - 1 := rfl
  rw [Fits]
  omega

/-- A quotient is no further from zero than its dividend, and only the negation of the smallest
integer is as far from zero and does not fit. -/
theorem fits_fdiv (hb : b.toInt ≠ 0)
    (h : ¬ (a.toInt = Int64.minValue.toInt ∧ b.toInt = -1)) : Fits (a.toInt.fdiv b.toInt) := by
  have hmin : Int64.minValue.toInt = -9223372036854775808 := rfl
  have hlow : -9223372036854775808 ≤ a.toInt := Int64.minValue_le_toInt a
  have hhigh : a.toInt < 9223372036854775808 := Int64.toInt_lt a
  suffices -9223372036854775808 ≤ a.toInt.fdiv b.toInt ∧
      a.toInt.fdiv b.toInt < 9223372036854775808 from ⟨this.1, Int.le_sub_one_of_lt this.2⟩
  rcases Int.lt_or_gt_of_ne hb with hneg | hpos
  · have hpos : 0 < -b.toInt := by omega
    rw [← Int.neg_fdiv_neg, Int.fdiv_eq_ediv_of_nonneg _ (Int.le_of_lt hpos),
      Int.le_ediv_iff_mul_le hpos, Int.ediv_lt_iff_lt_mul hpos]
    omega
  · rw [Int.fdiv_eq_ediv_of_nonneg _ (Int.le_of_lt hpos), Int.le_ediv_iff_mul_le hpos,
      Int.ediv_lt_iff_lt_mul hpos]
    omega

theorem floorDiv?_eq_none_iff (hb : b ≠ 0) :
    floorDiv? a b = none ↔ a = Int64.minValue ∧ b = -1 := by
  have hzero : b.toInt ≠ 0 := fun h => hb (Int64.toInt_inj.mp h)
  rw [floorDiv?, ofInt?_eq_none_iff]
  constructor
  · intro h
    have hlimit : a.toInt = Int64.minValue.toInt ∧ b.toInt = -1 :=
      Decidable.not_not.mp fun hnot => h (fits_fdiv hzero hnot)
    exact ⟨Int64.toInt_inj.mp hlimit.1, Int64.toInt_inj.mp hlimit.2⟩
  · rintro ⟨rfl, rfl⟩
    decide

/-! ## Powers -/

/-- A power of `-1`, `0` or `1` is again one of them, by the parity of the exponent. -/
theorem pow_of_natAbs_le_one {a : Int} (h : a.natAbs ≤ 1) (e : Nat) :
    a.pow e = if e = 0 then 1 else if e % 2 = 0 then a * a else a := by
  have ha : a = -1 ∨ a = 0 ∨ a = 1 := by omega
  induction e with
  | zero => exact Int.pow_zero a
  | succ e ih =>
      have hstep : a.pow (e + 1) = a.pow e * a := Int.pow_succ a e
      rw [hstep, ih]
      rcases ha with rfl | rfl | rfl <;> grind

/-- A power of any other base is too large from exponent `64` on. -/
theorem not_fits_pow {a : Int} {e : Nat} (ha : 1 < a.natAbs) (he : 64 ≤ e) :
    ¬ Fits (a.pow e) := by
  intro h
  have hlow : -2 ^ 63 ≤ a.pow e := h.1
  have hhigh : a.pow e ≤ 2 ^ 63 - 1 := h.2
  have hbase : Nat.pow 2 e ≤ a.natAbs.pow e := Nat.pow_le_pow_left ha e
  have hexponent : Nat.pow 2 64 ≤ Nat.pow 2 e := Nat.pow_le_pow_right (by decide) he
  have hpower : Nat.pow 2 64 = 18446744073709551616 := rfl
  have habs : (a.pow e).natAbs = a.natAbs.pow e := Int.natAbs_pow a e
  omega

/-- The power of a small base that the parity of the exponent selects is the power itself. -/
theorem toInt_smallPower (h : a.toInt.natAbs ≤ 1) (e : Nat) :
    (if e = 0 then 1 else if e % 2 = 0 then a * a else a).toInt = a.toInt.pow e := by
  have hsquare : (a * a).toInt = a.toInt * a.toInt := by
    have ha : a.toInt = -1 ∨ a.toInt = 0 ∨ a.toInt = 1 := by omega
    rw [Int64.toInt_mul]
    rcases ha with ha | ha | ha <;> rw [ha] <;> rfl
  rw [pow_of_natAbs_le_one h, ← hsquare]
  split
  · rfl
  · split <;> rfl

theorem pow?_eq_some_iff {e : Nat} : pow? a e = some n ↔ n.toInt = a.toInt.pow e := by
  by_cases hsmall : a.toInt.natAbs ≤ 1
  · have hpow : pow? a e = some (if e = 0 then 1 else if e % 2 = 0 then a * a else a) := by
      rw [pow?, if_pos hsmall]
      split
      · rfl
      · split <;> rfl
    rw [hpow, ← toInt_smallPower hsmall, Option.some_inj, Int64.toInt_inj, eq_comm]
  · rw [pow?, if_neg hsmall]
    split
    · exact ofInt?_eq_some_iff
    · rename_i he
      have hfits := not_fits_pow (Nat.lt_of_not_le hsmall) (Nat.le_of_not_lt he)
      constructor
      · nofun
      · intro h
        exact absurd (h ▸ fits_toInt n) hfits

theorem pow?_eq_none_iff {e : Nat} : pow? a e = none ↔ ¬ Fits (a.toInt.pow e) := by
  simp only [Option.eq_none_iff_forall_ne_some, ne_eq, pow?_eq_some_iff, fits_iff, not_exists]

end Formula.Integer
