import Formula.Proofs.Real.Doubles

/-! # Rounding to the nearest double

The rounded quotient of two natural numbers stands for a number that no representable number is
nearer to than. -/

namespace Formula.Nearest

open Double

/-! ## The nearest integer -/

/-- An integer at most half away is a nearest one. -/
theorem abs_sub_le_of_half {s : ℤ} {x : ℚ} (h : |s - x| ≤ 1 / 2) (t : ℤ) : |s - x| ≤ |t - x| := by
  by_cases heq : t = s
  · rw [heq]
  · have hone : (1 : ℚ) ≤ |(t : ℚ) - s| := by
      exact_mod_cast Int.one_le_abs (sub_ne_zero.mpr heq)
    have htriangle : |(t : ℚ) - s| ≤ |t - x| + |s - x| := by
      rw [abs_sub_comm (s : ℚ) x]
      exact abs_sub_le _ _ _
    linarith

theorem abs_roundQuotient_sub_le_half {num den : ℕ} (hden : 0 < den) :
    |((roundQuotient num den : ℤ) : ℚ) - num / den| ≤ 1 / 2 := by
  have hdiv : (den : ℤ) * (num / den : ℕ) + (num % den : ℕ) = num := by
    exact_mod_cast Nat.div_add_mod num den
  have hmod : num % den < den := Nat.mod_lt _ hden
  have hinteger : 2 * |(roundQuotient num den : ℤ) * den - num| ≤ den := by
    rw [roundQuotient]
    split
    · have hdistance : ((num / den + 1 : ℕ) : ℤ) * den - num = den - (num % den : ℕ) := by
        rw [Nat.cast_add_one]
        linarith
      rw [hdistance, abs_of_nonneg (by omega)]
      omega
    · have hdistance : ((num / den : ℕ) : ℤ) * den - num = -(num % den : ℕ) := by
        linarith
      rw [hdistance, abs_neg, abs_of_nonneg (by omega)]
      omega
  have hpos : (0 : ℚ) < den := by exact_mod_cast hden
  have hscaled : ((roundQuotient num den : ℤ) : ℚ) - num / den =
      ((roundQuotient num den : ℤ) * den - num : ℤ) / den := by
    push_cast
    field_simp
  rw [hscaled, abs_div, abs_of_pos hpos, div_le_iff₀ hpos]
  have hcast : 2 * |(((roundQuotient num den : ℤ) * den - num : ℤ) : ℚ)| ≤ den := by
    exact_mod_cast hinteger
  linarith

/-- The rounded quotient is a nearest integer. -/
theorem abs_roundQuotient_sub_le {num den : ℕ} (hden : 0 < den) (t : ℤ) :
    |((roundQuotient num den : ℤ) : ℚ) - num / den| ≤ |(t : ℚ) - num / den| :=
  abs_sub_le_of_half (abs_roundQuotient_sub_le_half hden) t

/-! ## The last place -/

theorem two_zpow_eq (p : ℤ) : (2 : ℚ) ^ p = 2 ^ p.toNat / 2 ^ (-p).toNat := by
  rw [← zpow_natCast, ← zpow_natCast, ← zpow_sub₀ two_ne_zero]
  congr 1
  omega

theorem shift_quotient (num den : ℕ) (p : ℤ) :
    ((num <<< (-p).toNat : ℕ) : ℚ) / (den <<< p.toNat : ℕ) = num / den / 2 ^ p := by
  rw [two_zpow_eq, Nat.shiftLeft_eq, Nat.shiftLeft_eq]
  push_cast
  field_simp

theorem shift_le_iff {num den : ℕ} (hden : 0 < den) (p : ℤ) :
    den <<< p.toNat ≤ num <<< (-p).toNat ↔ (2 : ℚ) ^ p ≤ num / den := by
  have hpos : (0 : ℚ) < (den <<< p.toNat : ℕ) := by
    rw [Nat.shiftLeft_eq]
    positivity
  have hpower : (0 : ℚ) < 2 ^ p := by positivity
  rw [← one_le_div hpower, ← shift_quotient, one_le_div hpos, Nat.cast_le]

/-- A quotient of numbers with known leading bits lies between two powers. -/
theorem div_between_log2 {num den : ℕ} (hnum : 0 < num) (hden : 0 < den) :
    (2 : ℚ) ^ ((num.log2 : ℤ) - den.log2 - 1) < num / den ∧
      (num : ℚ) / den < 2 ^ ((num.log2 : ℤ) - den.log2 + 1) := by
  have hnumLow : (2 : ℚ) ^ (num.log2 : ℤ) ≤ num := by
    exact_mod_cast Nat.log2_self_le hnum.ne'
  have hnumHigh : (num : ℚ) < 2 ^ ((num.log2 : ℤ) + 1) := by
    exact_mod_cast Nat.lt_log2_self
  have hdenLow : (2 : ℚ) ^ (den.log2 : ℤ) ≤ den := by
    exact_mod_cast Nat.log2_self_le hden.ne'
  have hdenHigh : (den : ℚ) < 2 ^ ((den.log2 : ℤ) + 1) := by
    exact_mod_cast Nat.lt_log2_self
  have hpos : (0 : ℚ) < den := by exact_mod_cast hden
  constructor
  · rw [lt_div_iff₀ hpos]
    calc (2 : ℚ) ^ ((num.log2 : ℤ) - den.log2 - 1) * den
        < 2 ^ ((num.log2 : ℤ) - den.log2 - 1) * 2 ^ ((den.log2 : ℤ) + 1) := by gcongr
      _ = 2 ^ (num.log2 : ℤ) := by
          rw [← zpow_add₀ two_ne_zero]
          congr 1
          omega
      _ ≤ num := hnumLow
  · rw [div_lt_iff₀ hpos]
    calc (num : ℚ) < 2 ^ ((num.log2 : ℤ) + 1) := hnumHigh
      _ = 2 ^ ((num.log2 : ℤ) - den.log2 + 1) * 2 ^ (den.log2 : ℤ) := by
          rw [← zpow_add₀ two_ne_zero]
          congr 1
          omega
      _ ≤ 2 ^ ((num.log2 : ℤ) - den.log2 + 1) * den := by gcongr

theorem two_zpow_binaryExponent_le {num den : ℕ} (hnum : 0 < num) (hden : 0 < den) :
    (2 : ℚ) ^ binaryExponent num den ≤ num / den ∧
      (num : ℚ) / den < 2 ^ (binaryExponent num den + 1) := by
  obtain ⟨hlow, hhigh⟩ := div_between_log2 hnum hden
  rw [binaryExponent]
  simp only [shift_le_iff hden]
  split
  · exact ⟨‹_›, hhigh⟩
  · rename_i hguess
    rw [sub_add_cancel]
    exact ⟨hlow.le, not_le.mp hguess⟩

/-! ## The significand -/

/-- The significand of the double nearest to `num / den`, at the last place there. -/
def significand (num den : ℕ) : ℕ :=
  roundQuotient (num <<< (-lastPlace num den).toNat) (den <<< (lastPlace num den).toNat)

/-- The significand is a nearest integer to the quotient in units of the last place. -/
theorem abs_significand_sub_le (num : ℕ) {den : ℕ} (hden : 0 < den) (t : ℤ) :
    |((significand num den : ℤ) : ℚ) - num / den / 2 ^ lastPlace num den| ≤
      |(t : ℚ) - num / den / 2 ^ lastPlace num den| := by
  rw [← shift_quotient]
  exact abs_roundQuotient_sub_le (by rw [Nat.shiftLeft_eq]; positivity) t

section

variable {num den : ℕ} (hnum : 0 < num) (hden : 0 < den)

include hden in
theorem le_significand {c : ℤ} (hc : (c : ℚ) ≤ num / den / 2 ^ lastPlace num den) :
    c ≤ significand num den := by
  by_contra hlt
  have hcast : ((significand num den : ℤ) : ℚ) < c := by exact_mod_cast not_le.mp hlt
  have hle := abs_significand_sub_le num hden c
  rw [abs_of_nonpos (by linarith), abs_of_nonpos (by linarith)] at hle
  linarith

include hden in
theorem significand_le {c : ℤ} (hc : num / den / 2 ^ lastPlace num den ≤ (c : ℚ)) :
    significand num den ≤ c := by
  by_contra hlt
  have hcast : (c : ℚ) < (significand num den : ℤ) := by exact_mod_cast not_le.mp hlt
  have hle := abs_significand_sub_le num hden c
  rw [abs_of_nonneg (by linarith), abs_of_nonneg (by linarith)] at hle
  linarith

include hnum hden

/-- The significand takes 53 bits, or is the next power of two. -/
theorem significand_le_two_pow : significand num den ≤ 2 ^ 53 := by
  have hplace : binaryExponent num den + 1 ≤ 53 + lastPlace num den := by
    rw [lastPlace]
    omega
  have hle : (num : ℚ) / den / 2 ^ lastPlace num den ≤ ((2 ^ 53 : ℤ) : ℚ) := by
    rw [div_le_iff₀ (by positivity)]
    calc (num : ℚ) / den ≤ 2 ^ (binaryExponent num den + 1) :=
          (two_zpow_binaryExponent_le hnum hden).2.le
      _ ≤ 2 ^ (53 + lastPlace num den) := zpow_le_zpow_right₀ one_le_two hplace
      _ = ((2 ^ 53 : ℤ) : ℚ) * 2 ^ lastPlace num den := by
          rw [zpow_add₀ two_ne_zero]
          norm_num
  exact_mod_cast significand_le hden hle

/-- Above the lowest place, the significand takes all of 53 bits. -/
theorem two_pow_le_significand (h : -1074 < lastPlace num den) :
    2 ^ 52 ≤ significand num den := by
  have hplace : 52 + lastPlace num den = binaryExponent num den := by
    rw [lastPlace] at h ⊢
    omega
  have hle : ((2 ^ 52 : ℤ) : ℚ) ≤ num / den / 2 ^ lastPlace num den := by
    rw [le_div_iff₀ (by positivity)]
    calc ((2 ^ 52 : ℤ) : ℚ) * 2 ^ lastPlace num den = 2 ^ (52 + lastPlace num den) := by
          rw [zpow_add₀ two_ne_zero]
          norm_num
      _ = 2 ^ binaryExponent num den := by rw [hplace]
      _ ≤ num / den := (two_zpow_binaryExponent_le hnum hden).1
  exact_mod_cast le_significand hden hle

/-! ## The value of the double -/

/-- Below `2 ^ 1023` the last place leaves room for the significand in a finite pattern. -/
theorem lastPlace_le (hsmall : (num : ℚ) / den < 2 ^ 1023) : lastPlace num den ≤ 970 := by
  have hpower : (2 : ℚ) ^ binaryExponent num den < 2 ^ (1023 : ℤ) :=
    (two_zpow_binaryExponent_le hnum hden).1.trans_lt (by exact_mod_cast hsmall)
  have hexponent := (zpow_lt_zpow_iff_right₀ one_lt_two).mp hpower
  rw [lastPlace]
  omega

end

theorem value_signed (negative : Bool) (n : ℕ) (e : ℤ) :
    Scaled.value ⟨signed negative n, e⟩ = (if negative then -1 else 1) * (n * 2 ^ e) := by
  rw [Scaled.value, signed]
  split <;> simp

/-- The pattern of a significand at a place is that of a sign, an exponent and a fraction, which
stand for the significand at the place. -/
theorem ofFloat_ofBits_significand (negative : Bool) {s : ℕ} {p : ℤ} (hs : s ≤ 2 ^ 53)
    (hfull : -1074 < p → 2 ^ 52 ≤ s) (hlow : -1074 ≤ p) (hhigh : p ≤ 970) :
    ∃ t, Exact.ofFloat (Float.ofBits (UInt64.ofNat
        ((if negative then 1 <<< 63 else 0) + (((p + 1074).toNat <<< 52) + s)))) = .finite t ∧
      t.value = (if negative then -1 else 1) * (s * 2 ^ p) := by
  have hpattern (biased fraction : ℕ)
      (h : biased <<< 52 + fraction = (p + 1074).toNat <<< 52 + s) :
      (if negative then 1 <<< 63 else 0) + (((p + 1074).toNat <<< 52) + s) =
        pattern negative biased fraction := by
    rw [pattern, h]
  simp only [Nat.shiftLeft_eq] at hpattern ⊢
  by_cases hsub : s < 2 ^ 52
  · -- a number below the normal range
    obtain rfl : p = -1074 := by omega
    rw [hpattern 0 s (by omega), ofFloat_pattern (by norm_num) hsub, if_pos rfl]
    exact ⟨_, rfl, value_signed _ _ _⟩
  · by_cases hmax : s < 2 ^ 53
    · -- the leading bit of the significand is carried into the exponent
      rw [hpattern (p + 1075).toNat (s - 2 ^ 52) (by omega),
        ofFloat_pattern (by omega) (by omega), if_neg (by omega)]
      refine ⟨_, rfl, ?_⟩
      rw [value_signed, show 2 ^ 52 + (s - 2 ^ 52) = s by omega,
        show ((p + 1075).toNat : ℤ) - 1075 = p by omega]
    · -- so is that of the next power of two
      obtain rfl : s = 2 ^ 53 := by omega
      rw [hpattern (p + 1076).toNat 0 (by omega), ofFloat_pattern (by omega) (by norm_num),
        if_neg (by omega)]
      refine ⟨_, rfl, ?_⟩
      rw [value_signed, show ((p + 1076).toNat : ℤ) - 1075 = p + 1 by omega,
        zpow_add₀ two_ne_zero]
      push_cast
      ring

theorem ofFloat_double (negative : Bool) {num den : ℕ} (hnum : 0 < num) (hden : 0 < den)
    (hsmall : (num : ℚ) / den < 2 ^ 1023) :
    ∃ t, Exact.ofFloat (double negative num den) = .finite t ∧
      t.value = (if negative then -1 else 1) * (significand num den * 2 ^ lastPlace num den) := by
  have hs := significand_le_two_pow hnum hden
  have hlow : -1074 ≤ lastPlace num den := le_max_right _ _
  have hhigh := lastPlace_le hnum hden hsmall
  have hbits : bits num den =
      ((lastPlace num den + 1074).toNat <<< 52) + significand num den := by
    have hfinite : ((lastPlace num den + 1074).toNat <<< 52) + significand num den ≤
        infinityBits := by
      rw [infinityBits, Nat.shiftLeft_eq, Nat.shiftLeft_eq]
      omega
    rw [bits, if_neg hnum.ne']
    exact min_eq_left hfinite
  rw [double, hbits]
  exact ofFloat_ofBits_significand negative hs (two_pow_le_significand hnum hden) hlow hhigh

/-! ## Nearest representable numbers -/

/-- No multiple of the last place is nearer to the quotient. -/
theorem abs_sub_le_of_multiple (num : ℕ) {den : ℕ} (hden : 0 < den) (t : ℤ) :
    |significand num den * 2 ^ lastPlace num den - (num : ℚ) / den| ≤
      |t * 2 ^ lastPlace num den - (num : ℚ) / den| := by
  have hpos : (0 : ℚ) < 2 ^ lastPlace num den := by positivity
  have hscale (c : ℚ) : |c * 2 ^ lastPlace num den - num / den| =
      |c - num / den / 2 ^ lastPlace num den| * 2 ^ lastPlace num den := by
    rw [← abs_of_pos hpos, ← abs_mul, abs_of_pos hpos, sub_mul, div_mul_cancel₀ _ hpos.ne']
  rw [hscale, hscale]
  exact mul_le_mul_of_nonneg_right (abs_significand_sub_le num hden t) hpos.le

theorem representable_significand {num den : ℕ} (hnum : 0 < num) (hden : 0 < den) :
    Representable (significand num den * 2 ^ lastPlace num den) := by
  have hs := significand_le_two_pow hnum hden
  have hlow : -1074 ≤ lastPlace num den := le_max_right _ _
  by_cases hmax : significand num den < 2 ^ 53
  · refine ⟨significand num den, _, rfl, ?_, hlow⟩
    rw [Nat.abs_cast]
    exact_mod_cast hmax
  · have heq : significand num den = 2 ^ 53 := by omega
    refine ⟨2 ^ 52, lastPlace num den + 1, ?_, by norm_num, by omega⟩
    rw [heq, zpow_add₀ two_ne_zero]
    push_cast
    ring

/-- The significand at its place is nearest to the quotient: a representable number that is no
multiple of the last place lies below the binade of the quotient, whose least number is one. -/
theorem isNearest_significand {num den : ℕ} (hnum : 0 < num) (hden : 0 < den) :
    IsNearest (significand num den * 2 ^ lastPlace num den) (num / den) where
  representable := representable_significand hnum hden
  nearest z hz := by
    obtain ⟨m, e, rfl, hm, he⟩ := hz
    by_cases hplace : lastPlace num den ≤ e
    · have hmultiple : (m : ℚ) * 2 ^ e =
          (m * 2 ^ (e - lastPlace num den).toNat : ℤ) * 2 ^ lastPlace num den := by
        push_cast
        rw [mul_assoc, ← zpow_natCast, ← zpow_add₀ two_ne_zero]
        congr 2
        omega
      rw [hmultiple]
      exact abs_sub_le_of_multiple num hden _
    · have hbinade : 52 + lastPlace num den = binaryExponent num den := by
        rw [lastPlace] at hplace ⊢
        omega
      have hleast : ((2 ^ 52 : ℤ) : ℚ) * 2 ^ lastPlace num den ≤ num / den := by
        calc ((2 ^ 52 : ℤ) : ℚ) * 2 ^ lastPlace num den = 2 ^ binaryExponent num den := by
              rw [← hbinade, zpow_add₀ two_ne_zero]
              norm_num
          _ ≤ num / den := (two_zpow_binaryExponent_le hnum hden).1
      have hbelow : (m : ℚ) * 2 ^ e ≤ ((2 ^ 52 : ℤ) : ℚ) * 2 ^ lastPlace num den := by
        have hmantissa : (m : ℚ) ≤ 2 ^ (53 : ℤ) := by
          exact_mod_cast (le_abs_self m).trans hm.le
        calc (m : ℚ) * 2 ^ e ≤ 2 ^ (53 : ℤ) * 2 ^ e := by gcongr
          _ = 2 ^ (53 + e) := (zpow_add₀ two_ne_zero _ _).symm
          _ ≤ 2 ^ (52 + lastPlace num den) := zpow_le_zpow_right₀ one_le_two (by omega)
          _ = ((2 ^ 52 : ℤ) : ℚ) * 2 ^ lastPlace num den := by
              rw [zpow_add₀ two_ne_zero]
              norm_num
      refine (abs_sub_le_of_multiple num hden (2 ^ 52)).trans ?_
      rw [abs_of_nonpos (sub_nonpos.mpr hleast),
        abs_of_nonpos (sub_nonpos.mpr (hbelow.trans hleast))]
      exact neg_le_neg (sub_le_sub_right hbelow _)

/-- The double is finite and stands for the nearest representable number. -/
theorem double_isNearest (negative : Bool) (num : ℕ) {den : ℕ} (hden : 0 < den)
    (hsmall : (num : ℚ) / den < 2 ^ 1023) :
    ∃ t, Exact.ofFloat (double negative num den) = .finite t ∧
      IsNearest t.value ((if negative then -1 else 1) * (num / den)) := by
  rcases Nat.eq_zero_or_pos num with rfl | hnum
  · have hzero : double negative 0 den =
        Float.ofBits (UInt64.ofNat (pattern negative 0 0)) := by
      rw [double, bits, if_pos rfl, pattern, Nat.zero_shiftLeft]
    rw [hzero, ofFloat_pattern (by norm_num) (by norm_num), if_pos rfl]
    refine ⟨_, rfl, ?_⟩
    rw [value_signed]
    simpa using isNearest_self representable_zero
  · obtain ⟨t, ht, hvalue⟩ := ofFloat_double negative hnum hden hsmall
    refine ⟨t, ht, ?_⟩
    rw [hvalue]
    have hnearest := isNearest_significand hnum hden
    cases negative
    · simpa using hnearest
    · simpa using hnearest.neg

end Formula.Nearest

namespace Formula

open Double

/-- The double that a number rounds to is a nearest one. -/
theorem Scaled.toFloat_isNearest {x : Scaled} (h : |x.value| < 2 ^ 1023) :
    ∃ t, Exact.ofFloat x.toFloat = .finite t ∧ IsNearest t.value x.value := by
  have hpos : (0 : ℚ) < 2 ^ x.exponent := by positivity
  have hquotient : ((x.mantissa.natAbs <<< x.exponent.toNat : ℕ) : ℚ) /
      (1 <<< (-x.exponent).toNat : ℕ) = |x.value| := by
    have hshift := Nearest.shift_quotient x.mantissa.natAbs 1 (-x.exponent)
    rw [neg_neg] at hshift
    rw [hshift, value, abs_mul, abs_of_pos hpos, zpow_neg, div_inv_eq_mul, Nat.cast_one, div_one,
      Nat.cast_natAbs, Int.cast_abs]
  have hden : 0 < 1 <<< (-x.exponent).toNat := by
    rw [Nat.shiftLeft_eq]
    positivity
  have hsign : (if x.mantissa < 0 then -1 else 1) * |x.value| = x.value := by
    rw [value, abs_mul, abs_of_pos hpos, ← mul_assoc]
    congr 1
    split
    · rename_i hneg
      rw [abs_of_neg (by exact_mod_cast hneg), neg_one_mul, neg_neg]
    · rename_i hnonneg
      rw [abs_of_nonneg (by exact_mod_cast not_lt.mp hnonneg), one_mul]
  obtain ⟨t, ht, hnearest⟩ := Nearest.double_isNearest (x.mantissa < 0)
    (x.mantissa.natAbs <<< x.exponent.toNat) hden (by rwa [hquotient])
  refine ⟨t, ht, ?_⟩
  rw [hquotient] at hnearest
  simpa [hsign] using hnearest

end Formula
