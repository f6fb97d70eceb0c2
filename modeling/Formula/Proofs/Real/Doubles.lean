import Formula.Number.Exact
import Formula.Proofs.Real.Scaled
import Mathlib

/-! # Doubles and their bit patterns

What a pattern of sign, exponent and fraction stands for, and the numbers that finite doubles stand
for. -/

namespace Formula.Double

/-! ## Patterns -/

open Float.Model.UnpackedFloat in
/-- A pattern that is no undefined value is kept. -/
theorem toNat_toBits_ofBits {b : ℕ} (hb : b < 2 ^ 64) (hexponent : (b >>> 52) % 2048 ≠ 2047) :
    (Float.ofBits (UInt64.ofNat b)).toBits.toNat = b := by
  have hnat : (UInt64.ofNat b).toNat = b := by
    rw [UInt64.toNat_ofNat']
    exact Nat.mod_eq_of_lt hb
  have hnotNaN : @isNaNBits .binary64 (UInt64.ofNat b).toBitVec = false := by
    have hfield : (@unpackExponent .binary64 (UInt64.ofNat b).toBitVec).toNat ≠ 2047 := by
      rw [unpackExponent_def]
      simpa [hnat] using hexponent
    rw [isNaNBits, decide_eq_false_iff_not]
    rintro ⟨hones, -⟩
    rw [hones] at hfield
    exact hfield rfl
  have hpack : (Float.ofBits (UInt64.ofNat b)).toBits =
      UInt64.ofBitVec (pack .binary64 (unpack .binary64 (UInt64.ofNat b).toBitVec)) := rfl
  rw [hpack, pack_unpack, hnotNaN, if_neg Bool.false_ne_true]
  exact hnat

/-- The pattern with the given sign, exponent and fraction. -/
def pattern (negative : Bool) (biased fraction : ℕ) : ℕ :=
  (if negative then 1 <<< 63 else 0) + (biased <<< 52 + fraction)

section

variable {negative : Bool} {biased fraction : ℕ} (hbiased : biased < 2048)
    (hfraction : fraction < 2 ^ 52)
include hbiased hfraction

theorem pattern_lt : pattern negative biased fraction < 2 ^ 64 := by
  rw [pattern, Nat.shiftLeft_eq, Nat.shiftLeft_eq]
  split <;> omega

theorem pattern_biased : pattern negative biased fraction >>> 52 % 2048 = biased := by
  rw [pattern, Nat.shiftLeft_eq, Nat.shiftLeft_eq, Nat.shiftRight_eq_div_pow]
  split <;> omega

omit hbiased in
theorem pattern_fraction : pattern negative biased fraction % (1 <<< 52) = fraction := by
  rw [pattern, Nat.shiftLeft_eq, Nat.shiftLeft_eq, Nat.shiftLeft_eq]
  split <;> omega

theorem pattern_negative : (pattern negative biased fraction).testBit 63 = negative := by
  rw [pattern, Nat.shiftLeft_eq, Nat.shiftLeft_eq, Nat.testBit_eq_decide_div_mod_eq]
  cases negative
  · rw [if_neg Bool.false_ne_true, decide_eq_false_iff_not]
    omega
  · rw [if_pos rfl, decide_eq_true_eq]
    omega

end

/-- A natural number with the sign of a pattern. -/
def signed (negative : Bool) (n : ℕ) : ℤ := if negative then -n else n

theorem abs_signed (negative : Bool) (n : ℕ) : |signed negative n| = n := by
  cases negative
  · exact abs_of_nonneg (Int.natCast_nonneg n)
  · rw [signed, if_pos rfl, abs_neg]
    exact abs_of_nonneg (Int.natCast_nonneg n)

/-- The value of a finite pattern. -/
theorem ofFloat_pattern {negative : Bool} {biased fraction : ℕ} (hbiased : biased < 2047)
    (hfraction : fraction < 2 ^ 52) :
    Exact.ofFloat (Float.ofBits (UInt64.ofNat (pattern negative biased fraction))) =
      .finite (if biased = 0 then ⟨signed negative fraction, -1074⟩
        else ⟨signed negative (2 ^ 52 + fraction), biased - 1075⟩) := by
  have hfield : biased < 2048 := by omega
  have hbits : (Float.ofBits (UInt64.ofNat (pattern negative biased fraction))).toBits.toNat =
      pattern negative biased fraction := by
    apply toNat_toBits_ofBits (pattern_lt hfield hfraction)
    rw [pattern_biased hfield hfraction]
    omega
  rw [Exact.ofFloat, Exact.isNegative, hbits]
  simp only [pattern_biased hfield hfraction, pattern_fraction hfraction,
    pattern_negative hfield hfraction]
  rw [if_neg (by omega)]
  split <;> rfl

/-! ## Representable numbers -/

/-- The numbers with a mantissa of 53 bits and an exponent from `-1074` on: those that finite
doubles stand for, and larger ones. -/
def Representable (z : ℚ) : Prop :=
  ∃ m e : ℤ, z = m * 2 ^ e ∧ |m| < 2 ^ 53 ∧ -1074 ≤ e

theorem representable_of_ofFloat {x : Float} {t : Scaled} (h : Exact.ofFloat x = .finite t) :
    Representable t.value := by
  rw [Exact.ofFloat] at h
  simp only [Nat.shiftLeft_eq, one_mul] at h
  have hfraction : x.toBits.toNat % 2 ^ 52 < 2 ^ 52 := Nat.mod_lt _ (by positivity)
  split at h
  · split at h <;> cases h
  · split at h
    · cases h
      refine ⟨signed _ _, -1074, rfl, ?_, le_refl _⟩
      rw [abs_signed]
      omega
    · cases h
      refine ⟨signed _ _, ((x.toBits.toNat >>> 52 % 2048 : ℕ) : ℤ) - 1075, rfl, ?_, by omega⟩
      rw [abs_signed]
      omega

theorem Representable.neg {z : ℚ} (h : Representable z) : Representable (-z) := by
  obtain ⟨m, e, rfl, hm, he⟩ := h
  exact ⟨-m, e, by push_cast; ring, by rwa [abs_neg], he⟩

theorem representable_intCast {n : ℤ} (h : |n| < 2 ^ 53) : Representable n :=
  ⟨n, 0, by simp, h, by norm_num⟩

theorem representable_zero : Representable 0 :=
  ⟨0, 0, by simp, by norm_num, by norm_num⟩

theorem representable_two_zpow {e : ℤ} (h : -1074 ≤ e) : Representable (2 ^ e) :=
  ⟨1, e, by simp, by norm_num, h⟩

/-- Representable numbers that are large are integers. -/
theorem Representable.exists_int {z : ℚ} (h : Representable z) (hz : 2 ^ 53 ≤ |z|) :
    ∃ n : ℤ, z = n := by
  obtain ⟨m, e, rfl, hm, -⟩ := h
  have he : 0 ≤ e := by
    by_contra hneg
    have hpower : (2 : ℚ) ^ e ≤ 1 := zpow_le_one_of_nonpos₀ one_le_two (by omega)
    have hmantissa : |(m : ℚ)| < 2 ^ 53 := by exact_mod_cast hm
    rw [abs_mul, abs_of_pos (by positivity : (0 : ℚ) < 2 ^ e)] at hz
    nlinarith [abs_nonneg (m : ℚ)]
  refine ⟨m * 2 ^ e.toNat, ?_⟩
  push_cast
  rw [← zpow_natCast, Int.toNat_of_nonneg he]

/-! ## Nearest numbers -/

/-- The first number is representable and as near to the second as any representable number. -/
structure IsNearest (v x : ℚ) : Prop where
  representable : Representable v
  nearest : ∀ z, Representable z → |v - x| ≤ |z - x|

theorem isNearest_self {x : ℚ} (h : Representable x) : IsNearest x x where
  representable := h
  nearest z _ := by simp

namespace IsNearest

variable {v x z : ℚ}

theorem neg (h : IsNearest v x) : IsNearest (-v) (-x) where
  representable := h.representable.neg
  nearest z hz := by
    have hle := h.nearest (-z) hz.neg
    rwa [show -v - -x = -(v - x) by ring, show z - -x = -(-z - x) by ring, abs_neg, abs_neg]

/-- Rounding does not pass a representable number. -/
theorem le_of_le (h : IsNearest v x) (hz : Representable z) (hzx : z ≤ x) : z ≤ v := by
  by_contra hlt
  have hle := h.nearest z hz
  rw [abs_of_nonpos (by linarith), abs_of_nonpos (by linarith)] at hle
  linarith

theorem ge_of_ge (h : IsNearest v x) (hz : Representable z) (hxz : x ≤ z) : v ≤ z := by
  have hneg := h.neg.le_of_le hz.neg (neg_le_neg hxz)
  linarith

theorem eq_of_representable (h : IsNearest v x) (hx : Representable x) : v = x :=
  le_antisymm (h.ge_of_ge hx le_rfl) (h.le_of_le hx le_rfl)

/-- An integer rounds to an integer. -/
theorem exists_int {n : ℤ} (h : IsNearest v n) : ∃ m : ℤ, v = m := by
  by_cases hsmall : |n| < 2 ^ 53
  · exact ⟨n, h.eq_of_representable (representable_intCast hsmall)⟩
  · apply h.representable.exists_int
    have hpower : Representable (2 ^ 53) := by
      have hzpow : Representable (2 ^ (53 : ℤ)) := representable_two_zpow (by norm_num)
      exact_mod_cast hzpow
    rcases le_abs.mp (not_lt.mp hsmall) with hn | hn
    · have hle : (2 : ℚ) ^ 53 ≤ n := by exact_mod_cast hn
      exact le_abs.mpr (.inl (h.le_of_le hpower hle))
    · have hle : (2 : ℚ) ^ 53 ≤ -n := by exact_mod_cast hn
      exact le_abs.mpr (.inr (le_neg_of_le_neg (h.ge_of_ge hpower.neg (le_neg_of_le_neg hle))))

end IsNearest

end Formula.Double
