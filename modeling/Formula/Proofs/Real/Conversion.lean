import Formula.Proofs.Arithmetic.Checked
import Formula.Proofs.Real.Doubles
import Formula.Value.Index

/-! # Reals as integers

A double becomes the 64-bit integer that it is equal to, and nothing else becomes an integer, except
that the double `2 ^ 63` becomes the largest one: the limit of the check is rounded up. -/

namespace Formula

open Double

/-- The outcome is the integer that a double is equal to, or says why there is none. -/
structure Integer.ConvertsExactly (x : Float) (outcome : Except Fault Int64) : Prop where
  /-- The integer is the exact value of the double. -/
  eq_ok_iff : ∀ n, outcome = .ok n ↔ ∃ s, Exact.ofFloat x = .finite s ∧ s.value = n.toInt
  notFinite : (∀ s, Exact.ofFloat x ≠ .finite s) → outcome = .error (.typeMismatch (.notFinite x))
  tooLarge : ∀ {s}, Exact.ofFloat x = .finite s → s.value < -2 ^ 63 ∨ 2 ^ 63 - 1 < s.value →
    outcome = .error .tooLarge
  fractional : ∀ {s}, Exact.ofFloat x = .finite s → -2 ^ 63 ≤ s.value → s.value ≤ 2 ^ 63 - 1 →
    (∀ n : ℤ, s.value ≠ n) → outcome = .error .fractional

/-- The double is the least number above all 64-bit integers. -/
def Integer.IsLimit (x : Float) : Prop :=
  ∃ s, Exact.ofFloat x = .finite s ∧ s.value = 2 ^ 63

namespace Integer

variable {x : Float} {s : Scaled}

/-- The range is checked on the exact value, up to the limit. -/
theorem inRange_iff :
    ((s.compare (.ofInt Int64.minValue.toInt)).isGE &&
      (s.compare (.ofInt (Int64.maxValue.toInt + 1))).isLE) = true ↔
      -2 ^ 63 ≤ s.value ∧ s.value ≤ 2 ^ 63 := by
  have hlow : (Scaled.ofInt Int64.minValue.toInt).value = -2 ^ 63 := by
    rw [Scaled.value_ofInt, show Int64.minValue.toInt = -2 ^ 63 from rfl]
    norm_num
  rw [Bool.and_eq_true, Scaled.isGE_compare_iff, Scaled.isLE_compare_iff, hlow,
    Scaled.value_ofInt_limit]

theorem ofReal_of_inRange (h : Exact.ofFloat x = .finite s) (hlow : -2 ^ 63 ≤ s.value)
    (hhigh : s.value ≤ 2 ^ 63) :
    ofReal x = Fault.orElse .fractional
      (s.toInt?.map fun n => Int64.ofInt (min n Int64.maxValue.toInt)) := by
  simp only [ofReal, h]
  rw [if_pos (inRange_iff.mpr ⟨hlow, hhigh⟩)]
  cases s.toInt? <;> rfl

theorem value_mem_range {n : Int64} (h : s.value = n.toInt) :
    -2 ^ 63 ≤ s.value ∧ s.value ≤ 2 ^ 63 - 1 := by
  have hlow : -2 ^ 63 ≤ n.toInt := Int64.minValue_le_toInt n
  have hhigh : n.toInt ≤ 2 ^ 63 - 1 := Int64.toInt_le n
  rw [h]
  exact ⟨by exact_mod_cast hlow, by exact_mod_cast hhigh⟩

/-- A double equal to an integer becomes that integer. -/
theorem ofReal_of_integer {n : Int64} (h : Exact.ofFloat x = .finite s) (hn : s.value = n.toInt) :
    ofReal x = .ok n := by
  obtain ⟨hlow, hhigh⟩ := value_mem_range hn
  rw [ofReal_of_inRange h hlow (by linarith), Scaled.toInt?_eq_some_iff.mpr hn, Option.map_some,
    min_eq_left (Int64.toInt_le n), Int64.ofInt_toInt, Fault.orElse]

/-- The double next to all 64-bit integers becomes the largest of them. -/
theorem ofReal_of_isLimit (h : IsLimit x) : ofReal x = .ok Int64.maxValue := by
  obtain ⟨s, hs, hvalue⟩ := h
  have hint : s.toInt? = some (2 ^ 63) := Scaled.toInt?_eq_some_iff.mpr (by rw [hvalue]; norm_num)
  rw [ofReal_of_inRange hs (by rw [hvalue]; norm_num) hvalue.le, hint]
  rfl

theorem ofReal_of_outside (h : Exact.ofFloat x = .finite s)
    (houtside : s.value < -2 ^ 63 ∨ 2 ^ 63 < s.value) : ofReal x = .error .tooLarge := by
  simp only [ofReal, h]
  rw [if_neg]
  rw [inRange_iff]
  rintro ⟨hlow, hhigh⟩
  rcases houtside with houtside | houtside <;> linarith

theorem ofReal_of_fractional (h : Exact.ofFloat x = .finite s) (hlow : -2 ^ 63 ≤ s.value)
    (hhigh : s.value ≤ 2 ^ 63) (hn : ∀ n : ℤ, s.value ≠ n) : ofReal x = .error .fractional := by
  rw [ofReal_of_inRange h hlow hhigh, Scaled.toInt?_eq_none_iff.mpr hn]
  rfl

theorem ofReal_of_not_finite (h : ∀ s, Exact.ofFloat x ≠ .finite s) :
    ofReal x = .error (.typeMismatch (.notFinite x)) := by
  cases hx : Exact.ofFloat x with
  | finite s => exact absurd hx (h s)
  | infinite negative => simp only [ofReal, hx]
  | undefined => simp only [ofReal, hx]

/-- No double lies between the largest integer and the limit. -/
theorem limit_le_of_lt (h : Exact.ofFloat x = .finite s) (hlt : 2 ^ 63 - 1 < s.value) :
    2 ^ 63 ≤ s.value := by
  have hlarge : (2 : ℚ) ^ 53 ≤ |s.value| := by
    rw [abs_of_pos (by linarith)]
    linarith
  obtain ⟨n, hn⟩ := (representable_of_ofFloat h).exists_int hlarge
  rw [hn] at hlt ⊢
  have hlt : 2 ^ 63 - 1 < n := by exact_mod_cast hlt
  exact_mod_cast Int.le_of_sub_one_lt hlt

/-- A double within the limits of the check is one of the integers, the limit, or fractional. -/
theorem inRange_cases (h : Exact.ofFloat x = .finite s) (hlow : -2 ^ 63 ≤ s.value)
    (hhigh : s.value ≤ 2 ^ 63) :
    (∃ n : Int64, s.value = n.toInt) ∨ IsLimit x ∨ ∀ n : ℤ, s.value ≠ n := by
  by_cases hint : ∃ n : ℤ, s.value = n
  · obtain ⟨n, hn⟩ := hint
    rcases hhigh.eq_or_lt with hlimit | hlt
    · exact .inr (.inl ⟨s, h, hlimit⟩)
    · rw [hn] at hlow hlt
      have hfits : Fits n := ⟨by exact_mod_cast hlow, Int.le_sub_one_of_lt (by exact_mod_cast hlt)⟩
      obtain ⟨m, rfl⟩ := fits_iff.mp hfits
      exact .inl ⟨m, hn⟩
  · exact .inr (.inr (not_exists.mp hint))

/-- An integer comes from the double that it is equal to, or from the limit. -/
theorem ofReal_eq_ok_iff {n : Int64} :
    ofReal x = .ok n ↔
      (∃ s, Exact.ofFloat x = .finite s ∧ s.value = n.toInt) ∨ IsLimit x ∧ n = Int64.maxValue := by
  constructor
  · intro h
    have hfinite : ∃ s, Exact.ofFloat x = .finite s := by
      by_contra hnot
      rw [ofReal_of_not_finite (not_exists.mp hnot)] at h
      cases h
    obtain ⟨s, hs⟩ := hfinite
    have hrange : -2 ^ 63 ≤ s.value ∧ s.value ≤ 2 ^ 63 := by
      by_contra hnot
      rw [not_and_or, not_le, not_le] at hnot
      rw [ofReal_of_outside hs hnot] at h
      cases h
    rcases inRange_cases hs hrange.1 hrange.2 with ⟨m, hm⟩ | hlimit | hfractional
    · rw [ofReal_of_integer hs hm] at h
      cases h
      exact .inl ⟨s, hs, hm⟩
    · rw [ofReal_of_isLimit hlimit] at h
      cases h
      exact .inr ⟨hlimit, rfl⟩
    · rw [ofReal_of_fractional hs hrange.1 hrange.2 hfractional] at h
      cases h
  · rintro (⟨s, hs, hn⟩ | ⟨hlimit, rfl⟩)
    · exact ofReal_of_integer hs hn
    · exact ofReal_of_isLimit hlimit

theorem convertsExactly_ofReal (h : ¬ IsLimit x) : ConvertsExactly x (ofReal x) where
  eq_ok_iff n := by rw [ofReal_eq_ok_iff, or_iff_left fun hlimit => h hlimit.1]
  notFinite := ofReal_of_not_finite
  tooLarge hs := by
    rintro (hlow | hhigh)
    · exact ofReal_of_outside hs (.inl hlow)
    · have hne : (2 : ℚ) ^ 63 ≠ _ := fun heq => h ⟨_, hs, heq.symm⟩
      exact ofReal_of_outside hs (.inr ((limit_le_of_lt hs hhigh).lt_of_ne hne))
  fractional hs hlow hhigh := ofReal_of_fractional hs hlow (by linarith)

/-- A double converts exactly, unless it is the limit, which becomes the largest integer. -/
theorem ofReal_exact (x : Float) :
    (¬ IsLimit x → ConvertsExactly x (ofReal x)) ∧
      (IsLimit x → ofReal x = .ok Int64.maxValue) :=
  ⟨convertsExactly_ofReal, ofReal_of_isLimit⟩

/-- The double below the limit keeps its value, and the limit loses one. -/
theorem ofReal_exact_nextBelow :
    ofReal 9223372036854774784.0 = .ok 9223372036854774784 ∧
      ConvertsExactly 9223372036854774784.0 (ofReal 9223372036854774784.0) ∧
      ofReal 9223372036854775808.0 = .ok Int64.maxValue := by
  have hbelow : Exact.ofFloat 9223372036854774784.0 = .finite ⟨2 ^ 53 - 1, 10⟩ := by decide
  have hlimit : Exact.ofFloat 9223372036854775808.0 = .finite ⟨2 ^ 52, 11⟩ := by decide
  have hexact : ConvertsExactly 9223372036854774784.0 (ofReal 9223372036854774784.0) := by
    refine (ofReal_exact _).1 ?_
    rintro ⟨s, hs, hvalue⟩
    rw [hbelow] at hs
    cases hs
    norm_num [Scaled.value] at hvalue
  refine ⟨(hexact.eq_ok_iff _).mpr ⟨_, hbelow, ?_⟩, hexact, ?_⟩
  · rw [show (9223372036854774784 : Int64).toInt = 9223372036854774784 from rfl]
    norm_num [Scaled.value]
  · refine (ofReal_exact _).2 ⟨_, hlimit, ?_⟩
    norm_num [Scaled.value]

/-- The limit is no 64-bit integer, and becomes one. -/
theorem ofReal_limit_inexact :
    ¬ ConvertsExactly 9223372036854775808.0 (ofReal 9223372036854775808.0) := by
  have hlimit : Exact.ofFloat 9223372036854775808.0 = .finite ⟨2 ^ 52, 11⟩ := by decide
  have hvalue : Scaled.value ⟨2 ^ 52, 11⟩ = 2 ^ 63 := by norm_num [Scaled.value]
  intro h
  have hrefused := h.tooLarge hlimit (.inr (by rw [hvalue]; norm_num))
  rw [ofReal_of_isLimit ⟨_, hlimit, hvalue⟩] at hrefused
  cases hrefused

end Integer

end Formula
