import Formula.Proofs.Outcome
import Formula.Proofs.Real.Conversion

/-! # Indexing stays in bounds

An index reads the element that it counts to, from the front or from the end, and an index that
counts to none is an error. The double that is rounded when it becomes an integer is beyond every
array. -/

namespace Formula

/-! ## What an index should read -/

namespace Value

/-- The integer that a value is equal to as an index. -/
def IsIndex : Value → ℤ → Prop
  | integer n, i => n.toInt = i
  | real x, i => ∃ s, Exact.ofFloat x = .finite s ∧ s.value = i
  | _, _ => False

/-- The element of the array that the index counts to, a negative one from the end. -/
def Selects (array wanted x : Value) : Prop :=
  ∃ items i, array = .array items ∧ wanted.IsIndex i ∧ -items.length ≤ i ∧ i < items.length ∧
    items[(if 0 ≤ i then i else items.length + i).toNat]? = some x

/-- An array has at most as many elements as there are positive 64-bit integers; its elements would
not fit into memory otherwise. -/
def Addressable : Value → Prop
  | array items => (items.length : ℤ) ≤ Int64.maxValue.toInt
  | _ => True

end Value

/-! ## The place of an index -/

namespace Integer

variable {i : Int64} {length place : ℕ}

theorem resolveIndex_eq_ok_iff (hlength : (length : ℤ) ≤ Int64.maxValue.toInt) :
    resolveIndex i length = .ok place ↔ -length ≤ i.toInt ∧ i.toInt < length ∧
      place = (if 0 ≤ i.toInt then i.toInt else length + i.toInt).toNat := by
  rw [resolveIndex, if_neg (not_lt.mpr hlength)]
  by_cases hi : i.toInt < 0
  · simp only [if_pos hi, if_neg (not_le.mpr hi)]
    split
    · rw [Except.ok.injEq]
      omega
    · simp only [reduceCtorEq, false_iff]
      omega
  · simp only [if_neg hi, if_pos (not_lt.mp hi)]
    split
    · rw [Except.ok.injEq]
      omega
    · simp only [reduceCtorEq, false_iff]
      omega

theorem resolveIndex_lt (h : resolveIndex i length = .ok place) : place < length := by
  by_cases hlength : (length : ℤ) ≤ Int64.maxValue.toInt
  · obtain ⟨hlow, hhigh, rfl⟩ := (resolveIndex_eq_ok_iff hlength).mp h
    split <;> omega
  · rw [resolveIndex, if_pos (not_le.mp hlength)] at h
    cases h

theorem fits_of_lt_length {i : ℤ} (hlow : -length ≤ i) (hhigh : i < length)
    (hlength : (length : ℤ) ≤ Int64.maxValue.toInt) : Fits i := by
  have hlength : (length : ℤ) ≤ 2 ^ 63 - 1 := hlength
  have hfits : -2 ^ 63 ≤ i ∧ i ≤ 2 ^ 63 - 1 := by omega
  exact hfits

/-- The sum of a negative index and the length of an array is the one over the unbounded
integers. -/
theorem toInt_add_length (hi : i.toInt < 0) (hlength : (length : ℤ) ≤ Int64.maxValue.toInt) :
    (i + Int64.ofNat length).toInt = i.toInt + length := by
  have hlow : -2 ^ 63 ≤ i.toInt := Int64.minValue_le_toInt i
  have hhigh : (length : ℤ) ≤ 2 ^ 63 - 1 := hlength
  rw [Int64.toInt_add, Int64.toInt_ofNat_of_lt (by omega)]
  exact Int.bmod_eq_of_le (by omega) (by omega)

end Integer

/-! ## Reading an element -/

namespace Value

open Integer

variable {array wanted x : Value} {i : Int64}

/-- An index becomes the integer that it is equal to, or the largest one in place of the limit. -/
theorem toIndex_eq_ok_iff :
    wanted.toIndex = .ok i ↔
      wanted.IsIndex i.toInt ∨ ∃ x, wanted = .real x ∧ IsLimit x ∧ i = Int64.maxValue := by
  cases wanted with
  | integer n => simp [toIndex, IsIndex, Int64.toInt_inj]
  | real x => simp [toIndex, IsIndex, ofReal_eq_ok_iff]
  | bool b => simp [toIndex, IsIndex]
  | text s => simp [toIndex, IsIndex]
  | array items => simp [toIndex, IsIndex]

theorem index_array_eq_ok_iff {items : List Value} :
    (Value.array items).index wanted = .ok x ↔ ∃ i place, wanted.toIndex = .ok i ∧
      resolveIndex i items.length = .ok place ∧ items[place]? = some x := by
  simp only [index, items?, bind_eq_ok, exists_and_left]
  refine exists_congr fun i => and_congr_right fun hi => exists_congr fun place =>
    and_congr_right fun hplace => ?_
  cases items[place]? <;> simp [Fault.orElse]

theorem index_eq_ok_iff (h : array.Addressable) :
    array.index wanted = .ok x ↔ array.Selects wanted x := by
  constructor
  · intro hx
    cases array with
    | array items =>
        obtain ⟨i, place, hi, hplace, helement⟩ := index_array_eq_ok_iff.mp hx
        obtain ⟨hlow, hhigh, rfl⟩ := (resolveIndex_eq_ok_iff h).mp hplace
        rcases toIndex_eq_ok_iff.mp hi with hwanted | ⟨y, -, -, rfl⟩
        · exact ⟨items, i.toInt, rfl, hwanted, hlow, hhigh, helement⟩
        · exact absurd hhigh (not_lt.mpr h)
    | integer n => cases hx
    | real y => cases hx
    | bool b => cases hx
    | text s => cases hx
  · rintro ⟨items, i, rfl, hwanted, hlow, hhigh, helement⟩
    obtain ⟨i, rfl⟩ := fits_iff.mp (fits_of_lt_length hlow hhigh h)
    refine index_array_eq_ok_iff.mpr ⟨i, _, toIndex_eq_ok_iff.mpr (.inl hwanted), ?_, helement⟩
    exact (resolveIndex_eq_ok_iff h).mpr ⟨hlow, hhigh, rfl⟩

/-- Indexing gives the element that the index counts to and fails without one. The place that it
reads is within the array, and its sum does not overflow. -/
theorem index_in_bounds (array wanted : Value) (h : array.Addressable) :
    (∀ x, array.index wanted = .ok x ↔ array.Selects wanted x) ∧
      ((∀ x, ¬ array.Selects wanted x) → ∃ fault, array.index wanted = .error fault) ∧
      ∀ items i, array = .array items → wanted.toIndex = .ok i →
        (i.toInt < 0 → (i + Int64.ofNat items.length).toInt = i.toInt + items.length) ∧
          ∀ place, resolveIndex i items.length = .ok place → place < items.length := by
  refine ⟨fun x => index_eq_ok_iff h, fun hnone => ?_, ?_⟩
  · rw [exists_eq_error_iff]
    intro x hx
    exact hnone x ((index_eq_ok_iff h).mp hx)
  · rintro items i rfl -
    exact ⟨fun hi => toInt_add_length hi h, fun place => resolveIndex_lt⟩

/-- A real counts from the end as an integer does. The limit, which becomes the largest integer,
counts to no element. -/
theorem index_in_bounds_fromEnd :
    (Value.array [.integer 1, .text "last"]).Addressable ∧
      (Value.array [.integer 1, .text "last"]).index (.real (-1.0)) = .ok (.text "last") ∧
      ∃ fault, (Value.array [.integer 1, .text "last"]).index (.real 9223372036854775808.0) =
        .error fault := by
  have haddressable : (Value.array [.integer 1, .text "last"]).Addressable := by
    rw [Addressable]
    decide
  have hlast : Exact.ofFloat (-1.0) = .finite ⟨-2 ^ 52, -52⟩ := by decide
  have hlimit : Exact.ofFloat 9223372036854775808.0 = .finite ⟨2 ^ 52, 11⟩ := by decide
  refine ⟨haddressable, ?_, ?_⟩
  · refine ((index_in_bounds _ _ haddressable).1 _).mpr
      ⟨_, -1, rfl, ⟨_, hlast, ?_⟩, by decide, by decide, rfl⟩
    norm_num [Scaled.value]
  · refine (index_in_bounds _ _ haddressable).2.1 ?_
    rintro x ⟨items, i, harray, ⟨s, hs, hvalue⟩, -, hhigh, -⟩
    cases harray
    rw [hlimit] at hs
    cases hs
    have hi : i = 2 ^ 63 := by
      have hcast : (i : ℚ) = 2 ^ 63 := by
        rw [← hvalue]
        norm_num [Scaled.value]
      exact_mod_cast hcast
    rw [hi] at hhigh
    exact absurd hhigh (by decide)

end Value

end Formula
