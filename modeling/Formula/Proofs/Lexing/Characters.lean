import Formula.Token.Scan

/-! # Classes of characters

What the scanner asks of single characters, and where words and numerals end. -/

namespace Formula.Token

/-- No word and no numeral goes on with the text. -/
def Ends (rest : List Char) : Prop := ∀ c ∈ rest.head?, isWordPart c = false ∧ c ≠ '.'

theorem isDigit_eq_false {c : Char} (h : isWordPart c = false) : c.isDigit = false := by
  rw [isWordPart, Bool.or_eq_false_iff] at h
  exact h.2

theorem toNat_of_isWordStart {c : Char} (h : isWordStart c = true) :
    65 ≤ c.toNat ∧ c.toNat ≤ 122 := by
  have hvalue : c.toNat = c.val.toNat := rfl
  change (decide (65 ≤ c.val ∧ c.val ≤ 90) || (decide (97 ≤ c.val) && decide (c.val ≤ 122)) ||
    decide (c = '_')) = true at h
  simp only [Bool.or_eq_true, Bool.and_eq_true, decide_eq_true_eq, UInt32.le_iff_toNat_le] at h
  rcases h with (⟨hlow, hhigh⟩ | ⟨hlow, hhigh⟩) | rfl
  · change 65 ≤ c.toNat at hlow
    change c.toNat ≤ 90 at hhigh
    omega
  · change 97 ≤ c.toNat at hlow
    change c.toNat ≤ 122 at hhigh
    omega
  · decide

theorem toNat_of_isDigit {c : Char} (h : c.isDigit = true) : 48 ≤ c.toNat ∧ c.toNat ≤ 57 :=
  Char.isDigit_iff_toNat.mp h

theorem isBlank_eq_false {c : Char} (hlow : 32 < c.toNat) (hhigh : c.toNat < 127) :
    Text.isBlank c = false := by
  have hvalue : c.toNat = c.val.toNat := rfl
  simp only [Text.isBlank, Text.isSeparator, ← Char.toNat_inj, Char.le_def, UInt32.le_iff_toNat_le,
    ← hvalue, Bool.or_eq_false_iff, Bool.and_eq_false_iff, decide_eq_false_iff_not,
    Char.reduceToNat, Char.reduceVal, UInt32.reduceToNat]
  omega

theorem isWordStart_of_isDigit {c : Char} (h : c.isDigit = true) : isWordStart c = false := by
  have hdigit := toNat_of_isDigit h
  by_cases hstart : isWordStart c = true
  · have hword := toNat_of_isWordStart hstart
    omega
  · exact Bool.eq_false_iff.mpr hstart

theorem takeWhile_eq_self {p : Char → Bool} {cs rest : List Char} (hcs : ∀ c ∈ cs, p c = true)
    (hrest : ∀ c ∈ rest.head?, p c = false) : (cs ++ rest).takeWhile p = cs := by
  rw [List.takeWhile_append_of_pos hcs]
  cases rest with
  | nil => exact List.append_nil cs
  | cons c rest =>
      have hc : ¬ p c = true := Bool.eq_false_iff.mp (hrest c rfl)
      rw [List.takeWhile_cons_of_neg hc, List.append_nil]

theorem mem_takeWhile {p : Char → Bool} {cs : List Char} {c : Char}
    (h : c ∈ cs.takeWhile p) : p c = true :=
  List.all_eq_true.mp List.all_takeWhile c h

theorem Ends.isWordPart {rest : List Char} (h : Ends rest) :
    ∀ c ∈ rest.head?, Token.isWordPart c = false :=
  fun c hc => (h c hc).1

end Formula.Token
