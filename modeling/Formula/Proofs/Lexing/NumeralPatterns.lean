import Formula.Proofs.Arithmetic.Checked
import Formula.Proofs.Lexing.Scanning

/-! # Numerals and their patterns

The patterns of numbers match exactly the texts of numerals, and the scanned numeral is the longest
that a text begins with. -/

namespace Formula

namespace Integer

theorem ofDigits?_eq_some_iff {digits : List Char} {n : Int64} :
    ofDigits? digits = some n ↔ n.toInt = Nat.ofDigitChars 10 digits 0 :=
  ofInt?_eq_some_iff

theorem ofDigits?_eq_none_iff {digits : List Char} :
    ofDigits? digits = none ↔ Int64.maxValue.toInt < Nat.ofDigitChars 10 digits 0 := by
  have hlow : Int64.minValue.toInt ≤ (Nat.ofDigitChars 10 digits 0 : Int) :=
    Int.le_trans (by decide) (Int.natCast_nonneg _)
  rw [ofDigits?, ofInt?_eq_none_iff, Fits, not_and, Int.not_le]
  exact imp_iff_right hlow

end Integer

namespace Token

open Numeral

/-- An exponent part has a letter, perhaps a sign, and digits. -/
theorem Exponent.parts {exponent : List Char} {power : Int} (h : Exponent exponent power) :
    ∃ letter sign digits, exponent = letter :: (sign ++ digits) ∧ (letter = 'e' ∨ letter = 'E') ∧
      (sign = [] ∨ sign = ['+'] ∨ sign = ['-']) ∧ IsDigits digits ∧
      power = if sign = ['-'] then -(Nat.ofDigitChars 10 digits 0 : Int)
        else Nat.ofDigitChars 10 digits 0 := by
  cases h with
  | unsigned hletter h => exact ⟨_, [], _, rfl, hletter, .inl rfl, h, rfl⟩
  | plus hletter h => exact ⟨_, ['+'], _, rfl, hletter, .inr (.inl rfl), h, rfl⟩
  | minus hletter h => exact ⟨_, ['-'], _, rfl, hletter, .inr (.inr rfl), h, rfl⟩

theorem exponent_of_parts {letter : Char} {sign digits : List Char}
    (hletter : letter = 'e' ∨ letter = 'E') (hsign : sign = [] ∨ sign = ['+'] ∨ sign = ['-'])
    (hdigits : IsDigits digits) :
    Exponent (letter :: (sign ++ digits))
      (if sign = ['-'] then -(Nat.ofDigitChars 10 digits 0 : Int)
        else Nat.ofDigitChars 10 digits 0) := by
  rcases hsign with rfl | rfl | rfl
  · exact .unsigned hletter hdigits
  · exact .plus hletter hdigits
  · exact .minus hletter hdigits

namespace Numeral

/-- The exponent part of a numeral writes the power of the numeral. -/
theorem power_eq_of_parts {n : Numeral} {letter : Char} {sign digits : List Char}
    (h : n.exponent = letter :: (sign ++ digits))
    (hsign : sign = [] ∨ sign = ['+'] ∨ sign = ['-']) (hdigits : IsDigits digits) :
    n.power = if sign = ['-'] then -(Nat.ofDigitChars 10 digits 0 : Int)
      else Nat.ofDigitChars 10 digits 0 := by
  have hscan : scanSign (sign ++ digits) = sign := by
    have happend : scanSign (sign ++ (digits ++ [])) = sign :=
      scanSign_append hsign hdigits.1 hdigits.2
    rwa [List.append_nil] at happend
  rw [power, h]
  simp only [List.drop_succ_cons, List.drop_zero, hscan, List.drop_left]

theorem power_eq_zero {n : Numeral} (h : n.exponent = []) : n.power = 0 := by
  rw [power, h]
  rfl

theorem Wellformed.exponent_power {n : Numeral} (h : n.Wellformed) (hne : n.exponent ≠ []) :
    Exponent n.exponent n.power := by
  rcases h.exponent with hnil | ⟨letter, sign, digits, heq, hletter, hsign, hdigits⟩
  · exact absurd hnil hne
  · rw [power_eq_of_parts heq hsign hdigits, heq]
    exact exponent_of_parts hletter hsign hdigits

/-- The text of a numeral is matched as its token. -/
theorem Wellformed.matches_text {n : Numeral} (h : n.Wellformed) {token : Token}
    (htoken : n.token? = some token) : Matches n.text token := by
  obtain ⟨whole, fraction, exponent⟩ := n
  have hwhole : ∀ c ∈ whole, c.isDigit = true := h.whole
  have hexponent := h.exponent_power
  rw [token?] at htoken
  split at htoken
  · rename_i hreal
    cases htoken
    rcases h.fraction with hnil | ⟨decimals, heq, hdecimals⟩
    · obtain rfl : fraction = [] := hnil
      obtain ⟨hne, hpower⟩ := hreal.resolve_left fun h => h rfl
      have hmatch := Matches.wholePower ⟨hne, hwhole⟩ (hexponent hpower)
      simpa [text, decimal] using hmatch
    · obtain rfl : fraction = '.' :: decimals := heq
      by_cases hnil : exponent = []
      · subst hnil
        have hmatch := Matches.fraction hwhole hdecimals
        simpa [text, decimal, power_eq_zero] using hmatch
      · have hmatch := Matches.fractionPower hwhole hdecimals (hexponent hnil)
        simpa [text, decimal] using hmatch
  · rename_i hreal
    rw [not_or, Classical.not_not, not_and, Classical.not_not] at hreal
    obtain ⟨hfraction, hpower⟩ := hreal
    split at htoken
    · rename_i hne
      obtain rfl : fraction = [] := hfraction
      obtain rfl : exponent = [] := hpower hne
      cases htoken
      rw [text, List.append_nil, List.append_nil]
      cases hvalue : Integer.ofDigits? whole with
      | some n => exact .integer ⟨hne, hwhole⟩ (Integer.ofDigits?_eq_some_iff.mp hvalue)
      | none => exact .largeInteger ⟨hne, hwhole⟩ (Integer.ofDigits?_eq_none_iff.mp hvalue)
    · cases htoken

end Numeral

theorem Exponent.wellformed {exponent : List Char} {power : Int} (h : Exponent exponent power)
    (n : Numeral) (heq : n.exponent = exponent) (hwhole : ∀ c ∈ n.whole, c.isDigit = true)
    (hfraction : n.fraction = [] ∨ ∃ digits, n.fraction = '.' :: digits ∧ IsDigits digits) :
    n.Wellformed ∧ n.power = power ∧ n.exponent ≠ [] := by
  obtain ⟨letter, sign, digits, hparts, hletter, hsign, hdigits, hpower⟩ := h.parts
  rw [hparts] at heq
  refine ⟨⟨hwhole, hfraction, .inr ⟨letter, sign, digits, heq, hletter, hsign, hdigits⟩⟩, ?_, ?_⟩
  · rw [Numeral.power_eq_of_parts heq hsign hdigits, hpower]
  · rw [heq]
    exact List.cons_ne_nil _ _

/-- What is matched as a number is the text of a numeral. -/
theorem Matches.exists_numeral {cs : List Char} {token : Token} (h : Matches cs token)
    (hnumber : token.isNumber = true) :
    ∃ n : Numeral, n.Wellformed ∧ n.text = cs ∧ n.token? = some token := by
  cases h with
  | @fraction whole decimals hwhole hdecimals =>
      let n : Numeral := ⟨whole, '.' :: decimals, []⟩
      refine ⟨n, ⟨hwhole, .inr ⟨decimals, rfl, hdecimals⟩, .inl rfl⟩, ?_, ?_⟩
      · simp [n, Numeral.text]
      · simp [n, Numeral.token?, Numeral.decimal, Numeral.power_eq_zero]
  | @fractionPower whole decimals exponent power hwhole hdecimals hexponent =>
      let n : Numeral := ⟨whole, '.' :: decimals, exponent⟩
      obtain ⟨hn, hpower, -⟩ :=
        hexponent.wellformed n rfl hwhole (.inr ⟨decimals, rfl, hdecimals⟩)
      refine ⟨n, hn, rfl, ?_⟩
      rw [Numeral.token?, if_pos (.inl (List.cons_ne_nil _ _)), Numeral.decimal, hpower]
      rfl
  | @wholePower whole exponent power hwhole hexponent =>
      let n : Numeral := ⟨whole, [], exponent⟩
      obtain ⟨hn, hpower, hne⟩ := hexponent.wellformed n rfl hwhole.2 (.inl rfl)
      refine ⟨n, hn, ?_, ?_⟩
      · simp [n, Numeral.text]
      · rw [Numeral.token?, if_pos (.inr ⟨hwhole.1, hne⟩), Numeral.decimal, hpower]
        simp [n]
  | integer hdigits hn =>
      refine ⟨⟨cs, [], []⟩, ⟨hdigits.2, .inl rfl, .inl rfl⟩, ?_, ?_⟩
      · simp [Numeral.text]
      · simp [Numeral.token?, hdigits.1, Integer.ofDigits?_eq_some_iff.mpr hn]
  | largeInteger hdigits hlarge =>
      refine ⟨⟨cs, [], []⟩, ⟨hdigits.2, .inl rfl, .inl rfl⟩, ?_, ?_⟩
      · simp [Numeral.text]
      · simp [Numeral.token?, hdigits.1, Integer.ofDigits?_eq_none_iff.mpr hlarge]
  | _ => cases hnumber

namespace Numeral

/-! ## The longest numeral -/

theorem takeWhile_isPrefix {digits rest : List Char} (h : ∀ c ∈ digits, c.isDigit = true) :
    digits <+: (digits ++ rest).takeWhile Char.isDigit := by
  rw [List.takeWhile_append_of_pos h]
  exact List.prefix_append _ _

theorem isPrefix_scanFraction {n : Numeral} (h : n.Wellformed) (rest : List Char) :
    n.fraction <+: scanFraction (n.fraction ++ rest) := by
  rcases h.fraction with hnil | ⟨digits, heq, hne, hdigits⟩
  · rw [hnil]
    exact List.nil_prefix
  · rw [heq, List.cons_append, scanFraction, List.takeWhile_append_of_pos hdigits]
    rw [if_neg fun hnil => hne (List.append_eq_nil_iff.mp hnil).1]
    exact List.cons_prefix_cons.mpr ⟨rfl, List.prefix_append _ _⟩

theorem isPrefix_scanExponent {n : Numeral} (h : n.Wellformed) (rest : List Char) :
    n.exponent <+: scanExponent (n.exponent ++ rest) := by
  rcases h.exponent with hnil | ⟨letter, sign, digits, heq, hletter, hsign, hne, hdigits⟩
  · rw [hnil]
    exact List.nil_prefix
  · rw [heq, List.cons_append, List.append_assoc, scanExponent]
    simp only [scanSign_append hsign hne hdigits, List.drop_left,
      List.takeWhile_append_of_pos hdigits]
    rw [if_pos ⟨hletter, fun hnil => hne (List.append_eq_nil_iff.mp hnil).1⟩, ← List.append_assoc]
    exact List.cons_prefix_cons.mpr ⟨rfl, List.prefix_append _ _⟩

theorem Wellformed.head_letter {n : Numeral} (h : n.Wellformed) (hne : n.exponent ≠ [])
    (rest : List Char) : ∀ c ∈ (n.exponent ++ rest).head?, c.isDigit = false ∧ c ≠ '.' := by
  rcases h.exponent with hnil | ⟨letter, sign, digits, heq, hletter, -⟩
  · exact absurd hnil hne
  · rw [heq]
    rintro c ⟨⟩
    rcases hletter with rfl | rfl <;> exact ⟨rfl, fun h => nomatch h⟩

/-- A fraction or an exponent begins with no digit. -/
theorem Wellformed.head_rest {n : Numeral} (h : n.Wellformed)
    (hne : n.fraction ≠ [] ∨ n.exponent ≠ []) (rest : List Char) :
    ∀ c ∈ (n.fraction ++ (n.exponent ++ rest)).head?, c.isDigit = false := by
  rcases h.fraction with hnil | ⟨digits, heq, -⟩
  · rw [hnil]
    exact fun c hc => (h.head_letter (hne.resolve_left fun h => h hnil) rest c hc).1
  · rw [heq]
    rintro c ⟨⟩
    rfl

/-- The scanned parts go on at least as far as those of any numeral that the text begins with. -/
theorem Wellformed.isPrefix_scan {n : Numeral} (h : n.Wellformed) {cs rest : List Char}
    (hcs : cs = n.whole ++ (n.fraction ++ (n.exponent ++ rest))) :
    n.whole <+: (scan cs).whole ∧ n.fraction <+: (scan cs).fraction ∧
      n.text <+: (scan cs).text := by
  have hwhole : n.whole <+: (scan cs).whole := by
    rw [hcs]
    exact takeWhile_isPrefix h.whole
  by_cases hne : n.fraction ≠ [] ∨ n.exponent ≠ []
  · -- What follows the whole part bounds it, so that the fraction is scanned where it stands.
    have hwholeEq : (scan cs).whole = n.whole := by
      rw [hcs]
      exact takeWhile_eq_self h.whole (h.head_rest hne rest)
    have hfractionEq : (scan cs).fraction =
        scanFraction (n.fraction ++ (n.exponent ++ rest)) := by
      change scanFraction (cs.drop (scan cs).whole.length) = _
      rw [hwholeEq, hcs, List.drop_left]
    have hfraction : n.fraction <+: (scan cs).fraction := by
      rw [hfractionEq]
      exact isPrefix_scanFraction h _
    refine ⟨hwhole, hfraction, ?_⟩
    rw [text, text, hwholeEq, List.append_assoc, List.append_assoc, List.prefix_append_right_inj]
    by_cases hexponent : n.exponent = []
    · rw [hexponent, List.append_nil]
      exact hfraction.trans (List.prefix_append _ _)
    · have hexact : (scan cs).fraction = n.fraction := by
        rw [hfractionEq]
        exact scanFraction_append h (h.head_letter hexponent rest)
      have hexponentEq : (scan cs).exponent = scanExponent (n.exponent ++ rest) := by
        change scanExponent (cs.drop ((scan cs).whole.length + (scan cs).fraction.length)) = _
        rw [hwholeEq, hexact, hcs, ← List.append_assoc, ← List.length_append, List.drop_left]
      rw [hexact, hexponentEq, List.prefix_append_right_inj]
      exact isPrefix_scanExponent h rest
  · rw [not_or, Classical.not_not, Classical.not_not] at hne
    obtain ⟨hfraction, hexponent⟩ := hne
    refine ⟨hwhole, hfraction ▸ List.nil_prefix, ?_⟩
    rw [text, text, hfraction, hexponent, List.append_nil, List.append_nil, List.append_assoc]
    exact hwhole.trans (List.prefix_append _ _)

theorem token?_eq_none_iff {n : Numeral} :
    n.token? = none ↔ n.whole = [] ∧ n.fraction = [] := by
  rw [token?]
  constructor
  · intro h
    split at h
    · cases h
    · rename_i hreal
      split at h
      · cases h
      · rename_i hwhole
        exact ⟨Classical.not_not.mp hwhole, Classical.not_not.mp fun hne => hreal (.inl hne)⟩
  · rintro ⟨hwhole, hfraction⟩
    simp [hwhole, hfraction]

/-- A text that begins with a numeral is scanned as one. -/
theorem Wellformed.token?_scan {n : Numeral} (h : n.Wellformed) {token : Token}
    (htoken : n.token? = some token) {cs rest : List Char}
    (hcs : cs = n.whole ++ (n.fraction ++ (n.exponent ++ rest))) :
    ∃ scanned, (scan cs).token? = some scanned := by
  obtain ⟨hwhole, hfraction, -⟩ := h.isPrefix_scan hcs
  cases hscan : (scan cs).token? with
  | some scanned => exact ⟨scanned, rfl⟩
  | none =>
      obtain ⟨hwholeNil, hfractionNil⟩ := token?_eq_none_iff.mp hscan
      rw [hwholeNil, List.prefix_nil] at hwhole
      rw [hfractionNil, List.prefix_nil] at hfraction
      rw [token?_eq_none_iff.mpr ⟨hwhole, hfraction⟩] at htoken
      cases htoken

end Numeral

end Token

end Formula
