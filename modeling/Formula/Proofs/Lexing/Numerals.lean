import Formula.Proofs.Lexing.Characters

/-! # Numerals

The three parts of a scanned numeral, and that they are scanned again from its text. -/

namespace Formula.Token.Numeral

/-- The three parts are what they are scanned as. -/
structure Wellformed (n : Numeral) : Prop where
  whole : ∀ c ∈ n.whole, c.isDigit = true
  fraction : n.fraction = [] ∨
    ∃ digits, n.fraction = '.' :: digits ∧ digits ≠ [] ∧ ∀ c ∈ digits, c.isDigit = true
  exponent : n.exponent = [] ∨
    ∃ letter sign digits, n.exponent = letter :: (sign ++ digits) ∧
      (letter = 'e' ∨ letter = 'E') ∧ (sign = [] ∨ sign = ['+'] ∨ sign = ['-']) ∧
      digits ≠ [] ∧ ∀ c ∈ digits, c.isDigit = true

theorem scanSign_cases (cs : List Char) :
    scanSign cs = [] ∨ scanSign cs = ['+'] ∨ scanSign cs = ['-'] := by
  unfold scanSign
  split
  · exact .inr (.inl rfl)
  · exact .inr (.inr rfl)
  · exact .inl rfl

theorem wellformed_scan (cs : List Char) : (scan cs).Wellformed where
  whole c hc := mem_takeWhile hc
  fraction := by
    change scanFraction _ = [] ∨ ∃ digits, scanFraction _ = _ ∧ _
    unfold scanFraction
    split
    · rename_i rest _
      by_cases hdigits : rest.takeWhile Char.isDigit = []
      · exact .inl (if_pos hdigits)
      · exact .inr ⟨_, if_neg hdigits, hdigits, fun c hc => mem_takeWhile hc⟩
    · exact .inl rfl
  exponent := by
    change scanExponent _ = [] ∨ ∃ letter sign digits, scanExponent _ = _ ∧ _
    unfold scanExponent
    split
    · exact .inl rfl
    · rename_i letter rest _
      by_cases h : (letter = 'e' ∨ letter = 'E') ∧
          (rest.drop (scanSign rest).length).takeWhile Char.isDigit ≠ []
      · exact .inr ⟨_, _, _, if_pos h, h.1, scanSign_cases rest, h.2, fun c hc => mem_takeWhile hc⟩
      · exact .inl (if_neg h)

theorem Wellformed.head_fraction {n : Numeral} (h : n.Wellformed) {rest : List Char}
    (hrest : ∀ c ∈ rest.head?, c.isDigit = false) :
    ∀ c ∈ (n.fraction ++ rest).head?, c.isDigit = false := by
  rcases h.fraction with hnil | ⟨digits, hdigits, -⟩
  · rw [hnil]
    exact hrest
  · rw [hdigits]
    rintro c ⟨⟩
    rfl

theorem Wellformed.head_exponent {n : Numeral} (h : n.Wellformed) {rest : List Char}
    (hrest : Ends rest) :
    ∀ c ∈ (n.exponent ++ rest).head?, c.isDigit = false ∧ c ≠ '.' := by
  rcases h.exponent with hnil | ⟨letter, sign, digits, heq, hletter, -⟩
  · rw [hnil]
    intro c hc
    exact ⟨isDigit_eq_false (hrest c hc).1, (hrest c hc).2⟩
  · rw [heq]
    rintro c ⟨⟩
    rcases hletter with rfl | rfl <;> exact ⟨rfl, fun h => nomatch h⟩

theorem scanFraction_append {n : Numeral} (h : n.Wellformed) {rest : List Char}
    (hrest : ∀ c ∈ rest.head?, c.isDigit = false ∧ c ≠ '.') :
    scanFraction (n.fraction ++ rest) = n.fraction := by
  rcases h.fraction with hnil | ⟨digits, heq, hne, hdigits⟩
  · rw [hnil, List.nil_append]
    unfold scanFraction
    split
    · exact absurd rfl (hrest '.' rfl).2
    · rfl
  · rw [heq, List.cons_append, scanFraction,
      takeWhile_eq_self hdigits (fun c hc => (hrest c hc).1), if_neg hne]

theorem scanSign_append {sign digits rest : List Char}
    (hsign : sign = [] ∨ sign = ['+'] ∨ sign = ['-']) (hne : digits ≠ [])
    (hdigits : ∀ c ∈ digits, c.isDigit = true) : scanSign (sign ++ (digits ++ rest)) = sign := by
  rcases hsign with rfl | rfl | rfl
  · cases digits with
    | nil => exact absurd rfl hne
    | cons d digits =>
        have hd := hdigits d List.mem_cons_self
        rw [List.nil_append, List.cons_append]
        unfold scanSign
        split
        · rename_i heq
          cases heq
          exact absurd hd (by decide)
        · rename_i heq
          cases heq
          exact absurd hd (by decide)
        · rfl
  · rfl
  · rfl

theorem scanExponent_append {n : Numeral} (h : n.Wellformed) {rest : List Char}
    (hrest : Ends rest) : scanExponent (n.exponent ++ rest) = n.exponent := by
  rcases h.exponent with hnil | ⟨letter, sign, digits, heq, hletter, hsign, hne, hdigits⟩
  · rw [hnil, List.nil_append]
    cases rest with
    | nil => rfl
    | cons c rest =>
        have hc := (hrest c rfl).1
        have hletter : ¬ (c = 'e' ∨ c = 'E') := by
          rintro (rfl | rfl) <;> cases hc
        exact if_neg (fun h => hletter h.1)
  · have hend : ∀ c ∈ rest.head?, c.isDigit = false := fun c hc => isDigit_eq_false (hrest c hc).1
    rw [heq, List.cons_append, List.append_assoc, scanExponent]
    simp only [scanSign_append hsign hne hdigits, List.drop_left, takeWhile_eq_self hdigits hend]
    exact if_pos ⟨hletter, hne⟩

/-- A numeral is scanned again from its own text. -/
theorem scan_append {n : Numeral} (h : n.Wellformed) {rest : List Char} (hrest : Ends rest) :
    scan (n.text ++ rest) = n := by
  have hexponent := h.head_exponent hrest
  have hwhole : (n.whole ++ (n.fraction ++ (n.exponent ++ rest))).takeWhile Char.isDigit =
      n.whole :=
    takeWhile_eq_self h.whole (h.head_fraction fun c hc => (hexponent c hc).1)
  have hdrop : (n.whole ++ (n.fraction ++ (n.exponent ++ rest))).drop
      (n.whole.length + n.fraction.length) = n.exponent ++ rest := by
    rw [← List.append_assoc, ← List.length_append, List.drop_left]
  rw [text, List.append_assoc, List.append_assoc, scan]
  simp only [hwhole, List.drop_left, scanFraction_append h hexponent, hdrop,
    scanExponent_append h hrest]

theorem scanFraction_isPrefix (cs : List Char) : scanFraction cs <+: cs := by
  unfold scanFraction
  split
  · rename_i rest
    by_cases h : rest.takeWhile Char.isDigit = []
    · rw [if_pos h]
      exact List.nil_prefix
    · rw [if_neg h]
      exact List.cons_prefix_cons.mpr ⟨rfl, List.takeWhile_prefix _⟩
  · exact List.nil_prefix

theorem scanSign_isPrefix (cs : List Char) : scanSign cs <+: cs := by
  unfold scanSign
  split
  · exact ⟨_, rfl⟩
  · exact ⟨_, rfl⟩
  · exact List.nil_prefix

theorem scanExponent_isPrefix (cs : List Char) : scanExponent cs <+: cs := by
  cases cs with
  | nil => exact List.nil_prefix
  | cons letter rest =>
      simp only [scanExponent]
      split
      · refine List.cons_prefix_cons.mpr ⟨rfl, ?_⟩
        obtain ⟨more, hmore⟩ :=
          List.takeWhile_prefix (l := rest.drop (scanSign rest).length) Char.isDigit
        refine ⟨more, ?_⟩
        rw [List.append_assoc, hmore]
        exact List.prefix_iff_eq_append.mp (scanSign_isPrefix rest)
      · exact List.nil_prefix

/-- The text of a scanned numeral begins what it was scanned from. -/
theorem text_scan_isPrefix (cs : List Char) : (scan cs).text <+: cs := by
  have hwhole : (scan cs).whole ++ cs.drop (scan cs).whole.length = cs :=
    List.prefix_iff_eq_append.mp (List.takeWhile_prefix Char.isDigit)
  have hfraction : (scan cs).fraction ++
      (cs.drop (scan cs).whole.length).drop (scan cs).fraction.length =
      cs.drop (scan cs).whole.length :=
    List.prefix_iff_eq_append.mp (scanFraction_isPrefix _)
  obtain ⟨rest, hrest⟩ := scanExponent_isPrefix
    (cs.drop ((scan cs).whole.length + (scan cs).fraction.length))
  have hexponent : (scan cs).exponent ++ rest =
      cs.drop ((scan cs).whole.length + (scan cs).fraction.length) := hrest
  refine ⟨rest, ?_⟩
  rw [List.drop_drop] at hfraction
  calc
    (scan cs).text ++ rest
      = (scan cs).whole ++ ((scan cs).fraction ++ ((scan cs).exponent ++ rest)) := by
        rw [text, List.append_assoc, List.append_assoc]
    _ = (scan cs).whole ++ cs.drop (scan cs).whole.length := by
        rw [hexponent, hfraction]
    _ = cs := hwhole

/-- A numeral begins with a digit or with its point. -/
theorem Wellformed.head_text {n : Numeral} (h : n.Wellformed) {token : Token}
    (htoken : n.token? = some token) {c : Char} {cs : List Char} (htext : n.text = c :: cs) :
    c.isDigit = true ∨ c = '.' := by
  rw [text, List.append_assoc] at htext
  cases hwhole : n.whole with
  | cons d ds =>
      rw [hwhole] at htext
      cases htext
      exact .inl (h.whole c (by rw [hwhole]; exact List.mem_cons_self))
  | nil =>
      rcases h.fraction with hnil | ⟨digits, hdigits, -⟩
      · rw [token?, hwhole, hnil] at htoken
        simp at htoken
      · rw [hwhole, hdigits] at htext
        cases htext
        exact .inr rfl

theorem text_ne_nil {n : Numeral} {token : Token} (h : n.token? = some token) : n.text ≠ [] := by
  intro htext
  rw [text, List.append_eq_nil_iff, List.append_eq_nil_iff] at htext
  obtain ⟨⟨hwhole, hfraction⟩, -⟩ := htext
  rw [token?, hwhole, hfraction] at h
  simp at h

/-- A numeral without a fraction and an exponent is an integer, which has a sign nowhere. -/
theorem integer_of_token? {n : Numeral} {i : Int64} (h : n.token? = some (integer (some i))) :
    0 ≤ i.toInt := by
  unfold token? at h
  split at h
  · cases h
  · split at h
    · have hdigits : Integer.ofDigits? n.whole = some i := by
        injection h with h
        injection h
      rw [Integer.ofDigits?, Integer.ofInt?] at hdigits
      split at hdigits
      · rename_i hfits
        cases hdigits
        have hlow : -(2 ^ 63 : Int) ≤ Nat.ofDigitChars 10 n.whole 0 := by omega
        have hhigh : (Nat.ofDigitChars 10 n.whole 0 : Int) ≤ 2 ^ 63 - 1 := hfits.2
        rw [Int64.toInt_ofInt_of_le hlow (by omega)]
        exact Int.natCast_nonneg _
      · cases hdigits
    · cases h

theorem token?_cases {n : Numeral} {token : Token} (h : n.token? = some token) :
    (∃ x, token = real x) ∨ ∃ i, token = integer i := by
  unfold token? at h
  split at h
  · cases h
    exact .inl ⟨_, rfl⟩
  · split at h
    · cases h
      exact .inr ⟨_, rfl⟩
    · cases h

end Formula.Token.Numeral
