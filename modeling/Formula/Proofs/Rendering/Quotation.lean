import Formula.Expr
import Formula.Proofs.Lexing.Texts

/-! # Rendered texts are read as texts

A rendered text is one token, whatever its characters. Of the escapes that it has, those of the
quote, the backslash, the line feed and the tab are resolved; every other one is read as the
characters behind its backslash. -/

namespace Formula

/-- What is read of a rendered character: of `'\r'` the letter `r`, of `'\x7f'` the characters
`u{7f}`. -/
def Text.rereadChar (c : Char) : List Char := Token.unescape (escape c)

/-- What is read of a rendered text. -/
def Text.reread (s : String) : String := String.ofList (s.toList.flatMap rereadChar)

namespace Token

open Text (escape isPlain rereadChar)

variable {c d : Char} {cs cs' s s' : List Char} {n : Nat}

/-! ## Hexadecimal digits -/

theorem exists_digitChar (h : d ∈ Nat.toDigits 16 n) : ∃ k < 16, d = Nat.digitChar k := by
  induction n using Nat.strongRecOn with
  | ind n ih =>
      rw [Nat.toDigits_eq_if (by decide)] at h
      split at h
      · exact ⟨n, by assumption, List.mem_singleton.mp h⟩
      · rcases List.mem_append.mp h with h | h
        · exact ih (n / 16) (by omega) h
        · exact ⟨n % 16, Nat.mod_lt n (by decide), List.mem_singleton.mp h⟩

theorem ne_of_mem_toDigits (h : d ∈ Nat.toDigits 16 n) : d ≠ '"' ∧ d ≠ '\\' := by
  have hdigits : ∀ k < 16, Nat.digitChar k ≠ '"' ∧ Nat.digitChar k ≠ '\\' := by decide
  obtain ⟨k, hk, rfl⟩ := exists_digitChar h
  exact hdigits k hk

/-! ## Characters -/

theorem quoted_plain (h : ∀ d ∈ cs, d ≠ '"' ∧ d ≠ '\\') : Quoted '"' cs cs := by
  induction cs with
  | nil => exact .nil
  | cons d cs ih =>
      rw [List.forall_mem_cons] at h
      exact .plain h.1.1 h.1.2 (ih h.2)

theorem Quoted.append (h : Quoted '"' cs s) (h' : Quoted '"' cs' s') :
    Quoted '"' (cs ++ cs') (s ++ s') := by
  induction h with
  | nil => exact h'
  | plain hquote hbackslash _ ih => exact .plain hquote hbackslash ih
  | lineFeed _ ih => exact .lineFeed ih
  | tab _ ih => exact .tab ih
  | escaped hlineFeed hn ht _ ih => exact .escaped hlineFeed hn ht ih

theorem escape_of_not_keeps (h : ¬ Keeps c) :
    (c = '\r' ∧ escape c = ['\\', 'r']) ∨ (c = '\x00' ∧ escape c = ['\\', '0']) ∨
      escape c = '\\' :: 'u' :: '\x7b' :: (Nat.toDigits 16 c.toNat ++ ['\x7d']) := by
  simp only [Keeps, not_or] at h
  obtain ⟨hplain, hquote, hbackslash, hlineFeed, htab⟩ := h
  by_cases hreturn : c = '\r'
  · exact .inl ⟨hreturn, by simp [escape, hreturn]⟩
  by_cases hzero : c = '\x00'
  · exact .inr (.inl ⟨hzero, by simp [escape, hzero]⟩)
  · have hc : isPlain c ≠ true := fun hc => hplain (by
      simp [escape, hquote, hbackslash, hlineFeed, htab, hreturn, hzero, hc])
    simp [escape, hquote, hbackslash, hlineFeed, htab, hreturn, hzero, hc]

/-- An escape that is not resolved is read as something else. -/
theorem quoted_of_not_keeps (h : ¬ Keeps c) : ∃ s, Quoted '"' (escape c) s ∧ s ≠ [] ∧ s ≠ [c] := by
  rcases escape_of_not_keeps h with ⟨rfl, hescape⟩ | ⟨rfl, hescape⟩ | hescape
  · refine ⟨['r'], ?_, by decide, by decide⟩
    rw [hescape]
    exact .escaped (by decide) (by decide) (by decide) .nil
  · refine ⟨['0'], ?_, by decide, by decide⟩
    rw [hescape]
    exact .escaped (by decide) (by decide) (by decide) .nil
  · refine ⟨'u' :: '\x7b' :: (Nat.toDigits 16 c.toNat ++ ['\x7d']), ?_, by simp, by simp⟩
    have hrest : Quoted '"' ('\x7b' :: (Nat.toDigits 16 c.toNat ++ ['\x7d']))
        ('\x7b' :: (Nat.toDigits 16 c.toNat ++ ['\x7d'])) := by
      apply quoted_plain
      simp only [List.forall_mem_cons, List.forall_mem_append]
      exact ⟨by decide, fun d hd => ne_of_mem_toDigits hd, by decide, List.forall_mem_nil _⟩
    rw [hescape]
    exact .escaped (by decide) (by decide) (by decide) hrest

theorem rereadChar_eq (h : Quoted '"' (escape c) s) : rereadChar c = s :=
  (h.scan (by decide) []).2

theorem quoted_rereadChar (c : Char) :
    Quoted '"' (escape c) (rereadChar c) ∧ rereadChar c ≠ [] ∧ (rereadChar c = [c] ↔ Keeps c) := by
  by_cases hc : Keeps c
  · have hquoted := Quoted.escape hc .nil
    rw [List.append_nil] at hquoted
    rw [rereadChar_eq hquoted]
    simp [hquoted, hc]
  · obtain ⟨s, hquoted, hnil, hne⟩ := quoted_of_not_keeps hc
    rw [rereadChar_eq hquoted]
    simp [hquoted, hnil, hne, hc]

/-! ## Texts -/

theorem quoted_reread (cs : List Char) :
    Quoted '"' (cs.flatMap escape) (cs.flatMap rereadChar) := by
  induction cs with
  | nil => exact .nil
  | cons c cs ih =>
      rw [List.flatMap_cons, List.flatMap_cons]
      exact (quoted_rereadChar c).1.append ih

/-- Nothing is lost of a text, for at least one character is read of every one. -/
theorem length_le_flatMap (cs : List Char) : cs.length ≤ (cs.flatMap rereadChar).length := by
  induction cs with
  | nil => simp
  | cons c cs ih =>
      have hc := List.length_pos_iff.mpr (quoted_rereadChar c).2.1
      simp only [List.length_cons, List.flatMap_cons, List.length_append]
      omega

theorem flatMap_eq_self_iff (cs : List Char) :
    cs.flatMap rereadChar = cs ↔ ∀ c ∈ cs, Keeps c := by
  induction cs with
  | nil => simp
  | cons c cs ih =>
      obtain ⟨-, hnil, hkeeps⟩ := quoted_rereadChar c
      rw [List.flatMap_cons, List.forall_mem_cons, ← ih, ← hkeeps]
      constructor
      · intro h
        obtain ⟨d, ds, hds⟩ := List.exists_cons_of_ne_nil hnil
        rw [hds, List.cons_append] at h
        obtain ⟨rfl, htail⟩ := List.cons.inj h
        -- More than one character read of `c` would make the whole text longer.
        have hlength := length_le_flatMap cs
        have htails := congrArg List.length htail
        rw [List.length_append] at htails
        have hempty : ds = [] := List.length_eq_zero_iff.mp (by omega)
        rw [hempty, List.nil_append] at htail
        exact ⟨by rw [hds, hempty], htail⟩
      · rintro ⟨hc, hcs⟩
        rw [hc, hcs, List.singleton_append]

end Token

/-- A rendered text is read as exactly one token, a text at the start. It is the text itself exactly
when all its characters stand for themselves between quotes or have one of the escapes that are
resolved. -/
theorem Lexeme.ofText_quote (s : String) :
    ofText (Literal.text s).render = .ok [⟨.text (Text.reread s), 0⟩] ∧
      (Text.reread s = s ↔ ∀ c ∈ s.toList, Token.Keeps c) := by
  constructor
  · have hscan := Token.scan?_quote (.inl rfl) (Token.quoted_reread s.toList) []
    have htext : (Literal.text s).render.toList =
        '"' :: (s.toList.flatMap Text.escape ++ ['"']) := by
      rw [Literal.render, Text.quote, String.toList_ofList, List.cons_append]
    rw [ofText, htext, ofChars_token hscan, List.drop_length, ofChars]
    rfl
  · rw [← Token.flatMap_eq_self_iff, Text.reread, ← String.toList_inj, String.toList_ofList]

/-- The escape of a carriage return is read as the letter in it. -/
theorem Lexeme.ofText_quote_carriageReturn :
    ofText (Literal.text "\r").render = .ok [⟨.text "r", 0⟩] ∧
      ofText (Literal.text "\r").render ≠ .ok [⟨.text "\r", 0⟩] := by
  have h : ofText (Literal.text "\r").render = .ok [⟨.text "r", 0⟩] := by
    rw [ofText_eq_readWithin]
    rfl
  refine ⟨h, ?_⟩
  rw [h]
  simp

end Formula
