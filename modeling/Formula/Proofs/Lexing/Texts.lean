import Formula.Proofs.Lexing.Scanning
import Formula.Proofs.Outcome
import Formula.Token.Lexemes

/-! # Lexemes of texts that are put together

A text that is read as certain tokens whatever acceptable text follows can be put before any such
text, so that the tokens of a whole text are those of its pieces. -/

namespace Formula.Lexeme

theorem ofChars_separator {c : Char} (h : Text.isSeparator c = true) (pos : Nat)
    (rest : List Char) : ofChars pos (c :: rest) = ofChars (pos + c.utf8Size) rest := by
  rw [ofChars, if_pos h]

theorem ofChars_token {c : Char} {rest tail : List Char} {token : Token}
    (h : Token.scan? c rest = some (token, tail)) (pos : Nat) :
    ofChars pos (c :: rest) = (do
      let lexemes ← ofChars (pos + Text.byteLength (c :: tail)) (rest.drop tail.length)
      return ⟨token, pos⟩ :: lexemes) := by
  have hseparator : ¬ Text.isSeparator c = true := by
    intro hseparator
    rw [Token.scan?_of_isSeparator hseparator] at h
    cases h
  rw [ofChars, if_neg hseparator]
  simp only [h]

/-- Every token of a text was scanned somewhere. -/
theorem scan?_of_mem {pos : Nat} {cs : List Char} {ls : List Lexeme} {l : Lexeme}
    (h : ofChars pos cs = .ok ls) (hl : l ∈ ls) :
    ∃ c rest tail, Token.scan? c rest = some (l.token, tail) := by
  induction pos, cs using ofChars.induct generalizing ls with
  | case1 pos =>
      rw [ofChars] at h
      cases h
      cases hl
  | case2 pos c rest hseparator ih =>
      rw [ofChars_separator hseparator] at h
      exact ih h hl
  | case3 pos c rest hseparator hscan =>
      rw [ofChars, if_neg hseparator] at h
      simp only [hscan] at h
      cases h
  | case4 pos c rest hseparator token tail hscan ih =>
      rw [ofChars_token hscan] at h
      obtain ⟨more, hmore, heq⟩ := bind_eq_ok.mp h
      cases heq
      rcases List.mem_cons.mp hl with rfl | hl
      · exact ⟨c, rest, tail, hscan⟩
      · exact ih hmore hl

/-! ## Pieces -/

/-- Before any acceptable text, the characters are read as the tokens. -/
def Lexes (accepts : List Char → Prop) (cs : List Char) (tokens : List Token) : Prop :=
  ∀ pos rest, accepts rest → ∃ ls after, ls.map Lexeme.token = tokens ∧
    ofChars pos (cs ++ rest) = (do
      let more ← ofChars after rest
      return ls ++ more)

theorem Lexes.append {accepts accepts' : List Char → Prop} {cs cs' : List Char}
    {tokens tokens' : List Token} (h : Lexes accepts cs tokens)
    (h' : Lexes accepts' cs' tokens') (haccepts : ∀ rest, accepts' rest → accepts (cs' ++ rest)) :
    Lexes accepts' (cs ++ cs') (tokens ++ tokens') := by
  intro pos rest hrest
  obtain ⟨ls, between, htokens, hls⟩ := h pos (cs' ++ rest) (haccepts rest hrest)
  obtain ⟨ls', after, htokens', hls'⟩ := h' between rest hrest
  refine ⟨ls ++ ls', after, ?_, ?_⟩
  · rw [List.map_append, htokens, htokens']
  · rw [List.append_assoc, hls, hls']
    cases ofChars after rest with
    | error e => rfl
    | ok more => simp only [ok_bind, pure_eq_ok, List.append_assoc]

theorem Lexes.mono {accepts accepts' : List Char → Prop} {cs : List Char} {tokens : List Token}
    (h : Lexes accepts cs tokens) (haccepts : ∀ rest, accepts' rest → accepts rest) :
    Lexes accepts' cs tokens := by
  intro pos rest hrest
  exact h pos rest (haccepts rest hrest)

theorem Lexes.ofChars_eq_ok {accepts : List Char → Prop} {cs : List Char} {tokens : List Token}
    (h : Lexes accepts cs tokens) (hnil : accepts []) (pos : Nat) :
    ∃ ls, ofChars pos cs = .ok ls ∧ ls.map Lexeme.token = tokens := by
  obtain ⟨ls, after, htokens, hls⟩ := h pos [] hnil
  rw [List.append_nil, ofChars, ok_bind, pure_eq_ok, List.append_nil] at hls
  exact ⟨ls, hls, htokens⟩

theorem lexes_separators {cs : List Char} (h : ∀ c ∈ cs, Text.isSeparator c = true) :
    Lexes (fun _ => True) cs [] := by
  induction cs with
  | nil =>
      intro pos rest _
      refine ⟨[], pos, rfl, ?_⟩
      rw [List.nil_append]
      cases ofChars pos rest <;> rfl
  | cons c cs ih =>
      intro pos rest hrest
      obtain ⟨ls, after, htokens, hls⟩ :=
        ih (fun d hd => h d (List.mem_cons_of_mem c hd)) (pos + c.utf8Size) rest hrest
      refine ⟨ls, after, htokens, ?_⟩
      rw [List.cons_append, ofChars_separator (h c List.mem_cons_self), hls]

theorem lexes_token {accepts : List Char → Prop} {c : Char} {cs : List Char} {token : Token}
    (h : ∀ rest, accepts rest → Token.scan? c (cs ++ rest) = some (token, cs)) :
    Lexes accepts (c :: cs) [token] := by
  intro pos rest hrest
  refine ⟨[⟨token, pos⟩], pos + Text.byteLength (c :: cs), rfl, ?_⟩
  rw [List.cons_append, ofChars_token (h rest hrest), List.drop_left]
  rfl

/-- A text without tokens is blank. -/
theorem isSeparator_of_ofChars {pos : Nat} {cs : List Char} (h : ofChars pos cs = .ok []) :
    ∀ c ∈ cs, Text.isSeparator c = true := by
  induction pos, cs using ofChars.induct with
  | case1 pos =>
      intro c hc
      cases hc
  | case2 pos c rest hseparator ih =>
      rw [ofChars_separator hseparator] at h
      intro d hd
      rcases List.mem_cons.mp hd with rfl | hd
      · exact hseparator
      · exact ih h d hd
  | case3 pos c rest hseparator hscan =>
      rw [ofChars, if_neg hseparator] at h
      simp only [hscan] at h
      cases h
  | case4 pos c rest hseparator token tail hscan ih =>
      rw [ofChars_token hscan] at h
      obtain ⟨more, -, heq⟩ := bind_eq_ok.mp h
      cases heq

/-! ## Reading in a given number of steps -/

/-- Reads a text of at most as many characters as there are steps. -/
def readWithin : Nat → Nat → List Char → Except SyntaxError (List Lexeme)
  | 0, _, _ => .ok []
  | _ + 1, _, [] => .ok []
  | steps + 1, pos, c :: rest =>
    if Text.isSeparator c then
      readWithin steps (pos + c.utf8Size) rest
    else
      match Token.scan? c rest with
      | none => .error (.located (.unreadable (String.ofList (Token.unreadable c rest))) pos)
      | some (token, tail) => do
        let lexemes ← readWithin steps (pos + Text.byteLength (c :: tail)) (rest.drop tail.length)
        return ⟨token, pos⟩ :: lexemes

theorem ofChars_eq_readWithin {steps : Nat} {cs : List Char} (h : cs.length ≤ steps) (pos : Nat) :
    ofChars pos cs = readWithin steps pos cs := by
  induction steps generalizing pos cs with
  | zero =>
      rw [List.length_eq_zero_iff.mp (Nat.le_zero.mp h), ofChars]
      rfl
  | succ steps ih =>
      cases cs with
      | nil =>
          rw [ofChars]
          rfl
      | cons c rest =>
          have hrest : rest.length ≤ steps := Nat.le_of_succ_le_succ h
          have hdrop (n : Nat) : (rest.drop n).length ≤ steps := by
            rw [List.length_drop]
            exact Nat.le_trans (Nat.sub_le _ _) hrest
          rw [ofChars, readWithin, ih hrest]
          cases Token.scan? c rest with
          | none => rfl
          | some found =>
              simp only
              rw [ih (hdrop _)]

/-- What a given text is read as can be computed: the steps are as many as its characters. -/
theorem ofText_eq_readWithin (source : String) :
    ofText source = readWithin source.toList.length 0 source.toList :=
  ofChars_eq_readWithin (Nat.le_refl _) 0

end Formula.Lexeme
