import Formula.Proofs.Lexing.Numerals
import Formula.Proofs.Lexing.Patterns

/-! # Scanning a spelling

Each kind of token is scanned from its own spelling whatever follows, provided that what follows
does not go on with a word or a numeral. -/

namespace Formula.Token

/-! ## Words -/

theorem scan?_word {c : Char} {cs rest : List Char} (hstart : isWordStart c = true)
    (hpart : ∀ d ∈ cs, isWordPart d = true) (hrest : Ends rest) :
    scan? c (cs ++ rest) = some (ofWord (c :: cs), cs) := by
  rw [scan?, if_pos hstart, takeWhile_eq_self hpart hrest.isWordPart]

/-- A word that is not a keyword. -/
def IsName (id : String) : Prop :=
  (∃ c cs, id.toList = c :: cs ∧ isWordStart c = true ∧ ∀ d ∈ cs, isWordPart d = true) ∧
    keywords.lookup id = none

theorem ofWord_of_isName {id : String} (h : IsName id) : ofWord id.toList = name id := by
  rw [ofWord, String.ofList_toList, h.2]
  rfl

theorem keyword_cases {p : String × Token} (h : p ∈ keywords) :
    (∃ b, p.2 = bool b) ∨ ∃ s, p.2 = symbol s := by
  simp only [keywords, List.mem_cons, List.not_mem_nil, or_false] at h
  rcases h with rfl | rfl | rfl | rfl | rfl | rfl | rfl
  · exact .inl ⟨_, rfl⟩
  · exact .inl ⟨_, rfl⟩
  · exact .inl ⟨_, rfl⟩
  · exact .inl ⟨_, rfl⟩
  · exact .inr ⟨_, rfl⟩
  · exact .inr ⟨_, rfl⟩
  · exact .inr ⟨_, rfl⟩

/-- A word is a name unless it is a keyword. -/
theorem ofWord_cases (word : List Char) :
    ofWord word = name (String.ofList word) ∧ keywords.lookup (String.ofList word) = none ∨
      (∃ b, ofWord word = bool b) ∨ ∃ s, ofWord word = symbol s := by
  cases h : keywords.lookup (String.ofList word) with
  | none =>
      refine .inl ⟨?_, rfl⟩
      rw [ofWord, h]
      rfl
  | some token =>
      refine .inr ?_
      obtain ⟨_, _, hkeywords, -⟩ := List.lookup_eq_some_iff.mp h
      have hmem : (String.ofList word, token) ∈ keywords := by
        rw [hkeywords]
        exact List.mem_append_right _ List.mem_cons_self
      have hword : ofWord word = token := by
        rw [ofWord, h]
        rfl
      rw [hword]
      exact keyword_cases hmem

/-! ## Numerals -/

theorem scan?_numeral {n : Numeral} (h : n.Wellformed) {token : Token}
    (htoken : n.token? = some token) {c : Char} {cs rest : List Char} (htext : n.text = c :: cs)
    (hrest : Ends rest) : scan? c (cs ++ rest) = some (token, cs) := by
  have hhead := h.head_text htoken htext
  have hstart : ¬ isWordStart c = true := by
    rcases hhead with hdigit | rfl
    · rw [isWordStart_of_isDigit hdigit]
      exact Bool.false_ne_true
    · exact Bool.false_ne_true
  have hfirst : (c.isDigit || c = '.') = true := by
    rw [Bool.or_eq_true, decide_eq_true_eq]
    exact hhead
  have hscan : Numeral.scan (c :: (cs ++ rest)) = n := by
    rw [← List.cons_append, ← htext]
    exact Numeral.scan_append h hrest
  rw [scan?, if_neg hstart, if_pos hfirst]
  simp only [hscan, htoken, htext, Option.map_some, List.drop_succ_cons, List.drop_zero]

/-! ## Quoted text -/

theorem scanQuoted_cons {quote c : Char} (hquote : c ≠ quote) (hbackslash : c ≠ '\\')
    (rest : List Char) : scanQuoted quote (c :: rest) = c :: scanQuoted quote rest := by
  cases rest with
  | nil => simp only [scanQuoted, hquote, hbackslash, or_self, if_false]
  | cons d rest => rw [scanQuoted, if_neg hquote, if_neg hbackslash]

theorem scanQuoted_escape {quote d : Char} (hquote : quote ≠ '\\') (hd : d ≠ '\n')
    (rest : List Char) :
    scanQuoted quote ('\\' :: d :: rest) = '\\' :: d :: scanQuoted quote rest := by
  rw [scanQuoted, if_neg hquote.symm, if_pos rfl, if_neg hd]

theorem scanQuoted_close {quote : Char} (rest : List Char) :
    scanQuoted quote (quote :: rest) = [] := by
  cases rest with
  | nil => simp only [scanQuoted, true_or, if_true]
  | cons d rest => rw [scanQuoted, if_pos rfl]

theorem unescape_cons {c : Char} (h : c ≠ '\\') (rest : List Char) :
    unescape (c :: rest) = c :: unescape rest := by
  rw [unescape.eq_def]
  split
  · rename_i heq
    exact absurd (List.cons.inj heq).1 h
  · rename_i heq
    exact absurd (List.cons.inj heq).1 h
  · rename_i heq
    exact absurd (List.cons.inj heq).1 h
  · rename_i heq
    exact absurd (List.cons.inj heq).1 h
  · rename_i heq
    cases heq
    rfl
  · rename_i heq
    cases heq

theorem unescape_escape {c : Char} (hn : c ≠ 'n') (ht : c ≠ 't') (rest : List Char) :
    unescape ('\\' :: c :: rest) = c :: unescape rest := by
  rw [unescape]
  · exact hn
  · exact ht

/-- A scanned body stands for what its escapes are resolved to. -/
theorem quoted_scanQuoted (quote : Char) (cs : List Char) :
    Quoted quote (scanQuoted quote cs) (unescape (scanQuoted quote cs)) := by
  fun_induction scanQuoted quote cs with
  | case1 => exact .nil
  | case2 c h => exact .nil
  | case3 c h =>
      rw [not_or] at h
      rw [unescape_cons h.2]
      exact .plain h.1 h.2 .nil
  | case4 d rest => exact .nil
  | case5 rest hquote => exact .nil
  | case6 d rest hd hquote ih =>
      by_cases hn : d = 'n'
      · subst hn
        exact .lineFeed ih
      by_cases ht : d = 't'
      · subst ht
        exact .tab ih
      rw [unescape_escape hn ht]
      exact .escaped hd hn ht ih
  | case7 c d rest hquote hbackslash ih =>
      rw [unescape_cons hbackslash]
      exact .plain hquote hbackslash ih

/-- A body is scanned up to its closing quote, and its escapes are resolved. -/
theorem Quoted.scan {quote : Char} {body s : List Char} (h : Quoted quote body s)
    (hquote : quote ≠ '\\') (rest : List Char) :
    scanQuoted quote (body ++ quote :: rest) = body ∧ unescape body = s := by
  induction h with
  | nil => exact ⟨scanQuoted_close rest, rfl⟩
  | plain hc hbackslash _ ih =>
      rw [List.cons_append, scanQuoted_cons hc hbackslash, ih.1, unescape_cons hbackslash, ih.2]
      exact ⟨rfl, rfl⟩
  | lineFeed _ ih =>
      rw [List.cons_append, List.cons_append, scanQuoted_escape hquote (by decide), ih.1, unescape,
        ih.2]
      exact ⟨rfl, rfl⟩
  | tab _ ih =>
      rw [List.cons_append, List.cons_append, scanQuoted_escape hquote (by decide), ih.1, unescape,
        ih.2]
      exact ⟨rfl, rfl⟩
  | escaped hlineFeed hn ht _ ih =>
      rw [List.cons_append, List.cons_append, scanQuoted_escape hquote hlineFeed, ih.1,
        unescape_escape hn ht, ih.2]
      exact ⟨rfl, rfl⟩

theorem scan?_quote {quote : Char} {body s : List Char} (hquote : quote = '"' ∨ quote = '\'')
    (h : Quoted quote body s) (rest : List Char) :
    scan? quote (body ++ quote :: rest) = some (text (String.ofList s), body ++ [quote]) := by
  have hbackslash : quote ≠ '\\' := by
    rcases hquote with rfl | rfl <;> decide
  have hstart : ¬ isWordStart quote = true := by
    rcases hquote with rfl | rfl <;> decide
  have hdigit : ¬ (quote.isDigit || quote = '.') = true := by
    rcases hquote with rfl | rfl <;> decide
  have hkind : (quote = '"' || quote = '\'') = true := by
    rcases hquote with rfl | rfl <;> decide
  obtain ⟨hbody, hs⟩ := h.scan hbackslash rest
  rw [scan?, if_neg hstart, if_neg hdigit, if_pos hkind]
  simp only [hbody, List.drop_left, List.head?_cons, if_true, hs]

/-- The characters that a text in double quotes keeps: those that stand for themselves there and
those whose escapes are resolved. -/
def Keeps (c : Char) : Prop :=
  Text.escape c = [c] ∨ c = '"' ∨ c = '\\' ∨ c = '\n' ∨ c = '\t'

theorem Quoted.escape {c : Char} (h : Keeps c) {cs s : List Char} (hs : Quoted '"' cs s) :
    Quoted '"' (Text.escape c ++ cs) (c :: s) := by
  by_cases hquote : c = '"'
  · subst hquote
    exact .escaped (by decide) (by decide) (by decide) hs
  by_cases hbackslash : c = '\\'
  · subst hbackslash
    exact .escaped (by decide) (by decide) (by decide) hs
  rcases h with h | h | h | rfl | rfl
  · rw [h]
    exact .plain hquote hbackslash hs
  · exact absurd h hquote
  · exact absurd h hbackslash
  · exact .lineFeed hs
  · exact .tab hs

theorem quoted_escaped {cs : List Char} (h : ∀ c ∈ cs, Keeps c) :
    Quoted '"' (cs.flatMap Text.escape) cs := by
  induction cs with
  | nil => exact .nil
  | cons c cs ih =>
      rw [List.forall_mem_cons] at h
      rw [List.flatMap_cons]
      exact (ih h.2).escape h.1

/-- A text whose characters are kept is scanned from between its quotes. -/
theorem scan?_quoted {s : String} (h : ∀ c ∈ s.toList, Keeps c) (rest : List Char) :
    scan? '"' (s.toList.flatMap Text.escape ++ '"' :: rest) =
      some (text s, s.toList.flatMap Text.escape ++ ['"']) := by
  have hscan := scan?_quote (.inl rfl) (quoted_escaped h) rest
  rwa [String.ofList_toList] at hscan

theorem scanQuoted_isPrefix (quote : Char) (cs : List Char) : scanQuoted quote cs <+: cs := by
  fun_induction scanQuoted quote cs with
  | case1 => exact List.nil_prefix
  | case2 c h => exact List.nil_prefix
  | case3 c h => exact List.prefix_rfl
  | case4 d rest => exact List.nil_prefix
  | case5 rest hquote => exact List.nil_prefix
  | case6 d rest hd hquote ih =>
      exact List.cons_prefix_cons.mpr ⟨rfl, List.cons_prefix_cons.mpr ⟨rfl, ih⟩⟩
  | case7 c d rest hquote hbackslash ih => exact List.cons_prefix_cons.mpr ⟨rfl, ih⟩

/-- The closing quote stands where the characters end. -/
theorem scanQuoted_closed {quote : Char} {cs : List Char}
    (h : (cs.drop (scanQuoted quote cs).length).head? = some quote) :
    scanQuoted quote cs ++ [quote] <+: cs := by
  obtain ⟨rest, hrest⟩ := List.head?_eq_some_iff.mp h
  refine ⟨rest, ?_⟩
  rw [List.append_assoc, List.singleton_append, ← hrest]
  exact List.prefix_iff_eq_append.mp (scanQuoted_isPrefix quote cs)

/-! ## What a scanned token is -/

/-- The branches of the scanner. -/
inductive Scanned (c : Char) (cs : List Char) : Token → List Char → Prop where
  | word (hstart : isWordStart c = true) :
      Scanned c cs (ofWord (c :: cs.takeWhile isWordPart)) (cs.takeWhile isWordPart)
  | numeral {token : Token} (hstart : isWordStart c = false)
      (h : (Numeral.scan (c :: cs)).token? = some token) :
      Scanned c cs token ((Numeral.scan (c :: cs)).text.drop 1)
  | quoted (hquote : c = '"' ∨ c = '\'') (hclosed : scanQuoted c cs ++ [c] <+: cs) :
      Scanned c cs (text (String.ofList (unescape (scanQuoted c cs)))) (scanQuoted c cs ++ [c])
  | mark {mark : List Char × Token} (hmark : mark ∈ marks) (h : mark.1 <+: c :: cs) :
      Scanned c cs mark.2 (mark.1.drop 1)

theorem scanned_of_scan? {c : Char} {cs tail : List Char} {token : Token}
    (h : scan? c cs = some (token, tail)) : Scanned c cs token tail := by
  unfold scan? at h
  split at h
  · rename_i hstart
    cases h
    exact .word hstart
  · rename_i hstart
    split at h
    · obtain ⟨scanned, hscanned, heq⟩ := Option.map_eq_some_iff.mp h
      cases heq
      exact .numeral (Bool.eq_false_iff.mpr hstart) hscanned
    · split at h
      · rename_i hquote
        rw [Bool.or_eq_true, decide_eq_true_eq, decide_eq_true_eq] at hquote
        simp only at h
        split at h
        · rename_i hclose
          cases h
          exact .quoted hquote (scanQuoted_closed hclose)
        · cases h
      · obtain ⟨mark, hmark, heq⟩ := Option.map_eq_some_iff.mp h
        cases heq
        have hbegins := List.find?_some hmark
        exact .mark (List.mem_of_find?_eq_some hmark) (List.isPrefixOf_iff_prefix.mp hbegins)

theorem scan?_of_isSeparator {c : Char} (h : Text.isSeparator c = true) (cs : List Char) :
    scan? c cs = none := by
  simp only [Text.isSeparator, Bool.or_eq_true, decide_eq_true_eq] at h
  rcases h with (((rfl | rfl) | rfl) | rfl) | rfl <;> rfl

theorem mark_cases {mark : List Char × Token} (h : mark ∈ marks) :
    (∃ op, mark.2 = update op) ∨ ∃ s, mark.2 = symbol s := by
  rw [marks, List.mem_append] at h
  rcases h with h | h
  · obtain ⟨op, -, rfl⟩ := List.mem_map.mp h
    exact .inl ⟨op, rfl⟩
  · obtain ⟨s, -, rfl⟩ := List.mem_map.mp h
    exact .inr ⟨s, rfl⟩

theorem isName_of_scan? {c : Char} {cs tail : List Char} {id : String}
    (h : scan? c cs = some (name id, tail)) : IsName id := by
  generalize htoken : name id = token at h
  cases scanned_of_scan? h with
  | word hstart =>
      rcases ofWord_cases (c :: cs.takeWhile isWordPart) with ⟨hname, hlookup⟩ | ⟨b, hb⟩ | ⟨s, hs⟩
      · rw [hname] at htoken
        cases htoken
        exact ⟨⟨c, _, String.toList_ofList, hstart, fun d hd => mem_takeWhile hd⟩, hlookup⟩
      · rw [hb] at htoken
        cases htoken
      · rw [hs] at htoken
        cases htoken
  | numeral _ hscanned =>
      rcases Numeral.token?_cases hscanned with ⟨x, rfl⟩ | ⟨i, rfl⟩ <;> cases htoken
  | quoted _ _ => cases htoken
  | mark hmark _ =>
      rcases mark_cases hmark with ⟨op, hop⟩ | ⟨s, hs⟩
      · rw [hop] at htoken
        cases htoken
      · rw [hs] at htoken
        cases htoken

def isNumber : Token → Bool
  | real _ | integer _ => true
  | _ => false

/-- Only a numeral is scanned as a number. -/
theorem numeral_of_scan? {c : Char} {cs tail : List Char} {token : Token}
    (h : scan? c cs = some (token, tail)) (hnumber : token.isNumber = true) :
    (Numeral.scan (c :: cs)).token? = some token ∧
      tail = (Numeral.scan (c :: cs)).text.drop 1 := by
  cases scanned_of_scan? h with
  | word _ =>
      rcases ofWord_cases (c :: cs.takeWhile isWordPart) with ⟨hname, -⟩ | ⟨b, hb⟩ | ⟨s, hs⟩
      · rw [hname] at hnumber
        cases hnumber
      · rw [hb] at hnumber
        cases hnumber
      · rw [hs] at hnumber
        cases hnumber
  | numeral _ hscanned => exact ⟨hscanned, rfl⟩
  | quoted _ _ => cases hnumber
  | mark hmark _ =>
      rcases mark_cases hmark with ⟨op, hop⟩ | ⟨s, hs⟩
      · rw [hop] at hnumber
        cases hnumber
      · rw [hs] at hnumber
        cases hnumber

theorem nonneg_of_scan? {c : Char} {cs tail : List Char} {i : Int64}
    (h : scan? c cs = some (integer (some i), tail)) : 0 ≤ i.toInt :=
  Numeral.integer_of_token? (numeral_of_scan? h rfl).1

end Formula.Token
