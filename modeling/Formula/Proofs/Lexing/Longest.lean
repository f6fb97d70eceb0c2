import Formula.Proofs.Lexing.NumeralPatterns

/-! # The longest token

The scanner takes the longest token that a text begins with, and it finds none only where no pattern
matches. -/

namespace Formula.Token

/-! ## Words -/

/-- The words that have a token of their own. -/
theorem matches_of_lookup {word : List Char} {token : Token}
    (h : keywords.lookup (String.ofList word) = some token) :
    Matches word token ∧ ∀ id, token ≠ name id := by
  obtain ⟨before, after, hkeywords, -⟩ := List.lookup_eq_some_iff.mp h
  have hmem : (String.ofList word, token) ∈ keywords := by
    rw [hkeywords]
    exact List.mem_append_right _ List.mem_cons_self
  have hword : word = (String.ofList word).toList := String.toList_ofList.symm
  rw [hword]
  generalize String.ofList word = spelling at hmem
  simp only [keywords, List.mem_cons, List.not_mem_nil, or_false, Prod.mk.injEq] at hmem
  rcases hmem with ⟨rfl, rfl⟩ | ⟨rfl, rfl⟩ | ⟨rfl, rfl⟩ | ⟨rfl, rfl⟩ | ⟨rfl, rfl⟩ | ⟨rfl, rfl⟩ |
    ⟨rfl, rfl⟩
  · exact ⟨.bool (by simp), by simp⟩
  · exact ⟨.bool (by simp), by simp⟩
  · exact ⟨.bool (by simp), by simp⟩
  · exact ⟨.bool (by simp), by simp⟩
  · exact ⟨.symbol .and, by simp⟩
  · exact ⟨.symbol .or, by simp⟩
  · exact ⟨.symbol .not, by simp⟩

theorem matches_ofWord {c : Char} {cs : List Char} (hstart : isWordStart c = true)
    (hpart : ∀ d ∈ cs, isWordPart d = true) : Matches (c :: cs) (ofWord (c :: cs)) := by
  rw [ofWord]
  cases h : keywords.lookup (String.ofList (c :: cs)) with
  | none => exact .name hstart hpart
  | some token => exact (matches_of_lookup h).1

/-- A text that is written like a name. -/
def IsWord (cs : List Char) : Prop :=
  ∃ c ds, cs = c :: ds ∧ isWordStart c = true ∧ ∀ d ∈ ds, isWordPart d = true

theorem isWord_of_all {c : Char} {cs : List Char} (hstart : isWordStart c = true)
    (hpart : cs.all isWordPart = true) : IsWord (c :: cs) :=
  ⟨c, cs, rfl, hstart, List.all_eq_true.mp hpart⟩

/-! ## Marks -/

theorem marks_pairwise :
    marks.Pairwise fun (a b : List Char × Token) => ¬ a.1 <+: b.1 := by
  decide

/-- No token but a mark begins with the character. -/
def beginsMark (c : Char) : Bool :=
  !isWordStart c && !(c.isDigit || c = '.') && !(c = '"' || c = '\'')

theorem marks_beginsMark : marks.all (·.1.head?.any beginsMark) = true := by
  decide

theorem marks_visible : marks.all (·.1.head?.all (!Text.isBlank ·)) = true := by
  decide

theorem head_mark {mark : List Char × Token} (h : mark ∈ marks) :
    ∃ c cs, mark.1 = c :: cs ∧ isWordStart c = false ∧ (c.isDigit || c = '.') = false ∧
      (c = '"' || c = '\'') = false := by
  have hhead := List.all_eq_true.mp marks_beginsMark mark h
  cases hmark : mark.1 with
  | nil =>
      rw [hmark] at hhead
      cases hhead
  | cons c cs =>
      rw [hmark, List.head?_cons, Option.any_some] at hhead
      simp only [beginsMark, Bool.and_eq_true, Bool.not_eq_true'] at hhead
      exact ⟨c, cs, rfl, hhead.1.1, hhead.1.2, hhead.2⟩

theorem matches_mark {mark : List Char × Token} (h : mark ∈ marks) : Matches mark.1 mark.2 := by
  rw [marks, List.mem_append] at h
  rcases h with h | h
  · obtain ⟨op, hop, rfl⟩ := List.mem_map.mp h
    exact .update hop
  · obtain ⟨s, -, rfl⟩ := List.mem_map.mp h
    exact .symbol s

/-- The first mark that a text begins with is the mark itself or no part of it. -/
theorem find?_mark {mark : List Char × Token} (h : mark ∈ marks) {cs : List Char}
    (hbegins : mark.1 <+: cs) :
    ∃ found, marks.find? (fun (m : List Char × Token) => m.1.isPrefixOf cs) = some found ∧
      (found = mark ∨ ¬ found.1 <+: mark.1) := by
  cases hfind : marks.find? (fun (m : List Char × Token) => m.1.isPrefixOf cs) with
  | none =>
      have hnone := List.find?_eq_none.mp hfind mark h
      exact absurd (List.isPrefixOf_iff_prefix.mpr hbegins) hnone
  | some found =>
      refine ⟨found, rfl, ?_⟩
      obtain ⟨-, before, after, hmarks, hbefore⟩ := List.find?_eq_some_iff_append.mp hfind
      have hpairwise := marks_pairwise
      rw [hmarks] at h hpairwise
      rcases List.mem_append.mp h with hmem | hmem
      · have hnot := hbefore mark hmem
        rw [List.isPrefixOf_iff_prefix.mpr hbegins] at hnot
        cases hnot
      · rcases List.mem_cons.mp hmem with rfl | hmem
        · exact .inl rfl
        · have htail := (List.pairwise_append.mp hpairwise).2.1
          exact .inr (List.rel_of_pairwise_cons htail hmem)

/-- Where a text begins with a mark, the scanner takes the first that it begins with. -/
theorem scan?_mark {mark : List Char × Token} (h : mark ∈ marks) {c : Char} {cs : List Char}
    (hbegins : mark.1 <+: c :: cs) :
    ∃ found ∈ marks, scan? c cs = some (found.2, found.1.drop 1) ∧ found.1 <+: c :: cs ∧
      (found = mark ∨ ¬ found.1 <+: mark.1) := by
  obtain ⟨d, ds, hmark, hstart, hdigit, hquote⟩ := head_mark h
  obtain ⟨found, hfind, hfound⟩ := find?_mark h hbegins
  rw [hmark] at hbegins
  obtain rfl : d = c := (List.cons_prefix_cons.mp hbegins).1
  have hmem := List.mem_of_find?_eq_some hfind
  have hfirst := List.find?_some hfind
  rw [List.isPrefixOf_iff_prefix] at hfirst
  refine ⟨found, hmem, ?_, hfirst, hfound⟩
  simp only [scan?, hstart, hdigit, hquote, hfind, Bool.false_eq_true, if_false, Option.map_some]

/-! ## Kinds of tokens -/

/-- Every symbol that is not a word is a mark. -/
theorem symbol_mem_marks (s : Symbol) :
    s ∈ longMarks ++ shortMarks ∨ s = .and ∨ s = .or ∨ s = .not := by
  cases s <;> decide

/-- What a pattern matches is a number, a word, a mark or quoted text. A word is matched as the
token that words are read as, or else as a name. -/
theorem Matches.kinds {lexeme : List Char} {token : Token} (h : Matches lexeme token) :
    token.isNumber = true ∨
      (IsWord lexeme ∧ (token = ofWord lexeme ∨ ∃ id, token = Token.name id)) ∨
      (lexeme, token) ∈ marks ∨
      ∃ quote body s, (quote = '"' ∨ quote = '\'') ∧ Quoted quote body s ∧
        lexeme = quote :: body ++ [quote] ∧ token = Token.text (String.ofList s) := by
  cases h with
  | bool h =>
      refine .inr (.inl ?_)
      simp only [List.mem_cons, List.not_mem_nil, or_false, Prod.mk.injEq] at h
      rcases h with ⟨rfl, rfl⟩ | ⟨rfl, rfl⟩ | ⟨rfl, rfl⟩ | ⟨rfl, rfl⟩
      · exact ⟨isWord_of_all rfl rfl, .inl rfl⟩
      · exact ⟨isWord_of_all rfl rfl, .inl rfl⟩
      · exact ⟨isWord_of_all rfl rfl, .inl rfl⟩
      · exact ⟨isWord_of_all rfl rfl, .inl rfl⟩
  | text hquote h => exact .inr (.inr (.inr ⟨_, _, _, hquote, h, rfl, rfl⟩))
  | name hstart hpart => exact .inr (.inl ⟨⟨_, _, rfl, hstart, hpart⟩, .inr ⟨_, rfl⟩⟩)
  | update h => exact .inr (.inr (.inl (List.mem_append_left _ (List.mem_map_of_mem h))))
  | symbol s =>
      rcases symbol_mem_marks s with h | rfl | rfl | rfl
      · exact .inr (.inr (.inl (List.mem_append_right _ (List.mem_map_of_mem h))))
      · exact .inr (.inl ⟨isWord_of_all rfl rfl, .inl rfl⟩)
      · exact .inr (.inl ⟨isWord_of_all rfl rfl, .inl rfl⟩)
      · exact .inr (.inl ⟨isWord_of_all rfl rfl, .inl rfl⟩)
  | _ => exact .inl rfl

/-! ## What is scanned -/

theorem isDigit_or_point {c : Char} (h : c.isDigit = true ∨ c = '.') :
    isWordStart c = false ∧ (c.isDigit || c = '.') = true := by
  rcases h with h | rfl
  · exact ⟨isWordStart_of_isDigit h, by rw [h, Bool.true_or]⟩
  · exact ⟨rfl, rfl⟩

/-- A numeral keeps its first character. -/
theorem Numeral.cons_text_scan {c : Char} {cs : List Char} {token : Token}
    (h : (Numeral.scan (c :: cs)).token? = some token) :
    c :: (Numeral.scan (c :: cs)).text.drop 1 = (Numeral.scan (c :: cs)).text := by
  have hprefix := Numeral.text_scan_isPrefix (c :: cs)
  cases htext : (Numeral.scan (c :: cs)).text with
  | nil => exact absurd htext (Numeral.text_ne_nil h)
  | cons d ds =>
      rw [htext] at hprefix
      rw [(List.cons_prefix_cons.mp hprefix).1]
      rfl

/-- What is scanned begins the text and is matched as the scanned token. -/
theorem matches_of_scan? {c : Char} {cs tail : List Char} {token : Token}
    (h : scan? c cs = some (token, tail)) : Matches (c :: tail) token ∧ tail <+: cs := by
  have hscanned := scanned_of_scan? h
  cases hscanned with
  | word hstart =>
      exact ⟨matches_ofWord hstart fun d hd => mem_takeWhile hd, List.takeWhile_prefix _⟩
  | numeral hstart hscan =>
      have htext := Numeral.cons_text_scan hscan
      have hprefix := Numeral.text_scan_isPrefix (c :: cs)
      rw [← htext] at hprefix
      refine ⟨?_, (List.cons_prefix_cons.mp hprefix).2⟩
      rw [htext]
      exact (Numeral.wellformed_scan (c :: cs)).matches_text hscan
  | quoted hquote hclosed =>
      exact ⟨.text hquote (quoted_scanQuoted c cs), hclosed⟩
  | @mark mark hmark hbegins =>
      obtain ⟨d, ds, heq, -⟩ := head_mark hmark
      rw [heq] at hbegins ⊢
      obtain ⟨rfl, htail⟩ := List.cons_prefix_cons.mp hbegins
      refine ⟨?_, htail⟩
      change Matches (d :: ds) mark.2
      rw [← heq]
      exact matches_mark hmark

/-- No token begins with a blank character. -/
theorem isBlank_of_scan? {c : Char} {cs tail : List Char} {token : Token}
    (h : scan? c cs = some (token, tail)) : Text.isBlank c = false := by
  cases scanned_of_scan? h with
  | word hstart =>
      have hrange := toNat_of_isWordStart hstart
      exact isBlank_eq_false (by omega) (by omega)
  | numeral _ hscan =>
      have htext := (Numeral.cons_text_scan hscan).symm
      rcases (Numeral.wellformed_scan (c :: cs)).head_text hscan htext with hdigit | rfl
      · have hrange := toNat_of_isDigit hdigit
        exact isBlank_eq_false (by omega) (by omega)
      · rfl
  | quoted hquote _ => rcases hquote with rfl | rfl <;> rfl
  | @mark mark hmark hbegins =>
      have hvisible := List.all_eq_true.mp marks_visible mark hmark
      obtain ⟨d, ds, heq, -⟩ := head_mark hmark
      rw [heq] at hbegins hvisible
      obtain ⟨rfl, -⟩ := List.cons_prefix_cons.mp hbegins
      simpa using hvisible

/-! ## The longest token -/

theorem ends_nil : Ends [] := fun _ h => nomatch h

/-- A fixed spelling is scanned from itself. -/
theorem Matches.scan?_self {c : Char} {cs : List Char} {token : Token}
    (h : Matches (c :: cs) token) (hfixed : ∀ id, token ≠ Token.name id) :
    scan? c cs = some (token, cs) := by
  rcases h.kinds with hnumber | ⟨⟨d, ds, heq, hstart, hpart⟩, hword⟩ | hmark |
    ⟨quote, body, s, hquote, hs, heq, rfl⟩
  · obtain ⟨n, hn, htext, htoken⟩ := h.exists_numeral hnumber
    have hscan := scan?_numeral hn htoken htext ends_nil
    rwa [List.append_nil] at hscan
  · cases heq
    have hscan := scan?_word hstart hpart ends_nil
    rw [List.append_nil] at hscan
    rcases hword with rfl | ⟨id, rfl⟩
    · exact hscan
    · exact absurd rfl (hfixed id)
  · obtain ⟨found, -, hscan, hprefix, hfound⟩ := scan?_mark hmark List.prefix_rfl
    have heq : found = (c :: cs, token) := hfound.resolve_right fun hne => hne hprefix
    rw [heq] at hscan
    exact hscan
  · cases heq
    exact scan?_quote hquote hs []

theorem Matches.name_inv {c : Char} {cs : List Char} {id : String}
    (h : Matches (c :: cs) (Token.name id)) :
    id = String.ofList (c :: cs) ∧ isWordStart c = true ∧ ∀ d ∈ cs, isWordPart d = true := by
  generalize hlexeme : c :: cs = lexeme at h
  cases h with
  | name hstart hpart =>
      cases hlexeme
      exact ⟨rfl, hstart, hpart⟩

/-- A scanned token is scanned from its own lexeme. -/
theorem scan?_self {c : Char} {cs tail : List Char} {token : Token}
    (h : scan? c cs = some (token, tail)) : scan? c tail = some (token, tail) := by
  by_cases hname : ∃ id, token = name id
  · obtain ⟨id, rfl⟩ := hname
    have hword := ofWord_of_isName (isName_of_scan? h)
    obtain ⟨rfl, hstart, hpart⟩ := (matches_of_scan? h).1.name_inv
    have hscan := scan?_word hstart hpart ends_nil
    rwa [List.append_nil, ← String.toList_ofList (l := c :: tail), hword] at hscan
  · exact (matches_of_scan? h).1.scan?_self fun id hid => hname ⟨id, hid⟩

/-- The scanner finds a token wherever a pattern matches, and takes as much of the text. -/
theorem Matches.scan?_isSome {lexeme : List Char} {token : Token} (h : Matches lexeme token)
    {c : Char} {cs : List Char} (hbegins : lexeme <+: c :: cs) :
    ∃ scanned tail, scan? c cs = some (scanned, tail) ∧ lexeme <+: c :: tail := by
  rcases h.kinds with hnumber | ⟨⟨d, ds, rfl, hstart, hpart⟩, -⟩ | hmark |
    ⟨quote, body, s, hquote, hs, rfl, -⟩
  · obtain ⟨n, hn, rfl, htoken⟩ := h.exists_numeral hnumber
    obtain ⟨rest, hrest⟩ := hbegins
    have hcs : c :: cs = n.whole ++ (n.fraction ++ (n.exponent ++ rest)) := by
      rw [← hrest, Numeral.text, List.append_assoc, List.append_assoc]
    obtain ⟨scanned, hscanned⟩ := hn.token?_scan htoken hcs
    have hprefix := (hn.isPrefix_scan hcs).2.2
    have htext := Numeral.cons_text_scan hscanned
    obtain ⟨hstart, hfirst⟩ :=
      isDigit_or_point ((Numeral.wellformed_scan (c :: cs)).head_text hscanned htext.symm)
    refine ⟨scanned, _, ?_, htext ▸ hprefix⟩
    simp only [scan?, hstart, hfirst, hscanned, Bool.false_eq_true, if_false, if_true,
      Option.map_some]
  · obtain ⟨rest, hrest⟩ := hbegins
    rw [List.cons_append] at hrest
    obtain ⟨rfl, rfl⟩ := List.cons.inj hrest
    refine ⟨_, _, by rw [scan?, if_pos hstart], ?_⟩
    rw [List.takeWhile_append_of_pos hpart]
    exact List.cons_prefix_cons.mpr ⟨rfl, List.prefix_append _ _⟩
  · obtain ⟨found, hfound, hscan, hprefix, hfirst⟩ := scan?_mark hmark hbegins
    obtain ⟨d, ds, heq, -⟩ := head_mark hfound
    refine ⟨_, _, hscan, ?_⟩
    rw [heq] at hprefix ⊢
    obtain rfl : d = c := (List.cons_prefix_cons.mp hprefix).1
    rcases List.prefix_or_prefix_of_prefix hbegins hprefix with hle | hle
    · exact hle
    · rw [← heq] at hle
      obtain rfl := hfirst.resolve_right fun hne => hne hle
      obtain rfl : lexeme = d :: ds := heq
      exact List.prefix_rfl
  · obtain ⟨rest, hrest⟩ := hbegins
    rw [List.cons_append, List.cons_append, List.append_assoc, List.singleton_append] at hrest
    obtain ⟨rfl, rfl⟩ := List.cons.inj hrest
    exact ⟨_, _, scan?_quote hquote hs rest, List.prefix_rfl⟩

/-- The scanner takes the longest token, and no other. -/
theorem scan?_eq_some_iff {c : Char} {cs tail : List Char} {token : Token} :
    scan? c cs = some (token, tail) ↔ Longest (c :: cs) (c :: tail) token := by
  constructor
  · intro h
    obtain ⟨hmatch, htail⟩ := matches_of_scan? h
    exact {
      nonempty := List.cons_ne_nil _ _
      begins := List.cons_prefix_cons.mpr ⟨rfl, htail⟩
      spells := hmatch
      longest := fun other t hother ht => by
        obtain ⟨scanned, more, hscan, hprefix⟩ := ht.scan?_isSome hother
        cases h.symm.trans hscan
        exact hprefix.length_le
      longestRun := fun run hrun hseparators => by
        cases run with
        | nil => exact Nat.zero_le _
        | cons d run =>
            obtain ⟨rfl, -⟩ := List.cons_prefix_cons.mp hrun
            rw [scan?_of_isSeparator (hseparators d List.mem_cons_self)] at h
            cases h
      fixed := fun t ht hfixed => by
        have heq := (scan?_self h).symm.trans (ht.scan?_self hfixed)
        cases heq
        rfl }
  · intro h
    obtain ⟨scanned, more, hscan, hle⟩ := h.spells.scan?_isSome h.begins
    have hscanned := matches_of_scan? hscan
    have hbegins : c :: more <+: c :: cs := List.cons_prefix_cons.mpr ⟨rfl, hscanned.2⟩
    have heq := hle.eq_of_length_le (h.longest _ _ hbegins hscanned.1)
    cases heq
    suffices token = scanned by rw [hscan, this]
    by_cases hname : ∃ id, scanned = name id
    · obtain ⟨id, rfl⟩ := hname
      by_cases htoken : ∃ id, token = name id
      · obtain ⟨id', rfl⟩ := htoken
        rw [hscanned.1.name_inv.1, h.spells.name_inv.1]
      · have hself := h.spells.scan?_self fun id hid => htoken ⟨id, hid⟩
        cases (scan?_self hscan).symm.trans hself
        rfl
    · exact h.fixed _ hscanned.1 fun id hid => hname ⟨id, hid⟩

/-- The scanner finds no token exactly where no pattern matches. -/
theorem scan?_eq_none_iff {c : Char} {cs : List Char} :
    scan? c cs = none ↔ ∀ lexeme token, lexeme <+: c :: cs → ¬ Matches lexeme token := by
  constructor
  · intro h lexeme token hbegins hmatch
    obtain ⟨scanned, tail, hscan, -⟩ := hmatch.scan?_isSome hbegins
    rw [h] at hscan
    cases hscan
  · intro h
    cases hscan : scan? c cs with
    | none => rfl
    | some found =>
        obtain ⟨token, tail⟩ := found
        obtain ⟨hmatch, htail⟩ := matches_of_scan? hscan
        exact absurd hmatch (h _ _ (List.cons_prefix_cons.mpr ⟨rfl, htail⟩))

end Formula.Token
