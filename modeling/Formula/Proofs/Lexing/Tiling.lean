import Formula.Proofs.Lexing.Longest
import Formula.Proofs.Lexing.Texts

/-! # The tiling of a text

The lexemes of a text lie side by side with nothing but separators between them, and each is the
longest token at its place. The text is read up to its end or up to the first place where no
pattern matches. -/

namespace Formula

/-- The lexemes `ls` and the separators between them make up the text `read`, with which `source`
begins. -/
inductive Tiled (source : List Char) : List Char → List Lexeme → Prop where
  | nil : Tiled source [] []
  | snoc {read gap lexeme rest : List Char} {ls : List Lexeme} {token : Token}
      (h : Tiled source read ls) (hsource : source = read ++ (gap ++ (lexeme ++ rest)))
      (hgap : ∀ c ∈ gap, Text.isSeparator c = true)
      (htoken : Token.Longest (lexeme ++ rest) lexeme token) :
      Tiled source (read ++ (gap ++ lexeme))
        (ls ++ [⟨token, Text.byteLength (read ++ gap)⟩])

/-- What becomes of a text: its lexemes with separators behind the last of them, or an error where
its lexemes end and no pattern matches. -/
inductive Tiling (source : List Char) : Except SyntaxError (List Lexeme) → Prop where
  | complete {read gap : List Char} {ls : List Lexeme} (h : Tiled source read ls)
      (hsource : source = read ++ gap) (hgap : ∀ c ∈ gap, Text.isSeparator c = true) :
      Tiling source (.ok ls)
  | stuck {read gap rest : List Char} {c : Char} {ls : List Lexeme} (h : Tiled source read ls)
      (hsource : source = read ++ (gap ++ c :: rest))
      (hgap : ∀ d ∈ gap, Text.isSeparator d = true) (hc : Text.isSeparator c = false)
      (hnone : ∀ lexeme token, lexeme <+: c :: rest → ¬ Token.Matches lexeme token) :
      Tiling source
        (.error (.located (.unreadable (String.ofList (Token.unreadable c rest)))
          (Text.byteLength (read ++ gap))))

namespace Text

theorem byteLength_append (cs ds : List Char) :
    byteLength (cs ++ ds) = byteLength cs + byteLength ds := by
  induction cs with
  | nil => rw [List.nil_append, byteLength, Nat.zero_add]
  | cons c cs ih => rw [List.cons_append, byteLength, byteLength, ih, Nat.add_assoc]

theorem byteLength_pos {cs : List Char} (h : cs ≠ []) : 0 < byteLength cs := by
  cases cs with
  | nil => exact absurd rfl h
  | cons c cs => exact Nat.add_pos_left c.utf8Size_pos _

end Text

/-- Each token starts behind the end of the one before it. -/
theorem Tiled.pairwise_pos {source read : List Char} {ls : List Lexeme} (h : Tiled source read ls) :
    (ls.map Lexeme.pos).Pairwise (· < ·) ∧ ∀ l ∈ ls, l.pos < Text.byteLength read := by
  induction h with
  | nil => exact ⟨.nil, fun _ h => nomatch h⟩
  | @snoc read gap lexeme rest ls token _ _ _ htoken ih =>
      obtain ⟨hpairwise, hbound⟩ := ih
      have hpos := Text.byteLength_pos htoken.nonempty
      simp only [Text.byteLength_append]
      constructor
      · rw [List.map_append, List.pairwise_append]
        refine ⟨hpairwise, List.pairwise_singleton _ _, ?_⟩
        intro p hp q hq
        obtain ⟨l, hl, rfl⟩ := List.mem_map.mp hp
        obtain rfl := List.mem_singleton.mp hq
        exact Nat.lt_add_right _ (hbound l hl)
      · intro l hl
        rcases List.mem_append.mp hl with hl | hl
        · exact Nat.lt_add_right _ (hbound l hl)
        · obtain rfl := List.mem_singleton.mp hl
          simp only
          omega

namespace Lexeme

theorem ofChars_separators {gap : List Char} (h : ∀ c ∈ gap, Text.isSeparator c = true) (pos : Nat)
    (rest : List Char) : ofChars pos (gap ++ rest) = ofChars (pos + Text.byteLength gap) rest := by
  induction gap generalizing pos with
  | nil => rfl
  | cons c gap ih =>
      have hgap := ih (fun d hd => h d (List.mem_cons_of_mem c hd)) (pos + c.utf8Size)
      rw [List.cons_append, ofChars_separator (h c List.mem_cons_self), hgap, Text.byteLength,
        Nat.add_assoc]

/-- The longest token is read, and then the text behind it. -/
theorem ofChars_longest {lexeme rest : List Char} {token : Token}
    (h : Token.Longest (lexeme ++ rest) lexeme token) (pos : Nat) :
    ofChars pos (lexeme ++ rest) =
      (ofChars (pos + Text.byteLength lexeme) rest).map (⟨token, pos⟩ :: ·) := by
  cases lexeme with
  | nil => exact absurd rfl h.nonempty
  | cons c tail =>
      rw [List.cons_append] at h ⊢
      rw [ofChars_token (Token.scan?_eq_some_iff.mpr h), List.drop_left]
      cases ofChars (pos + Text.byteLength (c :: tail)) rest <;> rfl

/-- A tiled text is read as its lexemes and what follows it as the remaining ones. -/
theorem ofChars_of_tiled {source read rest : List Char} {ls : List Lexeme}
    (h : Tiled source read ls) (hsource : source = read ++ rest) :
    ofChars 0 source = (ofChars (Text.byteLength read) rest).map (ls ++ ·) := by
  induction h generalizing rest with
  | nil =>
      rw [hsource]
      change ofChars 0 rest = (ofChars 0 rest).map (· )
      cases ofChars 0 rest <;> rfl
  | @snoc read gap lexeme rest' ls token _ hsource' hgap htoken ih =>
      obtain rfl : rest' = rest := by
        rw [hsource'] at hsource
        simpa only [List.append_assoc, List.append_cancel_left_eq] using hsource
      rw [ih hsource', ofChars_separators hgap, ofChars_longest htoken,
        ← Text.byteLength_append, ← Text.byteLength_append, List.append_assoc]
      cases ofChars (Text.byteLength (read ++ (gap ++ lexeme))) rest' with
      | error e => rfl
      | ok more => simp only [Except.map, List.append_assoc, List.singleton_append]

/-- Reading on from a tiled beginning tiles the whole text. -/
theorem tiling_of_tiled {source read gap rest : List Char} {ls : List Lexeme}
    (h : Tiled source read ls) (hgap : ∀ c ∈ gap, Text.isSeparator c = true)
    (hsource : source = read ++ (gap ++ rest)) :
    Tiling source ((ofChars (Text.byteLength (read ++ gap)) rest).map (ls ++ ·)) := by
  generalize hpos : Text.byteLength (read ++ gap) = pos
  induction pos, rest using ofChars.induct generalizing read gap ls with
  | case1 pos =>
      rw [List.append_nil] at hsource
      rw [ofChars]
      simp only [Except.map, List.append_nil]
      exact .complete h hsource hgap
  | case2 pos c rest hseparator ih =>
      have hwider : ∀ d ∈ gap ++ [c], Text.isSeparator d = true := by
        intro d hd
        rcases List.mem_append.mp hd with hd | hd
        · exact hgap d hd
        · rw [List.mem_singleton.mp hd]
          exact hseparator
      rw [ofChars_separator hseparator]
      refine ih h hwider ?_ ?_
      · rw [hsource, List.append_assoc, List.singleton_append]
      · rw [← hpos, ← List.append_assoc, Text.byteLength_append (read ++ gap)]
        rfl
  | case3 pos c rest hseparator hscan =>
      rw [ofChars, if_neg hseparator, hscan, ← hpos]
      exact .stuck h hsource hgap (Bool.eq_false_iff.mpr hseparator)
        (Token.scan?_eq_none_iff.mp hscan)
  | case4 pos c rest hseparator token tail hscan ih =>
      have hlongest := Token.scan?_eq_some_iff.mp hscan
      obtain ⟨more, hmore⟩ := hlongest.begins
      rw [List.cons_append] at hmore
      obtain rfl := (List.cons.inj hmore).2
      rw [List.drop_left] at ih
      have hnext : Tiled source (read ++ (gap ++ c :: tail)) (ls ++ [⟨token, pos⟩]) := by
        rw [← hpos]
        exact .snoc h hsource hgap hlongest
      have hnone : ∀ d ∈ ([] : List Char), Text.isSeparator d = true := by simp
      have htiling := ih hnext hnone
        (by simpa only [List.append_assoc, List.cons_append, List.nil_append] using hsource)
        (by rw [List.append_nil, ← hpos, ← Text.byteLength_append, List.append_assoc])
      rw [← List.cons_append, ofChars_longest hlongest]
      revert htiling
      cases ofChars (pos + Text.byteLength (c :: tail)) more with
      | error e => exact id
      | ok ls' => simp only [Except.map, List.append_assoc, List.singleton_append, imp_self]

theorem tiling_ofText (source : String) : Tiling source.toList (ofText source) := by
  have hnone : ∀ c ∈ ([] : List Char), Text.isSeparator c = true := by simp
  have hnil : Tiled source.toList [] [] := .nil
  have htiling := tiling_of_tiled hnil hnone rfl
  change Tiling source.toList ((ofText source).map id) at htiling
  revert htiling
  cases ofText source <;> exact id

theorem pairwise_pos_of_ofText {source : String} {ls : List Lexeme} (h : ofText source = .ok ls) :
    (ls.map Lexeme.pos).Pairwise (· < ·) := by
  have htiling := tiling_ofText source
  rw [h] at htiling
  cases htiling with
  | complete htiled _ _ => exact htiled.pairwise_pos.1

/-- A text with a lexeme is not blank. -/
theorem not_blank_of_mem {source : String} {ls : List Lexeme} {l : Lexeme}
    (h : ofText source = .ok ls) (hl : l ∈ ls) : ¬ source.toList.all Text.isBlank = true := by
  intro hblank
  have htiling := tiling_ofText source
  rw [h] at htiling
  cases htiling with
  | complete htiled hsource _ =>
      cases htiled with
      | nil => cases hl
      | @snoc _ _ lexeme rest _ _ _ hsource' _ htoken =>
          cases lexeme with
          | nil => exact absurd rfl htoken.nonempty
          | cons c tail =>
              have hc : c ∈ source.toList := by
                rw [hsource']
                simp
              have hvisible := Token.isBlank_of_scan? (Token.scan?_eq_some_iff.mpr htoken)
              rw [List.all_eq_true.mp hblank c hc] at hvisible
              cases hvisible

/-- A text is blank when it is read as no lexemes. -/
theorem all_isBlank_iff {source : String} {ls : List Lexeme} (h : ofText source = .ok ls) :
    source.toList.all Text.isBlank = true ↔ ls = [] := by
  constructor
  · intro hblank
    cases ls with
    | nil => rfl
    | cons l ls => exact absurd hblank (not_blank_of_mem h List.mem_cons_self)
  · rintro rfl
    refine List.all_eq_true.mpr fun c hc => ?_
    rw [Text.isBlank, isSeparator_of_ofChars h c hc]
    rfl

/-- A text has exactly one tiling, which is what it is read as, and each of its lexemes starts
behind the one before it. -/
theorem ofText_iff_tiling (source : String) :
    (∀ outcome, ofText source = outcome ↔ Tiling source.toList outcome) ∧
      ∀ ls, ofText source = .ok ls → (ls.map Lexeme.pos).Pairwise (· < ·) := by
  refine ⟨fun outcome => ⟨?_, ?_⟩, fun _ => pairwise_pos_of_ofText⟩
  · rintro rfl
    exact tiling_ofText source
  · intro h
    cases h with
    | @complete read gap ls h hsource hgap =>
        rw [← List.append_nil gap] at hsource
        rw [ofText, ofChars_of_tiled h hsource, ofChars_separators hgap, ofChars]
        simp only [Except.map, List.append_nil]
    | @stuck read gap rest c ls h hsource hgap hc hnone =>
        rw [ofText, ofChars_of_tiled h hsource, ofChars_separators hgap, ofChars,
          if_neg (Bool.eq_false_iff.mp hc), Token.scan?_eq_none_iff.mpr hnone,
          ← Text.byteLength_append]
        rfl

/-- An exponent without digits is left to the next token, and `//=` is one mark. -/
theorem ofText_iff_tiling_update :
    Tiling "x //= 12e".toList
        (.ok [⟨.name "x", 0⟩, ⟨.update "//=", 2⟩, ⟨.integer (some 12), 6⟩, ⟨.name "e", 8⟩]) ∧
      [0, 2, 6, 8].Pairwise (· < ·) := by
  have hread : ofText "x //= 12e" =
      .ok [⟨.name "x", 0⟩, ⟨.update "//=", 2⟩, ⟨.integer (some 12), 6⟩, ⟨.name "e", 8⟩] := by
    rw [Lexeme.ofText_eq_readWithin]
    rfl
  obtain ⟨htiling, hpos⟩ := ofText_iff_tiling "x //= 12e"
  exact ⟨(htiling _).mp hread, hpos _ hread⟩

end Lexeme

end Formula
