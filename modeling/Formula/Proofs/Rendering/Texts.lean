import Formula.Proofs.Arithmetic.Checked
import Formula.Proofs.Lexing.Texts
import Formula.Proofs.Rendering.Tokens

/-! # The lexemes of a rendered expression

A rendered expression is read as the tokens that its structure asks for, before any text that does
not go on with a word or a numeral. -/

namespace Formula

/-! ## Pieces of a rendered expression -/

/-- A text that can stand for an operand: it is read as the tokens, neither does it complete a mark
that comes before it, and it is not blank. -/
structure Spells (cs : List Char) (tokens : List Token) : Prop where
  lexes : Lexeme.Lexes Token.Ends cs tokens
  head : ∀ c ∈ cs.head?, c ≠ '='
  visible : ∃ c ∈ cs, Text.isBlank c = false

theorem ends_of_mark {c : Char} (h : c = ' ' ∨ c = ')' ∨ c = ']' ∨ c = '[' ∨ c = ',')
    (rest : List Char) : Token.Ends (c :: rest) := by
  rintro d ⟨⟩
  rcases h with rfl | rfl | rfl | rfl | rfl <;> exact ⟨rfl, fun h => nomatch h⟩

theorem ends_nil : Token.Ends [] := by
  rintro c ⟨⟩

/-- A text that can stand for an operand is not blank and is read as its tokens. -/
theorem Spells.ofText {s : String} {tokens : List Token} (h : Spells s.toList tokens) :
    ¬ s.toList.all Text.isBlank = true ∧
      ∃ ls, Lexeme.ofText s = .ok ls ∧ ls.map Lexeme.token = tokens := by
  obtain ⟨c, hmem, hvisible⟩ := h.visible
  refine ⟨?_, h.lexes.ofChars_eq_ok ends_nil 0⟩
  intro hblank
  rw [List.all_eq_true.mp hblank c hmem] at hvisible
  cases hvisible

open Lexeme (Lexes)

theorem lexes_bracket {c : Char} {s : Symbol}
    (h : (c = '(' ∧ s = .openParen) ∨ (c = ')' ∧ s = .closeParen) ∨
      (c = '[' ∧ s = .openBracket) ∨ (c = ']' ∧ s = .closeBracket)) :
    Lexes (fun _ => True) [c] [.symbol s] := by
  apply Lexeme.lexes_token
  intro rest _
  rcases h with ⟨rfl, rfl⟩ | ⟨rfl, rfl⟩ | ⟨rfl, rfl⟩ | ⟨rfl, rfl⟩ <;> rfl

theorem lexes_space : Lexes (fun _ => True) [' '] [] := by
  apply Lexeme.lexes_separators
  intro c hc
  rw [List.mem_singleton] at hc
  subst hc
  rfl

theorem lexes_comma : Lexes (fun _ => True) [',', ' '] [.symbol .comma] := by
  have htoken : Lexes (fun _ => True) [','] [.symbol .comma] :=
    Lexeme.lexes_token fun _ _ => rfl
  exact htoken.append lexes_space fun _ _ => trivial

theorem scan?_binaryOp (op : BinaryOp) :
    ∃ c cs, op.spelling.toList = c :: cs ∧
      ∀ rest, Token.scan? c (cs ++ ' ' :: rest) = some (.symbol op.symbol, cs) := by
  cases op <;> exact ⟨_, _, rfl, fun _ => rfl⟩

/-- A binary operator stands between spaces. -/
theorem lexes_binaryOp (op : BinaryOp) :
    Lexes (fun _ => True) ([' '] ++ op.spelling.toList ++ [' ']) [.symbol op.symbol] := by
  obtain ⟨c, cs, hspelling, hscan⟩ := scan?_binaryOp op
  have htoken : Lexes (fun rest => ∃ more, rest = ' ' :: more) (c :: cs) [.symbol op.symbol] := by
    apply Lexeme.lexes_token
    rintro _ ⟨more, rfl⟩
    exact hscan more
  rw [hspelling, List.append_assoc]
  exact lexes_space.append (htoken.append lexes_space fun rest _ => ⟨rest, rfl⟩)
    fun _ _ => trivial

/-- A sign is not joined to an operand that begins with something else than `=`. -/
theorem scan?_sign {c : Char} {s : Symbol}
    (h : (c = '-' ∧ s = .minus) ∨ (c = '+' ∧ s = .plus) ∨ (c = '~' ∧ s = .tilde))
    {rest : List Char} (hrest : ∀ d ∈ rest.head?, d ≠ '=') :
    Token.scan? c rest = some (.symbol s, []) := by
  cases rest with
  | nil => rcases h with ⟨rfl, rfl⟩ | ⟨rfl, rfl⟩ | ⟨rfl, rfl⟩ <;> rfl
  | cons d rest =>
      have hd : ('=' == d) = false := beq_false_of_ne (hrest d rfl).symm
      rcases h with ⟨rfl, rfl⟩ | ⟨rfl, rfl⟩ | ⟨rfl, rfl⟩
      · have hscan : Token.scan? '-' (d :: rest) =
            (bif ('=' == d) && true then some (['-', '='], .update "-=")
              else some (['-'], .symbol .minus)).map
              fun (mark : List Char × Token) => (mark.2, mark.1.drop 1) := rfl
        rw [hscan, hd]
        rfl
      · have hscan : Token.scan? '+' (d :: rest) =
            (bif ('=' == d) && true then some (['+', '='], .update "+=")
              else some (['+'], .symbol .plus)).map
              fun (mark : List Char × Token) => (mark.2, mark.1.drop 1) := rfl
        rw [hscan, hd]
        rfl
      · rfl

theorem lexes_unaryOp (op : UnaryOp) :
    Lexes (fun rest => ∀ d ∈ rest.head?, d ≠ '=') op.spelling.toList [.symbol op.symbol] := by
  cases op with
  | negate => exact Lexeme.lexes_token fun _ hrest => scan?_sign (.inl ⟨rfl, rfl⟩) hrest
  | plus => exact Lexeme.lexes_token fun _ hrest => scan?_sign (.inr (.inl ⟨rfl, rfl⟩)) hrest
  | invert => exact Lexeme.lexes_token fun _ hrest => scan?_sign (.inr (.inr ⟨rfl, rfl⟩)) hrest
  | not =>
      have htoken : Lexes (fun rest => ∃ more, rest = ' ' :: more) ['n', 'o', 't']
          [.symbol .not] := by
        apply Lexeme.lexes_token
        rintro _ ⟨more, rfl⟩
        rfl
      exact htoken.append (lexes_space.mono fun _ _ => trivial) fun rest _ => ⟨rest, rfl⟩

/-! ## Leaves -/

theorem spells_of_visible {c : Char} {cs : List Char} {tokens : List Token}
    (h : Lexes Token.Ends (c :: cs) tokens) (hc : c ≠ '=') (hlow : 32 < c.toNat)
    (hhigh : c.toNat < 127) : Spells (c :: cs) tokens where
  lexes := h
  head := by
    rintro d ⟨⟩
    exact hc
  visible := ⟨c, List.mem_cons_self, Token.isBlank_eq_false hlow hhigh⟩

theorem spells_word {c : Char} {cs : List Char} (hstart : Token.isWordStart c = true)
    (hpart : ∀ d ∈ cs, Token.isWordPart d = true) :
    Spells (c :: cs) [Token.ofWord (c :: cs)] := by
  have hrange := Token.toNat_of_isWordStart hstart
  refine spells_of_visible ?_ ?_ (by omega) (by omega)
  · apply Lexeme.lexes_token
    intro rest hrest
    exact Token.scan?_word hstart hpart hrest
  · rintro rfl
    cases hstart

theorem spells_name {id : String} (h : Token.IsName id) : Spells id.toList [.name id] := by
  obtain ⟨c, cs, hid, hstart, hpart⟩ := h.1
  rw [← Token.ofWord_of_isName h, hid]
  exact spells_word hstart hpart

theorem spells_numeral {n : Token.Numeral} (h : n.Wellformed) {token : Token}
    (htoken : n.token? = some token) : Spells n.text [token] := by
  cases htext : n.text with
  | nil => exact absurd htext (Token.Numeral.text_ne_nil htoken)
  | cons c cs =>
      have hlexes : Lexes Token.Ends (c :: cs) [token] := by
        apply Lexeme.lexes_token
        intro rest hrest
        exact Token.scan?_numeral h htoken htext hrest
      rcases h.head_text htoken htext with hdigit | rfl
      · have hrange := Token.toNat_of_isDigit hdigit
        refine spells_of_visible hlexes ?_ (by omega) (by omega)
        rintro rfl
        cases hdigit
      · exact spells_of_visible hlexes (by decide) (by decide) (by decide)

theorem spells_quoted {s : String} (h : ∀ c ∈ s.toList, Token.Keeps c) :
    Spells (Text.quote s).toList [.text s] := by
  rw [Text.quote, String.toList_ofList, List.cons_append]
  refine spells_of_visible ?_ (by decide) (by decide) (by decide)
  apply Lexeme.lexes_token
  intro rest _
  rw [List.append_assoc]
  exact Token.scan?_quoted h rest

/-- A run of digits that is too long for an integer is one token all the same. -/
theorem spells_digits (m : Nat) : Spells (Nat.toDigits 10 m) [.integer (Integer.ofInt? m)] := by
  have hdigits : ∀ c ∈ Nat.toDigits 10 m, c.isDigit = true :=
    fun c hc => Nat.isDigit_of_mem_toDigits (by decide) (by decide) hc
  have hinteger : Integer.ofDigits? (Nat.toDigits 10 m) = Integer.ofInt? m := by
    rw [Integer.ofDigits?, Nat.ofDigitChars_ten_toDigits]
  have htoken : (⟨Nat.toDigits 10 m, [], []⟩ : Token.Numeral).token? =
      some (.integer (Integer.ofInt? m)) := by
    simp only [Token.Numeral.token?, ne_eq, not_true_eq_false, and_false, or_self, if_false,
      Nat.toDigits_ne_nil, not_false_eq_true, if_true, hinteger]
  have hspells := spells_numeral ⟨hdigits, .inl rfl, .inl rfl⟩ htoken
  rw [Token.Numeral.text, List.append_nil, List.append_nil] at hspells
  exact hspells

theorem spells_integer {n : Int64} (h : 0 ≤ n.toInt) :
    Spells (toString n.toInt).toList [.integer (some n)] := by
  obtain ⟨m, hm⟩ := Int.eq_ofNat_of_zero_le h
  have htext : (toString n.toInt).toList = Nat.toDigits 10 m := by
    rw [hm]
    exact Nat.toList_repr
  rw [htext, ← Integer.ofInt?_toInt n, hm]
  exact spells_digits m

theorem ends_append_separators {cs rest : List Char} (hrest : Token.Ends rest)
    (h : ∀ c ∈ cs, Text.isSeparator c = true) : Token.Ends (cs ++ rest) := by
  cases cs with
  | nil => exact hrest
  | cons c cs =>
      have hc := h c List.mem_cons_self
      simp only [Text.isSeparator, Bool.or_eq_true, decide_eq_true_eq] at hc
      rintro d ⟨⟩
      rcases hc with (((rfl | rfl) | rfl) | rfl) | rfl <;> exact ⟨rfl, by decide⟩

theorem Spells.append_separators {cs rest : List Char} {tokens : List Token}
    (h : Spells cs tokens) (hrest : ∀ c ∈ rest, Text.isSeparator c = true) :
    Spells (cs ++ rest) tokens := by
  obtain ⟨visible, hmem, hvisible⟩ := h.visible
  refine ⟨?_, ?_, visible, List.mem_append_left _ hmem, hvisible⟩
  · have hseparators : Lexes Token.Ends rest [] :=
      (Lexeme.lexes_separators hrest).mono fun _ _ => trivial
    have hlexes := h.lexes.append hseparators fun more hmore => ends_append_separators hmore hrest
    rw [List.append_nil] at hlexes
    exact hlexes
  · cases cs with
    | nil => cases hmem
    | cons c cs => exact h.head

/-- A text that is one real is read as that real before other texts, too. -/
theorem spells_real {pos start : Nat} {cs : List Char} {x : Float}
    (h : Lexeme.ofChars pos cs = .ok [⟨.real x, start⟩]) : Spells cs [.real x] := by
  induction pos, cs using Lexeme.ofChars.induct with
  | case1 pos =>
      rw [Lexeme.ofChars] at h
      cases h
  | case2 pos c rest hseparator ih =>
      rw [Lexeme.ofChars_separator hseparator] at h
      have hspells := ih h
      obtain ⟨visible, hmem, hvisible⟩ := hspells.visible
      refine ⟨?_, ?_, visible, List.mem_cons_of_mem c hmem, hvisible⟩
      · have hspace : Lexes (fun _ => True) [c] [] := by
          apply Lexeme.lexes_separators
          intro d hd
          rw [List.mem_singleton] at hd
          subst hd
          exact hseparator
        exact hspace.append hspells.lexes fun _ _ => trivial
      · rintro d ⟨⟩ rfl
        cases hseparator
  | case3 pos c rest hseparator hscan =>
      rw [Lexeme.ofChars, if_neg hseparator] at h
      simp only [hscan] at h
      cases h
  | case4 pos c rest hseparator token tail hscan ih =>
      rw [Lexeme.ofChars_token hscan] at h
      obtain ⟨more, hmore, heq⟩ := bind_eq_ok.mp h
      cases heq
      obtain ⟨htoken, htail⟩ := Token.numeral_of_scan? hscan rfl
      have hspells := spells_numeral (Token.Numeral.wellformed_scan (c :: rest)) htoken
      obtain ⟨after, hafter⟩ := Token.Numeral.text_scan_isPrefix (c :: rest)
      cases htext : (Token.Numeral.scan (c :: rest)).text with
      | nil => exact absurd htext (Token.Numeral.text_ne_nil htoken)
      | cons d ds =>
          rw [htext] at hafter htail hspells
          obtain ⟨rfl, hrest⟩ := List.cons.inj hafter
          have hdrop : rest.drop tail.length = after := by
            rw [htail, ← hrest]
            exact List.drop_left
          rw [hdrop] at hmore
          rw [← hafter]
          exact hspells.append_separators (Lexeme.isSeparator_of_ofChars hmore)

/-! ## Trees -/

/-- A literal whose text is read as the literal. -/
def Literal.Legible : Literal → Prop
  | integer n => 0 ≤ n.toInt
  | real x => ∃ start, Lexeme.ofText (Written.literal x) = .ok [⟨.real x, start⟩]
  | bool _ => True
  | text s => ∀ c ∈ s.toList, Token.Keeps c

theorem spells_literal {value : Literal} (h : value.Legible) :
    Spells value.render.toList [value.token] := by
  cases value with
  | integer n => exact spells_integer h
  | real x =>
      obtain ⟨start, hstart⟩ := h
      exact spells_real hstart
  | bool b =>
      have hfalse : Spells ['F', 'a', 'l', 's', 'e'] [.bool false] :=
        spells_word rfl (List.all_eq_true.mp rfl)
      have htrue : Spells ['T', 'r', 'u', 'e'] [.bool true] :=
        spells_word rfl (List.all_eq_true.mp rfl)
      cases b
      · exact hfalse
      · exact htrue
  | text s => exact spells_quoted h

namespace Expr

/-- A leaf whose text is read as the leaf; every other node is legible when its leaves are. -/
def Legible : Expr → Prop
  | literal value _ => value.Legible
  | name id _ => Token.IsName id
  | _ => True

/-- All leaves of the expression are legible. -/
def AllLegible (e : Expr) : Prop := e.AllNodes Legible

end Expr

theorem Spells.head_append {cs : List Char} {tokens : List Token} (h : Spells cs tokens)
    (rest : List Char) : ∀ d ∈ (cs ++ rest).head?, d ≠ '=' := by
  obtain ⟨c, hmem, -⟩ := h.visible
  cases cs with
  | nil => cases hmem
  | cons c cs => exact h.head

theorem spells_open {c : Char} {cs : List Char} {tokens : List Token} (hc : c = '(' ∨ c = '[')
    (h : Lexes (fun _ => True) (c :: cs) tokens) : Spells (c :: cs) tokens := by
  have hlexes : Lexes Token.Ends (c :: cs) tokens := h.mono fun _ _ => trivial
  rcases hc with rfl | rfl
  · exact spells_of_visible hlexes (by decide) (by decide) (by decide)
  · exact spells_of_visible hlexes (by decide) (by decide) (by decide)

theorem lexes_openParen : Lexes (fun _ => True) ['('] [.symbol .openParen] :=
  lexes_bracket (.inl ⟨rfl, rfl⟩)

theorem lexes_closeParen : Lexes (fun _ => True) [')'] [.symbol .closeParen] :=
  lexes_bracket (.inr (.inl ⟨rfl, rfl⟩))

theorem lexes_openBracket : Lexes (fun _ => True) ['['] [.symbol .openBracket] :=
  lexes_bracket (.inr (.inr (.inl ⟨rfl, rfl⟩)))

theorem lexes_closeBracket : Lexes (fun _ => True) [']'] [.symbol .closeBracket] :=
  lexes_bracket (.inr (.inr (.inr ⟨rfl, rfl⟩)))

theorem spells_unary {op : UnaryOp} {cs : List Char} {tokens : List Token}
    (h : Spells cs tokens) :
    Spells (['('] ++ op.spelling.toList ++ cs ++ [')'])
      ([.symbol .openParen] ++ [.symbol op.symbol] ++ tokens ++ [.symbol .closeParen]) := by
  apply spells_open (.inl rfl)
  have hop := lexes_openParen.append (lexes_unaryOp op) fun _ _ => trivial
  have hoperand := hop.append h.lexes fun rest _ => h.head_append rest
  exact hoperand.append lexes_closeParen fun rest _ => ends_of_mark (.inr (.inl rfl)) rest

theorem spells_binary {op : BinaryOp} {cs cs' : List Char} {tokens tokens' : List Token}
    (h : Spells cs tokens) (h' : Spells cs' tokens') :
    Spells (['('] ++ cs ++ ([' '] ++ op.spelling.toList ++ [' ']) ++ cs' ++ [')'])
      ([.symbol .openParen] ++ tokens ++ [.symbol op.symbol] ++ tokens' ++
        [.symbol .closeParen]) := by
  apply spells_open (.inl rfl)
  have hleft := lexes_openParen.append h.lexes fun _ _ => trivial
  have hop := hleft.append (lexes_binaryOp op) fun rest _ => ends_of_mark (.inl rfl) _
  have hright := hop.append h'.lexes fun _ _ => trivial
  exact hright.append lexes_closeParen fun rest _ => ends_of_mark (.inr (.inl rfl)) rest

theorem spells_index {cs cs' : List Char} {tokens tokens' : List Token}
    (h : Spells cs tokens) (h' : Spells cs' tokens') :
    Spells (cs ++ ['['] ++ cs' ++ [']'])
      (tokens ++ [.symbol .openBracket] ++ tokens' ++ [.symbol .closeBracket]) := by
  obtain ⟨visible, hmem, hvisible⟩ := h.visible
  refine ⟨?_, ?_, visible, ?_, hvisible⟩
  · have hopen := h.lexes.append lexes_openBracket
      fun rest _ => ends_of_mark (.inr (.inr (.inr (.inl rfl)))) rest
    have hsubscript := hopen.append h'.lexes fun _ _ => trivial
    have hclose := hsubscript.append lexes_closeBracket
      fun rest _ => ends_of_mark (.inr (.inr (.inl rfl))) rest
    exact hclose.mono fun _ _ => trivial
  · rw [List.append_assoc, List.append_assoc]
    exact h.head_append _
  · rw [List.append_assoc, List.append_assoc]
    exact List.mem_append_left _ hmem

section

variable {α : Type} {text : α → List Char} {tokens : α → List Token} {a : α} {as : List α}

theorem ends_items {rest : List Char} (h : Token.Ends rest) :
    Token.Ends ((as.flatMap fun b => [',', ' '] ++ text b) ++ rest) := by
  cases as with
  | nil => exact h
  | cons a as => exact ends_of_mark (.inr (.inr (.inr (.inr rfl)))) _

theorem lexes_items (h : ∀ b ∈ as, Spells (text b) (tokens b)) :
    Lexes Token.Ends (as.flatMap fun b => [',', ' '] ++ text b)
      (as.flatMap fun b => [.symbol .comma] ++ tokens b) := by
  induction as with
  | nil =>
      have hnil : Lexes (fun _ => True) [] [] := Lexeme.lexes_separators fun _ hc => nomatch hc
      exact hnil.mono fun _ _ => trivial
  | cons a as ih =>
      have ha := h a List.mem_cons_self
      have has := ih fun b hb => h b (List.mem_cons_of_mem a hb)
      have hfirst := lexes_comma.append ha.lexes fun _ _ => trivial
      exact hfirst.append has fun rest hrest => ends_items hrest

/-- The text of an array: the first item, and the other ones behind commas. -/
theorem spells_items (h : ∀ b ∈ a :: as, Spells (text b) (tokens b)) :
    Spells (['['] ++ text a ++ (as.flatMap fun b => [',', ' '] ++ text b) ++ [']'])
      ([.symbol .openBracket] ++ tokens a ++ (as.flatMap fun b => [.symbol .comma] ++ tokens b) ++
        [.symbol .closeBracket]) := by
  obtain ⟨hfirst, hmore⟩ := List.forall_mem_cons.mp h
  apply spells_open (.inr rfl)
  have hitem := lexes_openBracket.append hfirst.lexes fun _ _ => trivial
  have hitems := hitem.append (lexes_items hmore) fun rest hrest => ends_items hrest
  exact hitems.append lexes_closeBracket fun rest _ => ends_of_mark (.inr (.inr (.inl rfl))) rest

theorem spells_brackets :
    Spells (['['] ++ [']']) ([.symbol .openBracket] ++ [.symbol .closeBracket]) :=
  spells_open (.inr rfl) (lexes_openBracket.append lexes_closeBracket fun _ _ => trivial)

end

/-- The text of an expression with legible leaves is read as its tokens. -/
theorem spells_render {e : Expr} (h : e.AllLegible) : Spells e.render.toList e.tokens := by
  induction e using Expr.tree_induction with
  | literal value pos => exact spells_literal (Expr.allNodes_literal.mp h)
  | name id pos => exact spells_name (Expr.allNodes_name.mp h)
  | unary op operand pos ih =>
      obtain ⟨-, hoperand⟩ := Expr.allNodes_unary.mp h
      rw [Expr.toList_render_unary, Expr.tokens]
      exact spells_unary (ih hoperand)
  | binary op left right pos ihleft ihright =>
      obtain ⟨-, hleft, hright⟩ := Expr.allNodes_binary.mp h
      rw [Expr.toList_render_binary, Expr.tokens]
      exact spells_binary (ihleft hleft) (ihright hright)
  | array elements pos ih =>
      obtain ⟨-, helements⟩ := Expr.allNodes_array.mp h
      cases elements with
      | nil =>
          rw [Expr.toList_render_empty, Expr.tokens]
          exact spells_brackets
      | cons e es =>
          have hspells : ∀ e' ∈ e :: es, Spells e'.render.toList e'.tokens :=
            fun e' he' => ih e' he' (helements e' he')
          rw [Expr.toList_render_array, Expr.tokens, Expr.textMore_eq, Expr.tokensMore_eq]
          exact spells_items hspells
  | index base subscript pos ihbase ihsubscript =>
      obtain ⟨-, hbase, hsubscript⟩ := Expr.allNodes_index.mp h
      rw [Expr.toList_render_index, Expr.tokens]
      exact spells_index (ihbase hbase) (ihsubscript hsubscript)

end Formula
