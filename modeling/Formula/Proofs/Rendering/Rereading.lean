import Formula.Proofs.Reading.Levels
import Formula.Proofs.Reading.Places
import Formula.Proofs.Rendering.Tokens

/-! # What the tokens of an expression derive

Any lexemes with the tokens of an expression derive the expression again, up to positions, under
every grammar that has its operators. -/

namespace Formula

variable {g : Grammar} {ls : List Lexeme} {e : Expr}

/-! ## Operators that a grammar has -/

/-- The operator of the node is in the grammar with the symbol that it is rendered with. -/
def Grammar.Writes (g : Grammar) : Expr → Prop
  | .unary op _ _ => ∃ level, g.Before level op.symbol op
  | .binary op _ _ _ => op = .pow ∨ ∃ level, g.Between level op.symbol op
  | _ => True

def Expr.AllWritten (g : Grammar) (e : Expr) : Prop := e.AllNodes g.Writes

theorem Grammar.Before.symbol {level : Level} {s : Symbol} {op : UnaryOp}
    (h : g.Before level s op) : ∃ level', g.Before level' op.symbol op := by
  cases h with
  | not h => exact ⟨_, .not h⟩
  | notElementwise _ => exact ⟨_, .tilde⟩
  | minus => exact ⟨_, .minus⟩
  | plus => exact ⟨_, .plus⟩
  | tilde => exact ⟨_, .tilde⟩

theorem Grammar.Between.symbol {level : Level} {s : Symbol} {op : BinaryOp}
    (h : g.Between level s op) : ∃ level', g.Between level' op.symbol op := by
  cases h with
  | or h => exact ⟨_, .or h⟩
  | orElementwise h => exact ⟨_, .bar h⟩
  | bar h => exact ⟨_, .bar h⟩
  | and h => exact ⟨_, .and h⟩
  | andElementwise h => exact ⟨_, .ampersand h⟩
  | ampersand h => exact ⟨_, .ampersand h⟩
  | bitOr h => exact ⟨_, .bitOr h⟩
  | bitAnd h => exact ⟨_, .bitAnd h⟩
  | floorDivide h => exact ⟨_, .floorDivide h⟩
  | _ => exact ⟨_, by constructor⟩

/-- The strict grammar has every operator of the extended one, if at another level. -/
theorem Grammar.Before.strict {level : Level} {s : Symbol} {op : UnaryOp}
    (h : extended.Before level s op) : ∃ level', strict.Before level' op.symbol op := by
  cases h with
  | not h => cases h
  | notElementwise _ => exact ⟨_, .tilde⟩
  | minus => exact ⟨_, .minus⟩
  | plus => exact ⟨_, .plus⟩
  | tilde => exact ⟨_, .tilde⟩

theorem Grammar.Between.strict {level : Level} {s : Symbol} {op : BinaryOp}
    (h : extended.Between level s op) : ∃ level', strict.Between level' op.symbol op := by
  cases h with
  | or h => cases h
  | orElementwise _ => exact ⟨_, .bitOr rfl⟩
  | bar _ => exact ⟨_, .bitOr rfl⟩
  | and h => cases h
  | andElementwise _ => exact ⟨_, .bitAnd rfl⟩
  | ampersand _ => exact ⟨_, .bitAnd rfl⟩
  | bitOr h => cases h
  | bitAnd h => cases h
  | floorDivide h => cases h
  | _ => exact ⟨_, by constructor⟩

theorem Placed.writes {node : Expr} (h : Placed g ls node) : g.Writes node := by
  cases h with
  | unary hop _ => exact hop.symbol
  | binary hop _ => exact .inr hop.symbol
  | chain _ _ =>
      refine .inr ?_
      cases g
      · exact ⟨_, .ampersand rfl⟩
      · exact ⟨_, .bitAnd rfl⟩
  | power _ => exact .inl rfl
  | _ => trivial

theorem Grammar.Writes.strict {node : Expr} (h : extended.Writes node) : strict.Writes node := by
  cases node with
  | unary op operand pos =>
      obtain ⟨level, hop⟩ := h
      exact hop.strict
  | binary op left right pos =>
      rcases h with hpower | ⟨level, hop⟩
      · exact .inl hpower
      · exact .inr hop.strict
  | _ => trivial

/-! ## Lexemes with the tokens of an expression -/

theorem eq_singleton_of_map {ls : List Lexeme} {token : Token}
    (h : ls.map Lexeme.token = [token]) : ∃ pos, ls = [⟨token, pos⟩] := by
  obtain ⟨⟨token', pos⟩, rfl, rfl⟩ := List.map_eq_singleton_iff.mp h
  exact ⟨pos, rfl⟩

/-- Lexemes with the tokens of the expression derive it again up to positions, the same tree under
every grammar that has its operators. -/
def Rereads (e : Expr) : Prop :=
  ∀ ls : List Lexeme, ls.map Lexeme.token = e.tokens → ∃ e', e'.unplaced = e.unplaced ∧
    ∀ g : Grammar, e.AllWritten g → Derives g .indexed ls e'

theorem rereads_unary {op : UnaryOp} {operand : Expr} {pos : Nat} (h : Rereads operand) :
    Rereads (.unary op operand pos) := by
  intro ls hls
  rw [Expr.tokens] at hls
  obtain ⟨front, last, rfl, hfront, hlast⟩ := List.map_eq_append_iff.mp hls
  obtain ⟨signs, inner, rfl, hsigns, hinner⟩ := List.map_eq_append_iff.mp hfront
  obtain ⟨head, sign, rfl, hhead, hsign⟩ := List.map_eq_append_iff.mp hsigns
  obtain ⟨openPos, rfl⟩ := eq_singleton_of_map hhead
  obtain ⟨signPos, rfl⟩ := eq_singleton_of_map hsign
  obtain ⟨closePos, rfl⟩ := eq_singleton_of_map hlast
  obtain ⟨operand', hsame, hderives⟩ := h inner hinner
  refine ⟨.unary op operand' signPos, ?_, ?_⟩
  · rw [Expr.unplaced, Expr.unplaced, hsame]
  · intro g hg
    obtain ⟨⟨level, hop⟩, hoperand⟩ := Expr.allNodes_unary.mp hg
    exact (Derives.unary hop ((hderives g hoperand).ofIndexed hop.has)).inParens hop.has

/-- Two operands with an operator of the grammar between them, in parentheses. -/
theorem derives_binary {op : BinaryOp} {ls rs : List Lexeme} {a b : Expr}
    (openPos pos closePos : Nat) (hop : op = .pow ∨ ∃ level, g.Between level op.symbol op)
    (hleft : Derives g .indexed ls a) (hright : Derives g .indexed rs b) :
    Derives g .indexed
      (⟨.symbol .openParen, openPos⟩ :: (ls ++ ⟨.symbol op.symbol, pos⟩ :: rs) ++
        [⟨.symbol .closeParen, closePos⟩]) (.binary op a b pos) := by
  rcases hop with rfl | ⟨level, hop⟩
  · have hpower : g.Has .power := trivial
    exact (Derives.power hleft (hright.ofIndexed trivial)).inParens hpower
  · have hover := Grammar.over_below hop.has hop.ne_power
    have hbelow := Grammar.has_below hop.has
    by_cases hlevel : level = .comparison
    · subst hlevel
      exact (Derives.chain (.compare hover hop (hleft.ofIndexed hbelow)
        (hright.ofIndexed hbelow))).inParens hop.has
    · exact (Derives.binary hover hlevel hop (hleft.ofIndexed hop.has)
        (hright.ofIndexed hbelow)).inParens hop.has

theorem rereads_binary {op : BinaryOp} {left right : Expr} {pos : Nat} (hleft : Rereads left)
    (hright : Rereads right) : Rereads (.binary op left right pos) := by
  intro ls hls
  rw [Expr.tokens] at hls
  obtain ⟨front, last, rfl, hfront, hlast⟩ := List.map_eq_append_iff.mp hls
  obtain ⟨beforeRight, rs, rfl, hbeforeRight, hrs⟩ := List.map_eq_append_iff.mp hfront
  obtain ⟨beforeOp, sign, rfl, hbeforeOp, hsign⟩ := List.map_eq_append_iff.mp hbeforeRight
  obtain ⟨head, inner, rfl, hhead, hinner⟩ := List.map_eq_append_iff.mp hbeforeOp
  obtain ⟨openPos, rfl⟩ := eq_singleton_of_map hhead
  obtain ⟨signPos, rfl⟩ := eq_singleton_of_map hsign
  obtain ⟨closePos, rfl⟩ := eq_singleton_of_map hlast
  obtain ⟨left', hsameLeft, hderivesLeft⟩ := hleft inner hinner
  obtain ⟨right', hsameRight, hderivesRight⟩ := hright rs hrs
  refine ⟨.binary op left' right' signPos, ?_, ?_⟩
  · rw [Expr.unplaced, Expr.unplaced, hsameLeft, hsameRight]
  · intro g hg
    obtain ⟨hop, hgLeft, hgRight⟩ := Expr.allNodes_binary.mp hg
    have hbinary := derives_binary openPos signPos closePos hop (hderivesLeft g hgLeft)
      (hderivesRight g hgRight)
    simp only [List.append_assoc, List.cons_append] at hbinary ⊢
    exact hbinary

theorem rereads_index {base subscript : Expr} {pos : Nat} (hbase : Rereads base)
    (hsubscript : Rereads subscript) : Rereads (.index base subscript pos) := by
  intro ls hls
  rw [Expr.tokens] at hls
  obtain ⟨front, last, rfl, hfront, hlast⟩ := List.map_eq_append_iff.mp hls
  obtain ⟨opened, rs, rfl, hopened, hrs⟩ := List.map_eq_append_iff.mp hfront
  obtain ⟨inner, sign, rfl, hinner, hsign⟩ := List.map_eq_append_iff.mp hopened
  obtain ⟨openPos, rfl⟩ := eq_singleton_of_map hsign
  obtain ⟨closePos, rfl⟩ := eq_singleton_of_map hlast
  obtain ⟨base', hsameBase, hderivesBase⟩ := hbase inner hinner
  obtain ⟨subscript', hsameSubscript, hderivesSubscript⟩ := hsubscript rs hrs
  refine ⟨.index base' subscript' openPos, ?_, ?_⟩
  · rw [Expr.unplaced, Expr.unplaced, hsameBase, hsameSubscript]
  · intro g hg
    obtain ⟨-, hgBase, hgSubscript⟩ := Expr.allNodes_index.mp hg
    have hlevel : g.Has .disjunction := trivial
    rw [List.append_assoc inner]
    exact .index (hderivesBase g hgBase) ((hderivesSubscript g hgSubscript).ofIndexed hlevel)

/-- The elements after the first one go on with an array that is open. -/
theorem rereads_more {es : List Expr} (hes : ∀ e ∈ es, Rereads e) {ls : List Lexeme}
    (hls : ls.map Lexeme.token = Expr.tokensMore es) :
    ∃ es', Expr.unplacedItems es' = Expr.unplacedItems es ∧
      ∀ g : Grammar, (∀ e ∈ es, e.AllWritten g) → ∀ left before pos,
        Derives g .opened left (.array before pos) →
        Derives g .opened (left ++ ls) (.array (before ++ es') pos) := by
  induction es generalizing ls with
  | nil =>
      rw [Expr.tokensMore, List.map_eq_nil_iff] at hls
      subst hls
      refine ⟨[], rfl, ?_⟩
      intro g _ left before pos hleft
      rw [List.append_nil, List.append_nil]
      exact hleft
  | cons e es ih =>
      rw [Expr.tokensMore] at hls
      obtain ⟨front, more, rfl, hfront, hmore⟩ := List.map_eq_append_iff.mp hls
      obtain ⟨comma, inner, rfl, hcomma, hinner⟩ := List.map_eq_append_iff.mp hfront
      obtain ⟨commaPos, rfl⟩ := eq_singleton_of_map hcomma
      obtain ⟨e', hsame, hderives⟩ := hes e List.mem_cons_self inner hinner
      obtain ⟨es', hsameMore, hderivesMore⟩ :=
        ih (fun e he => hes e (List.mem_cons_of_mem _ he)) hmore
      refine ⟨e' :: es', ?_, ?_⟩
      · rw [Expr.unplacedItems, Expr.unplacedItems, hsame, hsameMore]
      · intro g hg left before pos hleft
        have hlevel : g.Has .disjunction := trivial
        have hnext : Derives g .opened (left ++ ⟨.symbol .comma, commaPos⟩ :: inner)
            (.array (before ++ [e']) pos) :=
          .more hleft ((hderives g (hg e List.mem_cons_self)).ofIndexed hlevel)
        have hall := hderivesMore g (fun e he => hg e (List.mem_cons_of_mem _ he)) _ _ pos hnext
        simp only [List.append_assoc, List.cons_append, List.nil_append] at hall ⊢
        exact hall

theorem rereads_array {elements : List Expr} {pos : Nat} (h : ∀ e ∈ elements, Rereads e) :
    Rereads (.array elements pos) := by
  intro ls hls
  cases elements with
  | nil =>
      rw [Expr.tokens] at hls
      obtain ⟨head, last, rfl, hhead, hlast⟩ := List.map_eq_append_iff.mp hls
      obtain ⟨openPos, rfl⟩ := eq_singleton_of_map hhead
      obtain ⟨closePos, rfl⟩ := eq_singleton_of_map hlast
      exact ⟨.array [] openPos, rfl, fun g _ => .primary (.empty openPos closePos)⟩
  | cons e es =>
      rw [Expr.tokens] at hls
      obtain ⟨front, last, rfl, hfront, hlast⟩ := List.map_eq_append_iff.mp hls
      obtain ⟨first, more, rfl, hfirst, hmore⟩ := List.map_eq_append_iff.mp hfront
      obtain ⟨head, inner, rfl, hhead, hinner⟩ := List.map_eq_append_iff.mp hfirst
      obtain ⟨openPos, rfl⟩ := eq_singleton_of_map hhead
      obtain ⟨closePos, rfl⟩ := eq_singleton_of_map hlast
      obtain ⟨e', hsame, hderives⟩ := h e List.mem_cons_self inner hinner
      obtain ⟨es', hsameMore, hderivesMore⟩ :=
        rereads_more (fun e he => h e (List.mem_cons_of_mem _ he)) hmore
      refine ⟨.array (e' :: es') openPos, ?_, ?_⟩
      · rw [Expr.unplaced, Expr.unplaced, Expr.unplacedItems, Expr.unplacedItems, hsame, hsameMore]
      · intro g hg
        obtain ⟨-, helements⟩ := Expr.allNodes_array.mp hg
        have hlevel : g.Has .disjunction := trivial
        have hopened : Derives g .opened (⟨.symbol .openBracket, openPos⟩ :: inner)
            (.array [e'] openPos) :=
          .first ((hderives g (helements e List.mem_cons_self)).ofIndexed hlevel)
        have hall := hderivesMore g (fun e he => helements e (List.mem_cons_of_mem _ he)) _ _
          openPos hopened
        exact .primary (.array hall)

theorem rereads (e : Expr) : Rereads e := by
  induction e using Expr.tree_induction with
  | literal value pos =>
      intro ls hls
      obtain ⟨pos', rfl⟩ := eq_singleton_of_map hls
      exact ⟨.literal value pos', rfl, fun g _ => .primary (.literal value pos')⟩
  | name id pos =>
      intro ls hls
      obtain ⟨pos', rfl⟩ := eq_singleton_of_map hls
      exact ⟨.name id pos', rfl, fun g _ => .primary (.name id pos')⟩
  | unary op operand pos ih => exact rereads_unary ih
  | binary op left right pos ihleft ihright => exact rereads_binary ihleft ihright
  | array elements pos ih => exact rereads_array ih
  | index base subscript pos ihbase ihsubscript => exact rereads_index ihbase ihsubscript

end Formula
