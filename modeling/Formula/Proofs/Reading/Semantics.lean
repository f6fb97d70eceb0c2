import Formula.Expr.Level

/-! # The grammars

The expressions that a sequence of lexemes derives, by tables of operators and the rules of each
level. The rules do not refer to the readers. -/

namespace Formula

namespace Grammar

/-- The level of the operands of each level. -/
inductive Over (g : Grammar) : Level → Level → Prop where
  | disjunction : Over g .disjunction .conjunction
  | conjunction : Over g .conjunction .negation
  | negation : Over g .negation .comparison
  | comparison (h : g = .extended) : Over g .comparison .additive
  | comparisonStrict (h : g = .strict) : Over g .comparison .bitOr
  | bitOr (h : g = .strict) : Over g .bitOr .bitAnd
  | bitAnd (h : g = .strict) : Over g .bitAnd .additive
  | additive : Over g .additive .multiplicative
  | multiplicative : Over g .multiplicative .signed
  | signed : Over g .signed .power

/-- The operators between the operands of a level, and what they stand for. -/
inductive Between (g : Grammar) : Level → Symbol → BinaryOp → Prop where
  | or (h : g = .strict) : Between g .disjunction .or .or
  | orElementwise (h : g = .extended) : Between g .disjunction .or .bitOr
  | bar (h : g = .extended) : Between g .disjunction .bar .bitOr
  | and (h : g = .strict) : Between g .conjunction .and .and
  | andElementwise (h : g = .extended) : Between g .conjunction .and .bitAnd
  | ampersand (h : g = .extended) : Between g .conjunction .ampersand .bitAnd
  | equal : Between g .comparison .equal .equal
  | notEqual : Between g .comparison .notEqual .notEqual
  | less : Between g .comparison .less .less
  | greater : Between g .comparison .greater .greater
  | lessEqual : Between g .comparison .lessEqual .lessEqual
  | greaterEqual : Between g .comparison .greaterEqual .greaterEqual
  | bitOr (h : g = .strict) : Between g .bitOr .bar .bitOr
  | bitAnd (h : g = .strict) : Between g .bitAnd .ampersand .bitAnd
  | plus : Between g .additive .plus .add
  | minus : Between g .additive .minus .sub
  | times : Between g .multiplicative .times .mul
  | divide : Between g .multiplicative .divide .div
  | percent : Between g .multiplicative .percent .mod
  | floorDivide (h : g = .strict) : Between g .multiplicative .floorDivide .floorDiv

/-- The operators before an operand of a level, and what they stand for. -/
inductive Before (g : Grammar) : Level → Symbol → UnaryOp → Prop where
  | not (h : g = .strict) : Before g .negation .not .not
  | notElementwise (h : g = .extended) : Before g .negation .not .invert
  | minus : Before g .signed .minus .negate
  | plus : Before g .signed .plus .plus
  | tilde : Before g .signed .tilde .invert

end Grammar

/-- The token that is a literal. -/
def Literal.token : Literal → Token
  | integer n => .integer (some n)
  | real x => .real x
  | bool b => .bool b
  | text s => .text s

/-- What lexemes can be derived as. -/
inductive Category where
  | level (level : Level)
  /-- A chain of at least one comparison, with its last operand. -/
  | chain (last : Expr)
  /-- A primary expression with any number of indices. -/
  | indexed
  | primary
  /-- An array literal without its closing bracket, which has an element. -/
  | opened

open Category in
/-- The expressions that lexemes derive under a grammar. -/
inductive Derives (g : Grammar) : Category → List Lexeme → Expr → Prop where
  | operand {upper lower : Level} {ls : List Lexeme} {e : Expr} (hover : g.Over upper lower)
      (h : Derives g (level lower) ls e) : Derives g (level upper) ls e
  | unary {here : Level} {s : Symbol} {op : UnaryOp} {pos : Nat} {ls : List Lexeme} {e : Expr}
      (hop : g.Before here s op) (h : Derives g (level here) ls e) :
      Derives g (level here) (⟨.symbol s, pos⟩ :: ls) (.unary op e pos)
  | binary {upper lower : Level} {s : Symbol} {op : BinaryOp} {pos : Nat}
      {ls rs : List Lexeme} {a b : Expr} (hover : g.Over upper lower)
      (hlevel : upper ≠ .comparison) (hop : g.Between upper s op)
      (hleft : Derives g (level upper) ls a) (hright : Derives g (level lower) rs b) :
      Derives g (level upper) (ls ++ ⟨.symbol s, pos⟩ :: rs) (.binary op a b pos)
  | compare {lower : Level} {s : Symbol} {op : BinaryOp} {pos : Nat} {ls rs : List Lexeme}
      {a b : Expr} (hover : g.Over .comparison lower) (hop : g.Between .comparison s op)
      (hleft : Derives g (level lower) ls a) (hright : Derives g (level lower) rs b) :
      Derives g (chain b) (ls ++ ⟨.symbol s, pos⟩ :: rs) (.binary op a b pos)
  | extend {lower : Level} {s : Symbol} {op : BinaryOp} {pos : Nat} {ls rs : List Lexeme}
      {a b e : Expr} (hover : g.Over .comparison lower) (hop : g.Between .comparison s op)
      (hleft : Derives g (chain a) ls e) (hright : Derives g (level lower) rs b) :
      Derives g (chain b) (ls ++ ⟨.symbol s, pos⟩ :: rs)
        (.binary .bitAnd e (.binary op a b pos) pos)
  | chain {last : Expr} {ls : List Lexeme} {e : Expr} (h : Derives g (chain last) ls e) :
      Derives g (level .comparison) ls e
  | base {ls : List Lexeme} {e : Expr} (h : Derives g indexed ls e) :
      Derives g (level .power) ls e
  | power {pos : Nat} {ls rs : List Lexeme} {a b : Expr} (hleft : Derives g indexed ls a)
      (hright : Derives g (level .signed) rs b) :
      Derives g (level .power) (ls ++ ⟨.symbol .power, pos⟩ :: rs) (.binary .pow a b pos)
  | primary {ls : List Lexeme} {e : Expr} (h : Derives g primary ls e) : Derives g indexed ls e
  | index {pos close : Nat} {ls rs : List Lexeme} {a b : Expr} (hleft : Derives g indexed ls a)
      (hright : Derives g (level .disjunction) rs b) :
      Derives g indexed
        (ls ++ ⟨.symbol .openBracket, pos⟩ :: rs ++ [⟨.symbol .closeBracket, close⟩])
        (.index a b pos)
  | literal (value : Literal) (pos : Nat) :
      Derives g primary [⟨value.token, pos⟩] (.literal value pos)
  | name (id : String) (pos : Nat) : Derives g primary [⟨.name id, pos⟩] (.name id pos)
  | paren {pos close : Nat} {ls : List Lexeme} {e : Expr}
      (h : Derives g (level .disjunction) ls e) :
      Derives g primary (⟨.symbol .openParen, pos⟩ :: ls ++ [⟨.symbol .closeParen, close⟩]) e
  | empty (pos close : Nat) :
      Derives g primary [⟨.symbol .openBracket, pos⟩, ⟨.symbol .closeBracket, close⟩]
        (.array [] pos)
  | array {close : Nat} {ls : List Lexeme} {e : Expr} (h : Derives g opened ls e) :
      Derives g primary (ls ++ [⟨.symbol .closeBracket, close⟩]) e
  | first {pos : Nat} {ls : List Lexeme} {e : Expr} (h : Derives g (level .disjunction) ls e) :
      Derives g opened (⟨.symbol .openBracket, pos⟩ :: ls) (.array [e] pos)
  | more {pos comma : Nat} {ls rs : List Lexeme} {es : List Expr} {e : Expr}
      (hleft : Derives g opened ls (.array es pos))
      (hright : Derives g (level .disjunction) rs e) :
      Derives g opened (ls ++ ⟨.symbol .comma, comma⟩ :: rs) (.array (es ++ [e]) pos)

end Formula
