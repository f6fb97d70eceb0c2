import Formula.Expr.Level
import Formula.Taken
import Formula.Token.Lexemes

/-! # Reading expressions

An expression is read from lexemes by levels of precedence, a tighter level for the operands of
each level. -/

namespace Formula

namespace Lexeme

/-- The position of a symbol that the lexemes begin with, and the lexemes after it. -/
def expect? (s : Symbol) : List Lexeme → Option (Nat × List Lexeme)
  | [] => none
  | l :: rest => if l.token = .symbol s then some (l.pos, rest) else none

theorem length_of_expect? {s : Symbol} {ls rest : List Lexeme} {pos : Nat}
    (h : expect? s ls = some (pos, rest)) : ls.length = rest.length + 1 := by
  cases ls with
  | nil => simp [expect?] at h
  | cons l ls =>
    simp only [expect?] at h
    split at h
    · simp_all
    · simp at h

/-- The expression that a lexeme is on its own: a literal or a name. -/
def leaf? (l : Lexeme) : Option (Except SyntaxError Expr) :=
  match l.token with
  | .integer (some n) => some (.ok (.literal (.integer n) l.pos))
  | .integer none => some (.error (.located .literalTooLarge l.pos))
  | .real x => some (.ok (.literal (.real x) l.pos))
  | .bool b => some (.ok (.literal (.bool b) l.pos))
  | .text s => some (.ok (.literal (.text s) l.pos))
  | .name id => some (.ok (.name id l.pos))
  | .update _ | .symbol _ => none

/-- The error of a parenthesis opened at `pos` that the lexemes do not begin by closing. -/
def unclosedParen (pos : Nat) : List Lexeme → SyntaxError
  | [] => .located .unclosedParen pos
  | l :: _ => if l.token.isStatement then l.leftover else .located .unclosedParen pos

/-- The error of lexemes that neither continue nor close a list. The end of the text is at
`stop`. -/
def brokenList (stop : Nat) : List Lexeme → SyntaxError
  | [] => .located .endOfInput stop
  | l :: _ => .located (.unexpectedInList l.token) l.pos

/-- The error of a lexeme that no expression begins with. -/
def unexpected (l : Lexeme) : SyntaxError :=
  if l.token.isStatement then l.leftover else .located (.unexpected l.token) l.pos

end Lexeme

namespace Expr

section Reading

variable (g : Grammar) (stop : Nat)

mutual

/-- Reads an expression of a level. The end of the text is at `stop`. -/
def take (level : Level) (ls : List Lexeme) : Except SyntaxError (Taken Expr ls) :=
  if hpower : level = .power then do
    let ⟨base, afterBase, hbase⟩ ← takePrimary ls
    let ⟨indices, afterIndices, hindices⟩ ← peelIndices afterBase
    match hrest : Lexeme.expect? .power afterIndices with
    | none => return ⟨applyIndices base indices, afterIndices, by grind⟩
    | some (pos, rest) => do
      have := Lexeme.length_of_expect? hrest
      let ⟨exponent, after, hafter⟩ ← take .signed rest
      return ⟨binary .pow (applyIndices base indices) exponent pos, after, by grind⟩
  else if level.isPrefix then
    match ls with
    | [] => take (g.below level) []
    | l :: rest =>
      match g.prefixOp? level l.token with
      | none => take (g.below level) (l :: rest)
      | some op => do
        let ⟨operand, after, h⟩ ← take level rest
        return ⟨unary op operand l.pos, after, by grind⟩
  else do
    let ⟨first, afterFirst, hfirst⟩ ← take (g.below level) ls
    let ⟨steps, after, hsteps⟩ ← peelSteps level afterFirst
    return ⟨join level first steps, after, by grind⟩
  termination_by (ls.length, level.rank)
  decreasing_by all_goals grind [Level.rank, Grammar.rank_below_lt]

/-- Reads the operators of a level with the operands that follow them. -/
def peelSteps (level : Level) (ls : List Lexeme) : Except SyntaxError (Peeled (List Step) ls) :=
  match ls with
  | [] => return ⟨[], [], by grind⟩
  | l :: rest =>
    match g.infixOp? level l.token with
    | none => return ⟨[], l :: rest, by grind⟩
    | some op =>
      if g.supports op then do
        let ⟨operand, afterOperand, hoperand⟩ ← take (g.below level) rest
        let ⟨steps, after, hsteps⟩ ← peelSteps level afterOperand
        return ⟨⟨op, l.pos, operand⟩ :: steps, after, by grind⟩
      else
        throw (.located (.unsupported op g) l.pos)
  termination_by (ls.length, 0)
  decreasing_by all_goals grind

/-- Reads a literal, a name, an expression in parentheses or an array. -/
def takePrimary (ls : List Lexeme) : Except SyntaxError (Taken Expr ls) :=
  match ls with
  | [] => throw (.located .endOfInput stop)
  | l :: rest =>
    match l.leaf? with
    | some leaf => do
      let e ← leaf
      return ⟨e, rest, by grind⟩
    | none =>
      if l.token = .symbol .openParen then do
        let ⟨inner, afterInner, hinner⟩ ← take .disjunction rest
        match hclose : Lexeme.expect? .closeParen afterInner with
        | none => throw (Lexeme.unclosedParen l.pos afterInner)
        | some (_, after) =>
          have := Lexeme.length_of_expect? hclose
          return ⟨inner, after, by grind⟩
      else if l.token = .symbol .openBracket then
        match hclose : Lexeme.expect? .closeBracket rest with
        | some (_, after) =>
          have := Lexeme.length_of_expect? hclose
          return ⟨array [] l.pos, after, by grind⟩
        | none => do
          let ⟨elements, after, hafter⟩ ← takeElements rest
          return ⟨array elements l.pos, after, by grind⟩
      else throw l.unexpected
  termination_by (ls.length, 0)
  decreasing_by all_goals grind

/-- Reads the elements of an array that is not empty, up to and including the closing bracket. -/
def takeElements (ls : List Lexeme) : Except SyntaxError (Taken (List Expr) ls) := do
  let ⟨first, afterFirst, hfirst⟩ ← take .disjunction ls
  match hcomma : Lexeme.expect? .comma afterFirst with
  | some (_, more) => do
    have := Lexeme.length_of_expect? hcomma
    let ⟨elements, after, hafter⟩ ← takeElements more
    return ⟨first :: elements, after, by grind⟩
  | none =>
    match hclose : Lexeme.expect? .closeBracket afterFirst with
    | some (_, after) =>
      have := Lexeme.length_of_expect? hclose
      return ⟨[first], after, by grind⟩
    | none => throw (Lexeme.brokenList stop afterFirst)
  termination_by (ls.length, Level.disjunction.rank + 1)
  decreasing_by all_goals grind

/-- Reads the indices in brackets that follow an expression. -/
def peelIndices (ls : List Lexeme) : Except SyntaxError (Peeled (List (Nat × Expr)) ls) :=
  match hopen : Lexeme.expect? .openBracket ls with
  | none => return ⟨[], ls, Nat.le_refl _⟩
  | some (pos, rest) => do
    have := Lexeme.length_of_expect? hopen
    let ⟨subscript, afterIndex, hindex⟩ ← take .disjunction rest
    match hclose : Lexeme.expect? .closeBracket afterIndex with
    | none => throw (.located .unclosedBracket pos)
    | some (_, afterBracket) => do
      have := Lexeme.length_of_expect? hclose
      let ⟨indices, after, hafter⟩ ← peelIndices afterBracket
      return ⟨(pos, subscript) :: indices, after, by grind⟩
  termination_by (ls.length, 0)
  decreasing_by all_goals grind

end

end Reading

/-- The expression at the front of the lexemes, with the lexemes that follow it. -/
def ofLexemes (g : Grammar) (stop : Nat) (ls : List Lexeme) :
    Except SyntaxError (Expr × List Lexeme) := do
  let taken ← take g stop .disjunction ls
  return (taken.value, taken.rest)

/-- The expression that the whole text is, under a grammar. -/
def ofText (g : Grammar) (source : String) : Except SyntaxError Expr :=
  if source.toList.all Text.isBlank then
    .error .blank
  else do
    let ls ← Lexeme.ofText source
    match ← ofLexemes g source.utf8ByteSize ls with
    | (e, []) => return e
    | (_, l :: _) => throw l.leftover

end Expr

end Formula
