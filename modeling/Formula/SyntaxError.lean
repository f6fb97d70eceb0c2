import Formula.Grammar

/-! # Syntax errors

Why a text is not an expression, and where. -/

namespace Formula

inductive SyntaxFault where
  /-- No token starts here; the text that was taken for one. -/
  | unreadable (text : String)
  | unexpected (token : Token)
  /-- A token inside brackets that neither continues nor closes the list. -/
  | unexpectedInList (token : Token)
  | endOfInput
  | unclosedParen
  | unclosedBracket
  | trailing (token : Token)
  | assignment
  | statement
  | unsupported (op : BinaryOp) (grammar : Grammar)
  | literalTooLarge
  deriving DecidableEq

def SyntaxFault.message : SyntaxFault → String
  | unreadable text => s!"Unexpected token: {text}."
  | unexpected token => s!"Unexpected token: {token.render}."
  | unexpectedInList token =>
    let closing := (Token.symbol .closeBracket).render
    s!"Unexpected token: expected ',' or {closing}, found {token.render}."
  | endOfInput => "Unexpected end of input."
  | unclosedParen => "Expected closing parenthesis ')' but none found."
  | unclosedBracket => "Expected closing bracket ']' but none found."
  | trailing token => s!"Extra tokens after expression: {token.render}."
  | assignment => "Assignment is not allowed, only expressions can be evaluated."
  | statement => "Statements are not allowed, only a single expression can be evaluated."
  | unsupported op grammar =>
    s!"Operator '{op.spelling}' is not supported by the '{grammar.name}' grammar."
  | literalTooLarge => "Literal is too large."

/-- A syntax fault and its byte offset; a blank text has neither. -/
inductive SyntaxError where
  | blank
  | located (fault : SyntaxFault) (pos : Nat)
  deriving DecidableEq

namespace SyntaxError

def message : SyntaxError → String
  | blank => "Expression cannot be empty."
  | located fault pos => s!"Error at position {pos}: {fault.message}"

def position? : SyntaxError → Option Nat
  | blank => none
  | located _ pos => some pos

end SyntaxError

/-- The error of a token that stands where an expression has ended. -/
def Lexeme.leftover (l : Lexeme) : SyntaxError :=
  match l.token with
  | .symbol .assign | .update _ => .located .assignment l.pos
  | .symbol .semicolon => .located .statement l.pos
  | token => .located (.trailing token) l.pos

/-- Whether the token belongs to an assignment or separates statements. -/
def Token.isStatement : Token → Bool
  | .symbol .assign | .update _ | .symbol .semicolon => true
  | _ => false

end Formula
