/-! # Operators

The unary and binary operators of expressions, and how they are written. -/

namespace Formula

inductive UnaryOp where
  | negate
  | plus
  | invert
  | not
  deriving DecidableEq, Repr

/-- The operator as written before its operand; the keyword brings its own space. -/
def UnaryOp.spelling : UnaryOp → String
  | negate => "-"
  | plus => "+"
  | invert => "~"
  | not => "not "

/-- The operators `bitAnd` and `bitOr` work element by element, `and` and `or` on the truth of whole
operands. -/
inductive BinaryOp where
  | add
  | sub
  | mul
  | div
  | floorDiv
  | pow
  | mod
  | bitAnd
  | bitOr
  | and
  | or
  | equal
  | notEqual
  | less
  | greater
  | lessEqual
  | greaterEqual
  deriving DecidableEq, Repr

namespace BinaryOp

def spelling : BinaryOp → String
  | add => "+"
  | sub => "-"
  | mul => "*"
  | div => "/"
  | floorDiv => "//"
  | pow => "**"
  | mod => "%"
  | bitAnd => "&"
  | bitOr => "|"
  | and => "and"
  | or => "or"
  | equal => "=="
  | notEqual => "!="
  | less => "<"
  | greater => ">"
  | lessEqual => "<="
  | greaterEqual => ">="

def isComparison : BinaryOp → Bool
  | equal | notEqual | less | greater | lessEqual | greaterEqual => true
  | _ => false

end BinaryOp

end Formula
