import Formula.Number.Written
import Formula.Operator

/-! # Faults

What can go wrong while an expression is evaluated. An operation reports a `Fault`; the position
of the operation in the text makes it a `RuntimeError`. -/

namespace Formula

/-- The kinds of values. -/
inductive Kind where
  | int
  | float
  | bool
  | text
  | array
  deriving DecidableEq, Repr

def Kind.name : Kind → String
  | int => "int"
  | float => "float"
  | bool => "bool"
  | text => "text"
  | array => "array"

/-- A value of a kind that an operation has no meaning for. -/
inductive TypeFault where
  | operand (op : UnaryOp) (kind : Kind)
  | operands (op : BinaryOp) (left right : Kind)
  | unordered (op : BinaryOp) (left right : Kind)
  | notIndexable (kind : Kind)
  | notAnIndex (kind : Kind)
  | notFinite (x : Float)
  | nestedColumn
  | malformedProgram
  deriving DecidableEq

def TypeFault.message : TypeFault → String
  | operand op kind => s!"bad operand type for unary {op.spelling}: '{kind.name}'"
  | operands op left right =>
    s!"unsupported operand types for {op.spelling}: '{left.name}' and '{right.name}'"
  | unordered op left right =>
    s!"'{op.spelling}' not supported between '{left.name}' and '{right.name}'"
  | notIndexable kind => s!"a value of type '{kind.name}' cannot be indexed"
  | notAnIndex kind => s!"array indices must be integers, not '{kind.name}'"
  | notFinite x => s!"Cannot convert non-finite value {Written.plain x} to an integer"
  | nestedColumn => "nested arrays are not supported by the accelerated engine"
  | malformedProgram => "malformed postfix program"

/-- Why an operation has no result. -/
inductive Fault where
  | unknownVariable (name : String)
  | typeMismatch (cause : TypeFault)
  | unsupportedOperator (op : String)
  | shapeMismatch (left right : Nat)
  | ambiguousTruth
  | expectedNumber
  | overflow
  | indexOutOfBounds (length : Nat) (found : Int64)
  | divisionByZero
  | tooLarge
  | tooSmall
  | fractional
  deriving DecidableEq

def Fault.message : Fault → String
  | unknownVariable name => s!"Unknown variable '{name}'."
  | typeMismatch cause => s!"Type error: {cause.message}."
  | unsupportedOperator op => s!"Operator '{op}' is not supported by this engine."
  | shapeMismatch left right => s!"Cannot combine arrays of different lengths: {left} vs {right}."
  | ambiguousTruth => "The truth value of an array is ambiguous."
  | expectedNumber => "Expected number."
  | overflow => "Integer overflow while trying to compute result."
  | indexOutOfBounds length found =>
    s!"Index {found.toInt} out of bounds for array of length {length}."
  | divisionByZero => "Division by zero."
  | tooLarge => "Value is too large."
  | tooSmall => "Value is too small."
  | fractional => "Value is fractional and cannot be safely converted to an integer."

/-- A fault and the byte offset of the operation it arose from. -/
structure RuntimeError where
  fault : Fault
  pos : Nat
  deriving DecidableEq

def RuntimeError.message (e : RuntimeError) : String :=
  s!"Error at position {e.pos}: {e.fault.message}"

/-- Locates the fault of a failed operation. -/
def Fault.locate {α : Type} (pos : Nat) : Except Fault α → Except RuntimeError α
  | .ok a => .ok a
  | .error fault => .error ⟨fault, pos⟩

/-- A result that may be absent, its absence being the given fault. -/
def Fault.orElse {α : Type} (fault : Fault) : Option α → Except Fault α
  | some a => .ok a
  | none => .error fault

end Formula
