import Formula.Value.Broadcast
import Formula.Value

/-! # Unary operations

Negation and identity of numbers, inversion of booleans and bits, all element by element, and the
negation of a truth value. -/

namespace Formula.Operation

def unaryScalar (op : UnaryOp) (value : Value) : Except Fault Value :=
  match op, value with
  | .negate, .integer n => Fault.orElse .overflow ((Integer.neg? n).map Value.integer)
  | .negate, .real x => .ok (.real (-x))
  | .negate, .bool b => .ok (.integer (-Value.ofBool b))
  | .plus, .integer n => .ok (.integer n)
  | .plus, .real x => .ok (.real x)
  | .plus, .bool b => .ok (.integer (Value.ofBool b))
  | .invert, .bool b => .ok (.bool !b)
  | .invert, .integer n => .ok (.integer (~~~n))
  | op, value => .error (.typeMismatch (.operand op value.kind))

def unary (op : UnaryOp) (value : Value) : Except Fault Value :=
  match op with
  | .not => do return .bool !(← value.truth)
  | op => value.mapLeaves (unaryScalar op)

end Formula.Operation
