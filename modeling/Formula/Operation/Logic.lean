import Formula.Operation.Arithmetic

/-! # Logic

The elementwise operators `&` and `|`, and `and` and `or` on the truth of whole operands. -/

namespace Formula.Operation

/-- A boolean beside an integer counts as `0` or `1`. -/
def integral? : Value → Option Int64
  | .integer n => some n
  | .bool b => some (Value.ofBool b)
  | _ => none

/-- Logical on two booleans, bit by bit when an operand is an integer. Every operator but `&` is
taken for `|`. -/
def bitwise (op : BinaryOp) (left right : Value) : Except Fault Value :=
  match left, right with
  | .bool a, .bool b => .ok (.bool (if op = .bitAnd then a && b else a || b))
  | _, _ =>
    match integral? left, integral? right with
    | some a, some b => .ok (.integer (if op = .bitAnd then a &&& b else a ||| b))
    | _, _ => .error (unsupported op left right)

/-- Whether the left operand is already the result: a false one for `and`, a true one for any other
operator. -/
def decidedByLeft (op : BinaryOp) (left : Value) : Except Fault Bool := do
  let truth ← left.truth
  return if op = .and then !truth else truth

/-- The operand that decides the result. -/
def logic (op : BinaryOp) (left right : Value) : Except Fault Value := do
  return if ← decidedByLeft op left then left else right

end Formula.Operation
