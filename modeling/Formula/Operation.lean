import Formula.Operation.Comparison
import Formula.Operation.Logic
import Formula.Operation.Unary

/-! # Operations

Every operator on values of any shape. -/

namespace Formula.Operation

/-- A binary operator on two scalars. -/
def binaryScalar (division : Division) (op : BinaryOp) (left right : Value) : Except Fault Value :=
  match op with
  | .add | .sub | .mul => arithmetic op left right
  | .div => divide division left right
  | .floorDiv => floorDivide left right
  | .mod => modulo left right
  | .pow => power left right
  | .bitAnd | .bitOr => bitwise op left right
  | .equal | .notEqual | .less | .greater | .lessEqual | .greaterEqual => comparison op left right
  | .and | .or => logic op left right

/-- A binary operator on two values. `and` and `or` look at whole operands, every other operator is
broadcast. -/
def binary (division : Division) (op : BinaryOp) (left right : Value) : Except Fault Value :=
  match op with
  | .and | .or => logic op left right
  | op => Value.broadcast (binaryScalar division op) left right

end Formula.Operation
