import Formula.Operation.Arithmetic

/-! # Comparison of scalars

Numbers compare by exact value and texts by code points. A text never equals a number and has no
place in the order of numbers; an undefined real equals nothing and is unordered. -/

namespace Formula.Operation

/-- What a comparison operator says of operands in the given order, `none` for unordered ones. -/
def holds : BinaryOp → Option Ordering → Bool
  | .equal, order => order = some .eq
  | .notEqual, order => order ≠ some .eq
  | .less, order => order = some .lt
  | .greater, order => order = some .gt
  | .lessEqual, order => order = some .lt ∨ order = some .eq
  | .greaterEqual, order => order = some .gt ∨ order = some .eq
  | _, _ => false

/-- A comparison of a text with something else. -/
def compareMixed (op : BinaryOp) (left right : Value) : Except Fault Value :=
  match op with
  | .equal => .ok (.bool false)
  | .notEqual => .ok (.bool true)
  | op => .error (.typeMismatch (.unordered op left.kind right.kind))

def comparison (op : BinaryOp) (left right : Value) : Except Fault Value :=
  match left, right with
  | .text a, .text b => .ok (.bool (holds op (some (compare a b))))
  | .text _, _ => compareMixed op left right
  | _, .text _ => compareMixed op left right
  | _, _ => do
    let (a, b) ← numbers op left right
    return .bool (holds op (a.compare b))

end Formula.Operation
