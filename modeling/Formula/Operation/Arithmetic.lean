import Formula.Value

/-! # Arithmetic on scalars

Two integers give an exact integer or overflow, except for `/` and `%`; a real operand makes the
result real. Booleans count as `0` and `1`. -/

namespace Formula

/-- What `/` makes of two integers. -/
inductive Division where
  /-- The quotient is real. -/
  | exact
  /-- The quotient of integers is rounded towards negative infinity. -/
  | legacy
  deriving DecidableEq, Repr

namespace Operation

/-- The fault of operands that the operator has no meaning for. -/
def unsupported (op : BinaryOp) (left right : Value) : Fault :=
  .typeMismatch (.operands op left.kind right.kind)

/-- Both operands as numbers. -/
def numbers (op : BinaryOp) (left right : Value) : Except Fault (Number × Number) :=
  match left.number?, right.number? with
  | some a, some b => .ok (a, b)
  | _, _ => .error (unsupported op left right)

def checked (n : Option Int64) : Except Fault Value :=
  Fault.orElse .overflow (n.map Value.integer)

/-- The operators `+`, `-` and `*`. -/
def arithmetic (op : BinaryOp) (left right : Value) : Except Fault Value := do
  match op, ← numbers op left right with
  | .add, (.integer a, .integer b) => checked (Integer.add? a b)
  | .sub, (.integer a, .integer b) => checked (Integer.sub? a b)
  | .mul, (.integer a, .integer b) => checked (Integer.mul? a b)
  | .add, (a, b) => return .real (a.toReal + b.toReal)
  | .sub, (a, b) => return .real (a.toReal - b.toReal)
  | .mul, (a, b) => return .real (a.toReal * b.toReal)
  | op, _ => throw (.unsupportedOperator op.spelling)

/-- The quotient of two integers, rounded towards negative infinity. -/
def floorDivideIntegers (a b : Int64) : Except Fault Int64 :=
  if b = 0 then .error .divisionByZero else Fault.orElse .overflow (Integer.floorDiv? a b)

/-- The operator `/`. -/
def divide (division : Division) (left right : Value) : Except Fault Value := do
  match division, ← numbers .div left right with
  | .legacy, (.integer a, .integer b) => return .integer (← floorDivideIntegers a b)
  | _, (a, b) => if b.isZero then throw .divisionByZero else return .real (a.toReal / b.toReal)

/-- The operator `//`. -/
def floorDivide (left right : Value) : Except Fault Value := do
  match ← numbers .floorDiv left right with
  | (.integer a, .integer b) => return .integer (← floorDivideIntegers a b)
  | (a, b) =>
    if b.isZero then throw .divisionByZero else return .real (a.toReal / b.toReal).floor

/-- The remainder of the floored quotient of two doubles. -/
def floorModReals (a b : Float) : Except Fault Float :=
  if (Exact.ofFloat b).isZero then .error .divisionByZero else .ok (Exact.mod a b)

/-- The operator `%`, which always gives a real. -/
def modulo (left right : Value) : Except Fault Value := do
  let (a, b) ← numbers .mod left right
  return .real (← floorModReals a.toReal b.toReal)

/-- An exponent of an integer power, which takes at most 32 bits. -/
def exponent (n : Int64) : Except Fault Nat :=
  if UInt32.size ≤ n.toInt then .error .tooLarge
  else if n.toInt < 0 then .error .tooSmall
  else .ok n.toInt.toNat

/-- The operator `**`. An integer to a non-negative integer stays an integer. -/
def power (base exp : Value) : Except Fault Value := do
  match ← numbers .pow base exp with
  | (.integer b, .integer e) =>
    if 0 ≤ e.toInt then checked (Integer.pow? b (← exponent e))
    else return .real ((Number.integer b).toReal.pow (Number.integer e).toReal)
  | (b, e) => return .real (b.toReal.pow e.toReal)

end Operation

end Formula
