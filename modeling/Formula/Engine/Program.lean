import Formula.Expr.Eval

/-! # Postfix programs

An expression as a list of instructions for a stack of values. Its operands are scalars and flat
columns of one length, and it is run once for every row of the columns. -/

namespace Formula

inductive Instruction where
  /-- Pushes the operand with this number. -/
  | push (operand : Nat)
  /-- Replaces the top of the stack. -/
  | unary (op : UnaryOp) (pos : Nat)
  /-- Replaces the two topmost values, the right operand being on top. -/
  | binary (op : BinaryOp) (pos : Nat)
  deriving DecidableEq, Repr

/-- An input of a program: one value for all rows, or a value for each row. -/
inductive Operand where
  | scalar (value : Value)
  | column (items : Array Value)

/-- The value of an operand on a row; without rows, a column is one value. -/
def Operand.at? (row : Option Nat) : Operand → Option Value
  | scalar value => some value
  | column items =>
    match row with
    | some row => items[row]?
    | none => some (.array items.toList)

structure Program where
  instructions : Array Instruction := #[]
  operands : Array Operand := #[]
  /-- The length of the columns, if there are any. -/
  rows : Option Nat := none

namespace Program

/-- The error of an instruction that finds too little on the stack or names no operand. -/
def malformed (pos : Nat) : RuntimeError := ⟨.typeMismatch .malformedProgram, pos⟩

def emit (p : Program) (i : Instruction) : Program :=
  { p with instructions := p.instructions.push i }

/-- Adds an operand and the instruction that pushes it. -/
def addOperand (p : Program) (operand : Operand) : Program :=
  { p.emit (.push p.operands.size) with operands := p.operands.push operand }

/-- Adds a value as an operand. An array has to be flat and as long as the columns before it. -/
def addValue (p : Program) (value : Value) (pos : Nat) : Except RuntimeError Program :=
  match value with
  | .array items =>
    if items.all Value.isScalar then
      let column := Operand.column items.toArray
      match p.rows with
      | none => .ok { p.addOperand column with rows := some items.length }
      | some rows =>
        if rows = items.length then .ok (p.addOperand column)
        else .error ⟨.shapeMismatch rows items.length, pos⟩
    else
      .error ⟨.typeMismatch .nestedColumn, pos⟩
  | scalar => .ok (p.addOperand (.scalar scalar))

/-- The binary operators that have no instruction. -/
def lacks (op : BinaryOp) : Bool := op = .floorDiv || op = .and || op = .or

/-- Appends the instructions of an expression. Arrays and indexing are evaluated here, once; what is
left for each row is arithmetic on scalars. -/
def lower (terms : Bindings) (division : Division) :
    Expr → Program → Except RuntimeError Program
  | .literal value pos, p => p.addValue value.toValue pos
  | .name id pos, p => do p.addValue (← terms.term id pos) pos
  | .unary op operand pos, p =>
    if op = .not then
      .error ⟨.unsupportedOperator "not", pos⟩
    else do
      return (← lower terms division operand p).emit (.unary op pos)
  | .binary op left right pos, p =>
    if lacks op then
      .error ⟨.unsupportedOperator op.spelling, pos⟩
    else do
      let lowered ← lower terms division left p
      return (← lower terms division right lowered).emit (.binary op pos)
  | .array elements pos, p => do
    p.addValue (← (Expr.array elements pos).eval terms division) pos
  | .index base subscript pos, p => do
    p.addValue (← (Expr.index base subscript pos).eval terms division) pos

/-- The stack after one instruction. -/
def step (p : Program) (division : Division) (row : Option Nat) (stack : List Value) :
    Instruction → Except RuntimeError (List Value)
  | .push operand =>
    match p.operands[operand]?.bind (Operand.at? row) with
    | some value => .ok (value :: stack)
    | none => .error (malformed 0)
  | .unary op pos =>
    match stack with
    | value :: rest => do return (← Fault.locate pos (Operation.unary op value)) :: rest
    | [] => .error (malformed pos)
  | .binary op pos =>
    match stack with
    | right :: left :: rest => do
      return (← Fault.locate pos (Operation.binary division op left right)) :: rest
    | _ => .error (malformed pos)

/-- The value that the program leaves on top of the stack. -/
def run (p : Program) (division : Division) (row : Option Nat) : Except RuntimeError Value := do
  match ← p.instructions.foldlM (p.step division row) [] with
  | value :: _ => return value
  | [] => throw (malformed 0)

/-- The value of the program: an array of the values of all rows when there are columns. -/
def value (p : Program) (division : Division) : Except RuntimeError Value :=
  match p.rows with
  | none => p.run division none
  | some rows => do return .array (← (List.range rows).mapM fun (row : Nat) => p.run division row)

end Program

end Formula
