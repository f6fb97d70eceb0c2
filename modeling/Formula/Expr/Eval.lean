import Formula.Expr
import Formula.Operation
import Formula.Scope.Bindings
import Formula.Value.Index

/-! # Evaluation of expressions

The value of an expression under values for its names. Operands are evaluated from left to right,
and the right operand of `and` and `or` only where the left one does not decide the result. -/

namespace Formula

def Literal.toValue : Literal → Value
  | integer n => .integer n
  | real x => .real x
  | bool b => .bool b
  | text s => .text s

/-- The value of a name that an expression uses at a position. -/
def Bindings.term (terms : Bindings) (name : String) (pos : Nat) : Except RuntimeError Value :=
  Fault.locate pos (Fault.orElse (.unknownVariable name) (terms.get? name))

namespace Expr

mutual

def eval (terms : Bindings) (division : Division) : Expr → Except RuntimeError Value
  | literal value _ => .ok value.toValue
  | name id pos => terms.term id pos
  | unary op operand pos => do
    let value ← operand.eval terms division
    Fault.locate pos (Operation.unary op value)
  | binary op left right pos => do
    let leftValue ← left.eval terms division
    if op = .and ∨ op = .or then
      if ← Fault.locate pos (Operation.decidedByLeft op leftValue) then
        return leftValue
      else
        right.eval terms division
    else
      let rightValue ← right.eval terms division
      Fault.locate pos (Operation.binary division op leftValue rightValue)
  | array elements _ => do return .array (← evalItems terms division elements)
  | index base subscript pos => do
    let array ← base.eval terms division
    let wanted ← subscript.eval terms division
    Fault.locate pos (array.index wanted)

def evalItems (terms : Bindings) (division : Division) :
    List Expr → Except RuntimeError (List Value)
  | [] => .ok []
  | element :: elements => do
    let value ← element.eval terms division
    let values ← evalItems terms division elements
    return value :: values

end

end Expr

end Formula
