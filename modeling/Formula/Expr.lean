import Formula.Operator
import Formula.Number.Written
import Formula.Text.Quoted

/-! # Expressions

Trees of value expressions. Every node keeps the byte offset of the token that it came from. -/

namespace Formula

/-- The constants that a text can hold. -/
inductive Literal where
  | integer (n : Int64)
  | real (x : Float)
  | bool (b : Bool)
  | text (s : String)
  deriving DecidableEq

def Literal.render : Literal → String
  | integer n => toString n.toInt
  | real x => Written.literal x
  | bool b => if b then "True" else "False"
  | text s => Text.quote s

inductive Expr where
  | literal (value : Literal) (pos : Nat)
  | name (id : String) (pos : Nat)
  | unary (op : UnaryOp) (operand : Expr) (pos : Nat)
  | binary (op : BinaryOp) (left right : Expr) (pos : Nat)
  | array (elements : List Expr) (pos : Nat)
  | index (base subscript : Expr) (pos : Nat)

namespace Expr

instance : Inhabited Expr := ⟨array [] 0⟩

def pos : Expr → Nat
  | literal _ pos | name _ pos | unary _ _ pos | binary _ _ _ pos | array _ pos | index _ _ pos =>
    pos

mutual

/-- The names that an expression uses and where, in the order of evaluation, with repeats. -/
def names : Expr → List (String × Nat)
  | literal _ _ => []
  | name id pos => [(id, pos)]
  | unary _ operand _ => operand.names
  | binary _ left right _ => left.names ++ right.names
  | array elements _ => namesItems elements
  | index base subscript _ => base.names ++ subscript.names

def namesItems : List Expr → List (String × Nat)
  | [] => []
  | element :: elements => element.names ++ namesItems elements

end

mutual

/-- The expression with all operations in parentheses, so that its structure is explicit. -/
def render : Expr → String
  | literal value _ => value.render
  | name id _ => id
  | unary op operand _ => "(" ++ op.spelling ++ operand.render ++ ")"
  | binary op left right _ =>
    "(" ++ left.render ++ " " ++ op.spelling ++ " " ++ right.render ++ ")"
  | array elements _ => "[" ++ ", ".intercalate (renderItems elements) ++ "]"
  | index base subscript _ => base.render ++ "[" ++ subscript.render ++ "]"

def renderItems : List Expr → List String
  | [] => []
  | element :: elements => element.render :: renderItems elements

end

end Expr

end Formula
