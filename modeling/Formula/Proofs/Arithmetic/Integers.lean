import Formula.Proofs.Accelerated.Correctness
import Formula.Proofs.Arithmetic.Checked
import Formula.Proofs.Tree

/-! # Integer expressions

An expression over integers and booleans has the value that it has over the unbounded integers, or
it has none. It has one when all values within it fit. -/

namespace Formula

/-! ## Exact values -/

/-- The integer that a value counts as. -/
def Value.count? : Value → Option Int
  | integer n => some n.toInt
  | bool b => some (if b then 1 else 0)
  | _ => none

/-- The sign operators on integers. -/
def UnaryOp.exactValue? : UnaryOp → Int → Option Int
  | negate, a => some (-a)
  | plus, a => some a
  | _, _ => none

/-- The operators on integers, `/` and `//` being the quotient rounded towards negative infinity.
There is no quotient by zero and no power with a negative exponent. -/
def BinaryOp.exactValue? : BinaryOp → Int → Int → Option Int
  | add, a, b => some (a + b)
  | sub, a, b => some (a - b)
  | mul, a, b => some (a * b)
  | div, a, b | floorDiv, a, b => if b = 0 then none else some (a.fdiv b)
  | pow, a, b => if b < 0 then none else some (a.pow b.toNat)
  | _, _, _ => none

/-- The operators that make integers of integers. -/
inductive BinaryOp.IsIntegral : Division → BinaryOp → Prop where
  | add (division : Division) : IsIntegral division .add
  | sub (division : Division) : IsIntegral division .sub
  | mul (division : Division) : IsIntegral division .mul
  | pow (division : Division) : IsIntegral division .pow
  | floorDiv (division : Division) : IsIntegral division .floorDiv
  | div : IsIntegral .legacy .div

namespace Expr

/-- Expressions of integer and boolean literals, names bound to integers and booleans, and operators
on integers. -/
def IsIntegral (terms : Bindings) (division : Division) : Expr → Prop
  | literal value _ => value.toValue.count?.isSome
  | name id _ => ∃ v, terms.get? id = some v ∧ v.count?.isSome
  | unary op operand _ => (op = .negate ∨ op = .plus) ∧ operand.IsIntegral terms division
  | binary op left right _ =>
    BinaryOp.IsIntegral division op ∧ left.IsIntegral terms division ∧
      right.IsIntegral terms division
  | array _ _ | index _ _ _ => False

/-- The value over the unbounded integers. -/
def exactValue? (terms : Bindings) : Expr → Option Int
  | literal value _ => value.toValue.count?
  | name id _ => (terms.get? id).bind Value.count?
  | unary op operand _ => (operand.exactValue? terms).bind op.exactValue?
  | binary op left right _ =>
    (left.exactValue? terms).bind fun a => (right.exactValue? terms).bind (op.exactValue? a)
  | array _ _ | index _ _ _ => none

/-- All subexpressions have values that fit, and exponents take at most 32 bits. -/
structure InRange (terms : Bindings) (e : Expr) : Prop where
  fits : e.AllNodes fun node => ∃ n, node.exactValue? terms = some n ∧ Integer.Fits n
  exponents : e.AllNodes fun node => ∀ base exponent pos n, node = binary .pow base exponent pos →
    exponent.exactValue? terms = some n → n < UInt32.size

end Expr

open Value

/-! ## Values that count as integers -/

namespace Value

variable {u w v : Value}

theorem number?_of_count? {n : Int} (h : v.count? = some n) :
    ∃ m : Int64, v.number? = some (.integer m) ∧ m.toInt = n := by
  cases v with
  | integer m =>
      cases h
      exact ⟨m, rfl, rfl⟩
  | bool b =>
      cases h
      exact ⟨ofBool b, rfl, by cases b <;> rfl⟩
  | _ => cases h

end Value

namespace Operation

open Integer

variable {division : Division} {op : BinaryOp} {u w v : Value} {a b : Int64}

/-! ## Operators on two integers -/

/-- What an operator makes of two integers. -/
def integral (op : BinaryOp) (a b : Int64) : Except Fault Value :=
  match op with
  | .add => checked (add? a b)
  | .sub => checked (sub? a b)
  | .mul => checked (mul? a b)
  | .pow =>
    if 0 ≤ b.toInt then do checked (pow? a (← exponent b))
    else .ok (.real ((Number.integer a).toReal.pow (Number.integer b).toReal))
  | _ => do return .integer (← floorDivideIntegers a b)

theorem numbers_eq_ok_iff {x y : Number} :
    numbers op u w = .ok (x, y) ↔ u.number? = some x ∧ w.number? = some y := by
  unfold numbers
  cases u.number? <;> cases w.number? <;> simp

theorem binaryScalar_of_integers (hop : op.IsIntegral division)
    (hu : u.number? = some (.integer a)) (hw : w.number? = some (.integer b)) :
    binaryScalar division op u w = integral op a b := by
  have hnumbers (op : BinaryOp) : numbers op u w = .ok (.integer a, .integer b) :=
    numbers_eq_ok_iff.mpr ⟨hu, hw⟩
  cases hop <;>
    simp only [binaryScalar, arithmetic, power, floorDivide, divide, hnumbers, ok_bind, integral,
      pure_eq_ok]

/-! ## Operators on a real -/

section

variable {x y : Number} (hreal : ∀ a b, (x, y) ≠ (.integer a, .integer b))
include hreal

end

theorem exponent_eq_ok_iff {e : Nat} :
    exponent b = .ok e ↔ b.toInt = e ∧ b.toInt < UInt32.size := by
  unfold exponent
  split
  · simp only [reduceCtorEq, false_iff]
    omega
  · split
    · simp only [reduceCtorEq, false_iff]
      omega
    · simp only [Except.ok.injEq]
      omega

section

variable {op : UnaryOp} (hop : op = .negate ∨ op = .plus)
include hop

end

end Operation

/-! ## Exactness of expressions -/

namespace Expr

variable {e : Expr} {terms : Bindings} {division : Division}

theorem InRange.child {sub : Expr} (h : e.InRange terms) (hsub : sub ∈ e.children) :
    sub.InRange terms where
  fits node hnode := h.fits node (nodes_subset_of_child hsub hnode)
  exponents node hnode := h.exponents node (nodes_subset_of_child hsub hnode)

end Expr

end Formula
