import Formula.Expr
import Formula.Grammar

/-! # Levels of precedence

The levels at which operators bind, loosest first, and what the operands found at one level are
joined to. -/

namespace Formula

inductive Level where
  | disjunction
  | conjunction
  | negation
  | comparison
  | bitOr
  | bitAnd
  | additive
  | multiplicative
  | signed
  | power
  deriving DecidableEq, Repr

/-- Levels of a higher rank bind more loosely. -/
def Level.rank : Level → Nat
  | disjunction => 10
  | conjunction => 9
  | negation => 8
  | comparison => 7
  | bitOr => 6
  | bitAnd => 5
  | additive => 4
  | multiplicative => 3
  | signed => 2
  | power => 1

/-- Whether operators of the level stand before their operand. -/
def Level.isPrefix : Level → Bool
  | negation | signed => true
  | _ => false

namespace Grammar

/-- The level that the operands of a level are read at. -/
def below (g : Grammar) : Level → Level
  | .disjunction => .conjunction
  | .conjunction => .negation
  | .negation => .comparison
  | .comparison => if g.bitwiseAboveComparison then .bitOr else .additive
  | .bitOr => .bitAnd
  | .bitAnd => .additive
  | .additive => .multiplicative
  | .multiplicative => .signed
  | .signed | .power => .power

theorem rank_below_lt (g : Grammar) {level : Level} (h : level ≠ .power) :
    (g.below level).rank < level.rank := by
  cases g <;> cases level <;> simp_all [below, bitwiseAboveComparison, Level.rank]

/-- Whether a binary operator joins operands at a level. -/
def joins (g : Grammar) : Level → BinaryOp → Bool
  | .disjunction, op => op = (match g with | extended => .bitOr | strict => .or)
  | .conjunction, op => op = (match g with | extended => .bitAnd | strict => .and)
  | .comparison, op => op.isComparison
  | .bitOr, op => op = .bitOr
  | .bitAnd, op => op = .bitAnd
  | .additive, op => op = .add ∨ op = .sub
  | .multiplicative, op => op = .mul ∨ op = .div ∨ op = .floorDiv ∨ op = .mod
  | .negation, _ | .signed, _ | .power, _ => false

/-- The operator that a token spells between two operands of a level. -/
def infixOp? (g : Grammar) (level : Level) (token : Token) : Option BinaryOp :=
  (g.tokenOp? token).filter (g.joins level)

/-- The operator that a token spells before an operand of a level. -/
def prefixOp? (g : Grammar) : Level → Token → Option UnaryOp
  | .negation, .symbol .not => some g.negation
  | .signed, .symbol .minus => some .negate
  | .signed, .symbol .plus => some .plus
  | .signed, .symbol .tilde => some .invert
  | _, _ => none

end Grammar

/-- An operator, its position and the operand on its right. -/
structure Step where
  op : BinaryOp
  pos : Nat
  operand : Expr

namespace Expr

/-- Joins operands to the left. -/
def joinLeft (first : Expr) (steps : List Step) : Expr :=
  steps.foldl (fun (left : Expr) (step : Step) => binary step.op left step.operand step.pos) first

/-- The comparison of each operand with the one before it. -/
def adjacent (previous : Expr) : List Step → List Expr
  | [] => []
  | step :: steps => binary step.op previous step.operand step.pos :: adjacent step.operand steps

/-- A chain of comparisons holds when every adjacent pair compares as its operator says. -/
def joinComparisons (first : Expr) (steps : List Step) : Expr :=
  match adjacent first steps with
  | [] => first
  | comparison :: comparisons =>
    comparisons.foldl (fun (chain next : Expr) => binary .bitAnd chain next next.pos) comparison

/-- Joins the operands of a level. -/
def join (level : Level) (first : Expr) (steps : List Step) : Expr :=
  if level = .comparison then joinComparisons first steps else joinLeft first steps

/-- Applies indices to an expression, the first one innermost. -/
def applyIndices (base : Expr) (indices : List (Nat × Expr)) : Expr :=
  indices.foldl (fun (inner : Expr) (i : Nat × Expr) => index inner i.2 i.1) base

end Expr

end Formula
