import Formula.Operator
import Formula.Token

/-! # Grammars

The two grammars read the same tokens. They differ in what the keywords mean, in where `&` and `|`
bind, and in whether `//` is an operator. -/

namespace Formula

inductive Grammar where
  /-- The keywords spell the elementwise operators, which bind below comparisons. -/
  | extended
  /-- The keywords look at whole truth values, and `&` and `|` bind above comparisons. -/
  | strict
  deriving DecidableEq, Repr

namespace Grammar

/-- Every grammar, in the order of their names. -/
def all : List Grammar := [extended, strict]

def name : Grammar → String
  | extended => "extended"
  | strict => "strict"

def supportsFloorDivision : Grammar → Bool
  | extended => false
  | strict => true

def bitwiseAboveComparison : Grammar → Bool
  | extended => false
  | strict => true

/-- Whether expressions of the grammar may use the operator. -/
def supports (g : Grammar) (op : BinaryOp) : Bool := op ≠ .floorDiv || g.supportsFloorDivision

/-- The binary operator that a symbol spells. -/
def binaryOp? (g : Grammar) : Symbol → Option BinaryOp
  | .plus => some .add
  | .minus => some .sub
  | .times => some .mul
  | .divide => some .div
  | .floorDivide => some .floorDiv
  | .percent => some .mod
  | .power => some .pow
  | .ampersand => some .bitAnd
  | .bar => some .bitOr
  | .less => some .less
  | .greater => some .greater
  | .lessEqual => some .lessEqual
  | .greaterEqual => some .greaterEqual
  | .equal => some .equal
  | .notEqual => some .notEqual
  | .and => some (match g with | extended => .bitAnd | strict => .and)
  | .or => some (match g with | extended => .bitOr | strict => .or)
  | _ => none

/-- The binary operator that a token spells. -/
def tokenOp? (g : Grammar) : Token → Option BinaryOp
  | .symbol s => g.binaryOp? s
  | _ => none

/-- The operator that the keyword `not` spells. -/
def negation : Grammar → UnaryOp
  | extended => .invert
  | strict => .not

end Grammar

end Formula
