import Formula.Expr.Level
import Formula.Proofs.Tree

/-! # Moved positions

Expressions with their positions moved. What joins expressions moves the positions that it takes
from them along. -/

namespace Formula

namespace Expr

variable (move : Nat → Nat)

mutual

/-- The expression with its positions moved. -/
def relocate : Expr → Expr
  | literal value pos => literal value (move pos)
  | name id pos => name id (move pos)
  | unary op operand pos => unary op operand.relocate (move pos)
  | binary op left right pos => binary op left.relocate right.relocate (move pos)
  | array elements pos => array (relocateItems elements) (move pos)
  | index base subscript pos => index base.relocate subscript.relocate (move pos)

def relocateItems : List Expr → List Expr
  | [] => []
  | element :: elements => element.relocate :: relocateItems elements

end

theorem relocateItems_eq_map (es : List Expr) : relocateItems move es = es.map (relocate move) := by
  induction es with
  | nil => rfl
  | cons e es ih => rw [relocateItems, ih, List.map_cons]

theorem pos_relocate (e : Expr) : (e.relocate move).pos = move e.pos := by
  cases e <;> rfl

theorem relocate_id (e : Expr) : e.relocate id = e := by
  induction e using tree_induction with
  | literal | name => rfl
  | unary op operand pos ih => rw [relocate, ih, id]
  | binary op left right pos ihleft ihright => rw [relocate, ihleft, ihright, id]
  | array elements pos ih =>
      rw [relocate, relocateItems_eq_map, List.map_congr_left ih, List.map_id', id]
  | index base subscript pos ihbase ihsubscript => rw [relocate, ihbase, ihsubscript, id]

end Expr

/-- The step with its positions moved. -/
def Step.relocate (move : Nat → Nat) (step : Step) : Step :=
  ⟨step.op, move step.pos, step.operand.relocate move⟩

namespace Expr

variable (move : Nat → Nat)

theorem joinLeft_relocate (first : Expr) (steps : List Step) :
    joinLeft (first.relocate move) (steps.map (Step.relocate move)) =
      (joinLeft first steps).relocate move := by
  induction steps generalizing first with
  | nil => rfl
  | cons step steps ih => exact ih (binary step.op first step.operand step.pos)

theorem adjacent_relocate (previous : Expr) (steps : List Step) :
    adjacent (previous.relocate move) (steps.map (Step.relocate move)) =
      (adjacent previous steps).map (relocate move) := by
  induction steps generalizing previous with
  | nil => rfl
  | cons step steps ih => exact congrArg _ (ih step.operand)

theorem joinComparisons_relocate (first : Expr) (steps : List Step) :
    joinComparisons (first.relocate move) (steps.map (Step.relocate move)) =
      (joinComparisons first steps).relocate move := by
  rw [joinComparisons, joinComparisons, adjacent_relocate]
  cases adjacent first steps with
  | nil => rfl
  | cons comparison comparisons =>
      simp only [List.map_cons]
      induction comparisons generalizing comparison with
      | nil => rfl
      | cons next comparisons ih =>
          rw [List.map_cons, List.foldl_cons, List.foldl_cons, pos_relocate]
          exact ih (binary .bitAnd comparison next next.pos)

theorem join_relocate (level : Level) (first : Expr) (steps : List Step) :
    join level (first.relocate move) (steps.map (Step.relocate move)) =
      (join level first steps).relocate move := by
  unfold join
  split
  · exact joinComparisons_relocate move first steps
  · exact joinLeft_relocate move first steps

theorem applyIndices_relocate (base : Expr) (indices : List (Nat × Expr)) :
    applyIndices (base.relocate move) (indices.map (Prod.map move (relocate move))) =
      (applyIndices base indices).relocate move := by
  induction indices generalizing base with
  | nil => rfl
  | cons i indices ih => exact ih (index base i.2 i.1)

end Expr

end Formula
