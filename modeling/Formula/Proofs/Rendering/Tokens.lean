import Formula.Proofs.Reading.Semantics
import Formula.Proofs.Tree

/-! # The tokens of a rendered expression

What tokens the structure of an expression asks for, and the text that they are written as. -/

namespace Formula

/-- The symbol that an operator is written with. -/
def UnaryOp.symbol : UnaryOp → Symbol
  | negate => .minus
  | plus => .plus
  | invert => .tilde
  | not => .not

def BinaryOp.symbol : BinaryOp → Symbol
  | add => .plus
  | sub => .minus
  | mul => .times
  | div => .divide
  | floorDiv => .floorDivide
  | pow => .power
  | mod => .percent
  | bitAnd => .ampersand
  | bitOr => .bar
  | and => .and
  | or => .or
  | equal => .equal
  | notEqual => .notEqual
  | less => .less
  | greater => .greater
  | lessEqual => .lessEqual
  | greaterEqual => .greaterEqual

/-- Behind the first part a separator stands before each part. -/
theorem intercalate_cons_eq {α β : Type} (separator : List α) (f : β → List α) (b : β)
    (bs : List β) : separator.intercalate ((b :: bs).map f) =
      f b ++ bs.flatMap fun c => separator ++ f c := by
  induction bs generalizing b with
  | nil => rw [List.map_singleton, List.intercalate_singleton, List.flatMap_nil, List.append_nil]
  | cons c bs ih =>
      rw [List.map_cons, List.map_cons, List.intercalate_cons_cons, ← List.map_cons, ih c,
        List.flatMap_cons, List.append_assoc, List.append_assoc]

namespace Expr

mutual

/-- The tokens of the rendered expression. -/
@[simp] def tokens : Expr → List Token
  | literal value _ => [value.token]
  | name id _ => [.name id]
  | unary op operand _ =>
    [.symbol .openParen] ++ [.symbol op.symbol] ++ operand.tokens ++ [.symbol .closeParen]
  | binary op left right _ =>
    [.symbol .openParen] ++ left.tokens ++ [.symbol op.symbol] ++ right.tokens ++
      [.symbol .closeParen]
  | array [] _ => [.symbol .openBracket] ++ [.symbol .closeBracket]
  | array (element :: elements) _ =>
    [.symbol .openBracket] ++ element.tokens ++ tokensMore elements ++ [.symbol .closeBracket]
  | index base subscript _ =>
    base.tokens ++ [.symbol .openBracket] ++ subscript.tokens ++ [.symbol .closeBracket]

@[simp] def tokensMore : List Expr → List Token
  | [] => []
  | element :: elements => [.symbol .comma] ++ element.tokens ++ tokensMore elements

end

/-! ## Texts -/

/-- The text of the elements of an array after the first one. -/
@[simp] def textMore : List Expr → List Char
  | [] => []
  | element :: elements => [',', ' '] ++ element.render.toList ++ textMore elements

theorem textMore_eq (es : List Expr) :
    textMore es = es.flatMap fun e => [',', ' '] ++ e.render.toList := by
  induction es with
  | nil => rfl
  | cons e es ih => rw [textMore, List.flatMap_cons, ih]

theorem tokensMore_eq (es : List Expr) :
    tokensMore es = es.flatMap fun e => [.symbol .comma] ++ e.tokens := by
  induction es with
  | nil => rfl
  | cons e es ih => rw [tokensMore, List.flatMap_cons, ih]

theorem renderItems_eq (es : List Expr) : renderItems es = es.map render := by
  induction es with
  | nil => rfl
  | cons e es ih => rw [renderItems, List.map_cons, ih]

theorem toList_render_unary (op : UnaryOp) (operand : Expr) (pos : Nat) :
    (unary op operand pos).render.toList =
      ['('] ++ op.spelling.toList ++ operand.render.toList ++ [')'] := by
  rw [render, String.toList_append, String.toList_append, String.toList_append]
  rfl

theorem toList_render_binary (op : BinaryOp) (left right : Expr) (pos : Nat) :
    (binary op left right pos).render.toList =
      ['('] ++ left.render.toList ++ ([' '] ++ op.spelling.toList ++ [' ']) ++
        right.render.toList ++ [')'] := by
  rw [render]
  simp only [String.toList_append, List.append_assoc]
  rfl

theorem toList_render_empty (pos : Nat) : (array [] pos).render.toList = ['[', ']'] := by
  rw [render, renderItems, String.intercalate_nil, String.toList_append, String.toList_append]
  rfl

theorem toList_render_array (element : Expr) (elements : List Expr) (pos : Nat) :
    (array (element :: elements) pos).render.toList =
      ['['] ++ element.render.toList ++ textMore elements ++ [']'] := by
  rw [render, String.toList_append, String.toList_append, String.toList_intercalate]
  have hcomma : (", ").toList = [',', ' '] := rfl
  rw [hcomma, renderItems_eq, List.map_map, intercalate_cons_eq, textMore_eq, ← List.append_assoc]
  rfl

theorem toList_render_index (base subscript : Expr) (pos : Nat) :
    (index base subscript pos).render.toList =
      base.render.toList ++ ['['] ++ subscript.render.toList ++ [']'] := by
  rw [render, String.toList_append, String.toList_append, String.toList_append]
  rfl

end Expr

end Formula
