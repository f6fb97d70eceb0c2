import Formula.Expr

/-! # Trees

The subexpressions of an expression, and the expression without its positions. -/

namespace Formula.Expr

mutual

/-- The expression and all its subexpressions. -/
@[simp] def nodes : Expr → List Expr
  | literal value pos => [literal value pos]
  | name id pos => [name id pos]
  | unary op operand pos => unary op operand pos :: operand.nodes
  | binary op left right pos => binary op left right pos :: (left.nodes ++ right.nodes)
  | array elements pos => array elements pos :: nodesItems elements
  | index base subscript pos => index base subscript pos :: (base.nodes ++ subscript.nodes)

@[simp] def nodesItems : List Expr → List Expr
  | [] => []
  | element :: elements => element.nodes ++ nodesItems elements

end

mutual

/-- The expression with every position replaced by zero: two expressions are the same up to
positions when these are equal. -/
@[simp] def unplaced : Expr → Expr
  | literal value _ => literal value 0
  | name id _ => name id 0
  | unary op operand _ => unary op operand.unplaced 0
  | binary op left right _ => binary op left.unplaced right.unplaced 0
  | array elements _ => array (unplacedItems elements) 0
  | index base subscript _ => index base.unplaced subscript.unplaced 0

@[simp] def unplacedItems : List Expr → List Expr
  | [] => []
  | element :: elements => element.unplaced :: unplacedItems elements

end

@[elab_as_elim]
theorem tree_induction {motive : Expr → Prop}
    (literal : ∀ value pos, motive (literal value pos)) (name : ∀ id pos, motive (name id pos))
    (unary : ∀ op operand pos, motive operand → motive (unary op operand pos))
    (binary : ∀ op left right pos, motive left → motive right →
      motive (binary op left right pos))
    (array : ∀ elements pos, (∀ e ∈ elements, motive e) → motive (array elements pos))
    (index : ∀ base subscript pos, motive base → motive subscript →
      motive (index base subscript pos)) (e : Expr) : motive e := by
  refine Expr.rec literal name unary binary array index ?_ ?_ e
  · intro e he
    cases he
  · intro head tail ihhead ihtail e he
    rcases List.mem_cons.mp he with rfl | he
    · exact ihhead
    · exact ihtail e he

/-! ## Properties of all nodes -/

def AllNodes (P : Expr → Prop) (e : Expr) : Prop := ∀ node ∈ e.nodes, P node

variable {P : Expr → Prop}

theorem mem_nodesItems {node : Expr} {es : List Expr} :
    node ∈ nodesItems es ↔ ∃ e ∈ es, node ∈ e.nodes := by
  induction es with
  | nil => simp only [nodesItems, List.not_mem_nil, false_and, exists_false]
  | cons e es ih =>
      simp only [nodesItems, List.mem_append, ih, List.mem_cons, or_and_right, exists_or,
        exists_eq_left]

theorem AllNodes.mono {Q : Expr → Prop} {e : Expr} (h : e.AllNodes P)
    (hsub : ∀ node, P node → Q node) : e.AllNodes Q := by
  intro node hnode
  exact hsub node (h node hnode)

theorem allNodes_literal {value : Literal} {pos : Nat} :
    (literal value pos).AllNodes P ↔ P (literal value pos) := by
  rw [AllNodes, nodes, List.forall_mem_singleton]

theorem allNodes_name {id : String} {pos : Nat} :
    (name id pos).AllNodes P ↔ P (name id pos) := by
  rw [AllNodes, nodes, List.forall_mem_singleton]

theorem allNodes_unary {op : UnaryOp} {operand : Expr} {pos : Nat} :
    (unary op operand pos).AllNodes P ↔ P (unary op operand pos) ∧ operand.AllNodes P := by
  rw [AllNodes, nodes, List.forall_mem_cons]
  rfl

theorem allNodes_binary {op : BinaryOp} {left right : Expr} {pos : Nat} :
    (binary op left right pos).AllNodes P ↔
      P (binary op left right pos) ∧ left.AllNodes P ∧ right.AllNodes P := by
  rw [AllNodes, nodes, List.forall_mem_cons, List.forall_mem_append]
  rfl

theorem allNodes_array {elements : List Expr} {pos : Nat} :
    (array elements pos).AllNodes P ↔
      P (array elements pos) ∧ ∀ e ∈ elements, e.AllNodes P := by
  rw [AllNodes, nodes, List.forall_mem_cons]
  refine and_congr_right fun _ => ?_
  constructor
  · intro h e he node hnode
    exact h node (mem_nodesItems.mpr ⟨e, he, hnode⟩)
  · intro h node hnode
    obtain ⟨e, he, hnode⟩ := mem_nodesItems.mp hnode
    exact h e he node hnode

theorem allNodes_index {base subscript : Expr} {pos : Nat} :
    (index base subscript pos).AllNodes P ↔
      P (index base subscript pos) ∧ base.AllNodes P ∧ subscript.AllNodes P := by
  rw [AllNodes, nodes, List.forall_mem_cons, List.forall_mem_append]
  rfl

/-! ## Direct subexpressions -/

/-- The expressions that an expression is directly made of. -/
@[simp] def children : Expr → List Expr
  | literal _ _ | name _ _ => []
  | unary _ operand _ => [operand]
  | binary _ left right _ => [left, right]
  | array elements _ => elements
  | index base subscript _ => [base, subscript]

variable {e sub : Expr}

theorem mem_nodes_self (e : Expr) : e ∈ e.nodes := by
  cases e <;> simp

theorem mem_namesItems {use : String × Nat} {es : List Expr} :
    use ∈ namesItems es ↔ ∃ e ∈ es, use ∈ e.names := by
  induction es with
  | nil => simp [namesItems]
  | cons e es ih => simp [namesItems, ih]

theorem nodes_subset_of_child (h : sub ∈ e.children) : sub.nodes ⊆ e.nodes := by
  intro node hnode
  cases e with
  | literal | name => cases h
  | unary op operand pos =>
      obtain rfl := List.mem_singleton.mp h
      simp [hnode]
  | binary op left right pos =>
      rw [children, List.mem_cons, List.mem_singleton] at h
      rcases h with rfl | rfl <;> simp [hnode]
  | array elements pos =>
      exact List.mem_cons_of_mem _ (mem_nodesItems.mpr ⟨sub, h, hnode⟩)
  | index base subscript pos =>
      rw [children, List.mem_cons, List.mem_singleton] at h
      rcases h with rfl | rfl <;> simp [hnode]

theorem names_subset_of_child (h : sub ∈ e.children) : sub.names ⊆ e.names := by
  intro use huse
  cases e with
  | literal | name => cases h
  | unary op operand pos =>
      obtain rfl := List.mem_singleton.mp h
      exact huse
  | binary op left right pos =>
      rw [children, List.mem_cons, List.mem_singleton] at h
      rcases h with rfl | rfl <;> simp [names, huse]
  | array elements pos => exact mem_namesItems.mpr ⟨sub, h, huse⟩
  | index base subscript pos =>
      rw [children, List.mem_cons, List.mem_singleton] at h
      rcases h with rfl | rfl <;> simp [names, huse]

end Formula.Expr
