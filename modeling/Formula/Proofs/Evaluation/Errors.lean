import Formula.Proofs.Accelerated.Correctness
import Formula.Proofs.Evaluation.Faults
import Formula.Proofs.Scope.FirstUse
import Formula.Proofs.Tree

/-! # Errors of a run

A compiled expression has a value for each of its names, so that what fails when it is run is an
operation on values: the error is one that values can cause, and it stands at a node of the tree. -/

namespace Formula

namespace Expr

variable {e sub : Expr} {terms : Bindings} {division : Division}

/-- All names of the expression have values. -/
def Closed (terms : Bindings) (e : Expr) : Prop :=
  ∀ use ∈ e.names, ∃ value, terms.get? use.1 = some value

theorem Closed.child (h : e.Closed terms) (hsub : sub ∈ e.children) : sub.Closed terms :=
  fun use huse => h use (names_subset_of_child hsub huse)

/-- The error stands at a node of the expression, and values can cause it. -/
structure Raises (e : Expr) (error : RuntimeError) : Prop where
  located : ∃ node ∈ e.nodes, node.pos = error.pos
  cause : error.fault.OfValues

theorem failsWith_child {α : Type} {x : Except RuntimeError α} (hsub : sub ∈ e.children)
    (h : FailsWith sub.Raises x) : FailsWith e.Raises x := by
  refine h.mono fun error herror => ⟨?_, herror.cause⟩
  obtain ⟨node, hnode, hpos⟩ := herror.located
  exact ⟨node, nodes_subset_of_child hsub hnode, hpos⟩

theorem raises_at {error : RuntimeError} (h : error.pos = e.pos ∧ error.fault.OfValues) :
    e.Raises error :=
  ⟨⟨e, e.mem_nodes_self, h.1.symm⟩, h.2⟩

/-- An operation raises its error at its own node. -/
theorem failsWith_locate {α : Type} {x : Except Fault α} (h : FailsWith Fault.OfValues x)
    (e : Expr) : FailsWith e.Raises (Fault.locate e.pos x) :=
  (h.locate e.pos).mono fun _ => raises_at

/-! ## Evaluation of the tree -/

theorem failsWith_evalItems {P : RuntimeError → Prop} {elements : List Expr}
    (h : ∀ e ∈ elements, FailsWith P (e.eval terms division)) :
    FailsWith P (evalItems terms division elements) := by
  induction elements with
  | nil => exact .ok _
  | cons e elements ih =>
      rw [List.forall_mem_cons] at h
      rw [evalItems]
      exact h.1.bind fun _ _ => (ih h.2).bind fun _ _ => .ok _

theorem failsWith_eval (h : e.Closed terms) : FailsWith e.Raises (e.eval terms division) := by
  induction e using tree_induction with
  | literal value pos => exact .ok _
  | name id pos =>
      obtain ⟨value, hvalue⟩ := h (id, pos) (List.mem_singleton.mpr rfl)
      rw [eval, Bindings.term_eq_ok.mpr hvalue]
      exact .ok _
  | unary op operand pos ih =>
      have hoperand : operand ∈ (unary op operand pos).children := by simp
      refine (failsWith_child hoperand (ih (h.child hoperand))).bind fun v _ => ?_
      exact failsWith_locate (Operation.failsWith_unary op v) (unary op operand pos)
  | binary op left right pos ihl ihr =>
      have hleft : left ∈ (binary op left right pos).children := by simp
      have hright : right ∈ (binary op left right pos).children := by simp
      have hevalRight := failsWith_child hright (ihr (h.child hright))
      rw [eval]
      refine (failsWith_child hleft (ihl (h.child hleft))).bind fun u _ => .ite ?_ ?_
      · refine .bind ?_ fun decided _ => .ite (.ok _) hevalRight
        exact failsWith_locate Operation.failsWith_decidedByLeft (binary op left right pos)
      · refine hevalRight.bind fun w _ => ?_
        exact failsWith_locate (Operation.failsWith_binary division op u w)
          (binary op left right pos)
  | array elements pos ih =>
      rw [eval]
      refine (failsWith_evalItems fun e he => ?_).bind fun _ _ => .ok _
      exact failsWith_child (e := array elements pos) he (ih e he (h.child he))
  | index base subscript pos ihb ihs =>
      have hbase : base ∈ (index base subscript pos).children := by simp
      have hsubscript : subscript ∈ (index base subscript pos).children := by simp
      rw [eval]
      refine (failsWith_child hbase (ihb (h.child hbase))).bind fun v _ => ?_
      refine (failsWith_child hsubscript (ihs (h.child hsubscript))).bind fun wanted _ => ?_
      exact failsWith_locate (v.failsWith_index wanted) (index base subscript pos)

end Expr

/-! ## Lowering and rows -/

namespace Program

open Formula.Expr

variable {e : Expr} {terms : Bindings} {division : Division}

theorem failsWith_addValue (p : Program) (value : Value) (pos : Nat) :
    FailsWith (fun error => error.pos = pos ∧ error.fault.OfValues) (p.addValue value pos) := by
  cases value with
  | array items =>
      rw [addValue]
      refine .ite ?_ (.error ⟨rfl, trivial⟩)
      dsimp only
      split
      · exact .ok _
      · exact .ite (.ok _) (.error ⟨rfl, trivial⟩)
  | _ => exact .ok _

theorem failsWith_lower (h : e.Closed terms) (p : Program) :
    FailsWith e.Raises (lower terms division e p) := by
  induction e using operand_induction generalizing p with
  | operand e he =>
      rw [lower_of_isOperand he]
      refine (failsWith_eval h).bind fun value _ => ?_
      exact (failsWith_addValue p value e.pos).mono fun _ => raises_at
  | unary op operand pos ih =>
      have hoperand : operand ∈ (unary op operand pos).children := by simp
      refine .ite (.error (raises_at ⟨rfl, trivial⟩)) ?_
      exact (failsWith_child hoperand (ih (h.child hoperand) p)).bind fun _ _ => .ok _
  | binary op left right pos ihl ihr =>
      have hleft : left ∈ (binary op left right pos).children := by simp
      have hright : right ∈ (binary op left right pos).children := by simp
      refine .ite (.error (raises_at ⟨rfl, trivial⟩)) ?_
      refine (failsWith_child hleft (ihl (h.child hleft) p)).bind fun lowered _ => ?_
      exact (failsWith_child hright (ihr (h.child hright) lowered)).bind fun _ _ => .ok _

/-- On a row, the operands have values and the instructions are those of nodes of the tree. -/
theorem failsWith_combine (h : e.Closed terms) (row : Option Nat) :
    FailsWith e.Raises (e.combine (rowValue terms division row) division) := by
  induction e using operand_induction with
  | operand e he =>
      rw [combine_of_isOperand he]
      exact (failsWith_eval h).bind fun _ _ => .ok _
  | unary op operand pos ih =>
      have hoperand : operand ∈ (unary op operand pos).children := by simp
      refine (failsWith_child hoperand (ih (h.child hoperand))).bind fun v _ => ?_
      exact failsWith_locate (Operation.failsWith_unary op v) (unary op operand pos)
  | binary op left right pos ihl ihr =>
      have hleft : left ∈ (binary op left right pos).children := by simp
      have hright : right ∈ (binary op left right pos).children := by simp
      refine (failsWith_child hleft (ihl (h.child hleft))).bind fun u _ => ?_
      refine (failsWith_child hright (ihr (h.child hright))).bind fun w _ => ?_
      exact failsWith_locate (Operation.failsWith_binary division op u w)
        (binary op left right pos)

end Program

/-! ## Both engines -/

namespace Engine

theorem failsWith_run {engine : Engine} (hbuiltin : engine = .accelerated ∨ engine = .interpreted)
    {c : Compiled} (h : c.tree.Closed c.terms) : FailsWith c.tree.Raises (engine.run c) := by
  rcases hbuiltin with rfl | rfl
  · rw [accelerated_run]
    refine (Program.failsWith_lower h {}).bind fun p hp => ?_
    cases hrows : p.rows with
    | none =>
        rw [Program.value_of_lower_of_none hp hrows]
        exact Expr.failsWith_eval h
    | some n =>
        rw [Program.value_of_lower_of_some hp hrows]
        refine .bind (.mapM fun r _ => ?_) fun _ _ => .ok _
        exact Program.failsWith_combine h (some r)
  · rw [interpreted_run]
    exact Expr.failsWith_eval h

end Engine

namespace Compiled

variable {source name : String} {grammar : Grammar} {scope : Scope} {division : Division}
  {c : Compiled}

/-- Compiling binds every name of the tree. -/
theorem closed_of_ofText (h : ofText source grammar scope name division = .ok c) :
    c.tree.Closed c.terms := by
  unfold ofText at h
  split at h
  · cases h
  · obtain ⟨terms, hterms, heq⟩ := bind_eq_ok.mp h
    cases heq
    intro use huse
    obtain ⟨hbound, -⟩ := foldlM_bind_eq_ok hterms
    obtain ⟨value, -, hvalue⟩ :=
      hbound use.1 (mem_firstUses_names.mpr (List.mem_map_of_mem huse))
    exact ⟨value, hvalue⟩

/-- What fails when a compiled expression is run on a built-in engine fails at a node of its tree,
and neither for a name without a value nor for a malformed program. -/
theorem error_of_run (hc : ofText source grammar scope name division = .ok c) {engine : Engine}
    (hbuiltin : engine = .accelerated ∨ engine = .interpreted) {error : RuntimeError}
    (h : engine.run c = .error error) :
    (∃ node ∈ c.tree.nodes, node.pos = error.pos) ∧
      error.fault.message ≠ (Fault.typeMismatch .malformedProgram).message ∧
      ∀ id, error.fault ≠ .unknownVariable id := by
  have hraises := Engine.failsWith_run hbuiltin (closed_of_ofText hc) error h
  exact ⟨hraises.located, hraises.cause.message_ne, hraises.cause.ne_unknownVariable⟩

/-- The text `b < c < a`, where the second element of `a` is no number. -/
def unorderedColumn : Compiled where
  source := "b < c < a"
  tree := sharedOperand
  grammar := .strict
  engine := "accelerated"
  division := .exact
  names := ["b", "c", "a"]
  terms := .ofList [("b", .integer 1), ("c", .integer 2),
    ("a", .array [.integer 3, .text "x"])]
  lookup := Scope.resolve {
    locals := some (.ofList [("b", .integer 1), ("c", .integer 2),
      ("a", .array [.integer 3, .text "x"])]) }
  resolverCount := 0

/-- The error of the second row stands at the second comparison. -/
theorem error_of_run_unorderedColumn :
    ofText "b < c < a" .strict { locals := some unorderedColumn.terms } "accelerated" .exact =
        .ok unorderedColumn ∧
      Engine.accelerated.run unorderedColumn =
        .error ⟨.typeMismatch (.unordered .less .int .text), 6⟩ ∧
      ∃ node ∈ sharedOperand.nodes, node.pos = 6 := by
  have hc : ofText "b < c < a" .strict { locals := some unorderedColumn.terms } "accelerated"
      .exact = .ok unorderedColumn := by
    rw [ofText_of_tree ofText_sharedOperand]
    rfl
  have hrun : Engine.accelerated.run unorderedColumn =
      .error ⟨.typeMismatch (.unordered .less .int .text), 6⟩ := rfl
  exact ⟨hc, hrun, (error_of_run hc (.inl rfl) hrun).1⟩

end Compiled

end Formula
