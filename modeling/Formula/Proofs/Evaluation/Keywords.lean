import Formula.Expr.Eval
import Formula.Proofs.Reading.Chains

/-! # Chains of keywords

Operands joined by `and`, or by `or`, are evaluated from left to right up to the first one that
decides. Although the chain is nested to the left, so that the value that decides is tested again
at every keyword behind it, it is the value of the chain. -/

namespace Formula

open Operation

/-- The outcome is a value that leaves the decision to the next operand: a true one before `and`, a
false one before `or`. -/
def Passes (op : BinaryOp) (outcome : Except RuntimeError Value) : Prop :=
  ∃ v, outcome = .ok v ∧ v.truth = .ok (op = .and)

/-- What a chain of operands amounts to, given the outcome of each operand that has the keyword
behind it, with the position of the keyword, and the outcome of the last operand. -/
inductive ShortCircuits (op : BinaryOp) :
    List (Except RuntimeError Value × Nat) → Except RuntimeError Value →
      Except RuntimeError Value → Prop where
  | last {tested : List (Except RuntimeError Value × Nat)} {last : Except RuntimeError Value}
      (h : ∀ x ∈ tested, Passes op x.1) : ShortCircuits op tested last last
  | decided {before after : List (Except RuntimeError Value × Nat)}
      {last : Except RuntimeError Value} {v : Value} {pos : Nat}
      (h : ∀ x ∈ before, Passes op x.1) (hv : v.truth = .ok (op = .or)) :
      ShortCircuits op (before ++ (.ok v, pos) :: after) last (.ok v)
  | fails {before after : List (Except RuntimeError Value × Nat)}
      {last : Except RuntimeError Value} {e : RuntimeError} {pos : Nat}
      (h : ∀ x ∈ before, Passes op x.1) :
      ShortCircuits op (before ++ (.error e, pos) :: after) last (.error e)
  | ambiguous {before after : List (Except RuntimeError Value × Nat)}
      {last : Except RuntimeError Value} {items : List Value} {pos : Nat}
      (h : ∀ x ∈ before, Passes op x.1) :
      ShortCircuits op (before ++ (.ok (.array items), pos) :: after) last
        (.error ⟨.ambiguousTruth, pos⟩)

/-! ## One more keyword -/

section

variable {op : BinaryOp} {v : Value}

theorem truth_cases (hop : op = .and ∨ op = .or) (v : Value) :
    v.truth = .ok (op = .or) ∨ v.truth = .ok (op = .and) ∨ ∃ items, v = .array items := by
  have hbool (b : Bool) : b = decide (op = .or) ∨ b = decide (op = .and) := by
    rcases hop with rfl | rfl <;> cases b <;> decide
  cases v with
  | array items => exact .inr (.inr ⟨items, rfl⟩)
  | _ => exact (hbool _).imp (congrArg Except.ok) fun h => .inl (congrArg Except.ok h)

theorem decidedByLeft_of_truth (hop : op = .and ∨ op = .or) (h : v.truth = .ok (op = .or)) :
    decidedByLeft op v = .ok true := by
  rcases hop with rfl | rfl <;> simp [decidedByLeft, h]

theorem decidedByLeft_of_passes (hop : op = .and ∨ op = .or) (h : v.truth = .ok (op = .and)) :
    decidedByLeft op v = .ok false := by
  rcases hop with rfl | rfl <;> simp [decidedByLeft, h]

end

/-- The value that decides a chain decides the chain with one more operand, and so do its errors.
Otherwise the last operand is tested where the keyword behind it stands. -/
theorem ShortCircuits.snoc {op : BinaryOp} {tested : List (Except RuntimeError Value × Nat)}
    {last outcome : Except RuntimeError Value} (h : ShortCircuits op tested last outcome)
    (hop : op = .and ∨ op = .or) (next : Except RuntimeError Value) (pos : Nat) :
    ShortCircuits op (tested ++ [(last, pos)]) next (do
      let v ← outcome
      if ← Fault.locate pos (decidedByLeft op v) then return v else next) := by
  cases h with
  | last h =>
      cases last with
      | error e => exact fails h
      | ok v =>
          rcases truth_cases hop v with hv | hv | ⟨items, rfl⟩
          · rw [ok_bind, decidedByLeft_of_truth hop hv]
            exact decided h hv
          · rw [ok_bind, decidedByLeft_of_passes hop hv]
            exact .last (List.forall_mem_append.mpr ⟨h, List.forall_mem_singleton.mpr ⟨v, rfl, hv⟩⟩)
          · exact ambiguous h
  | @decided before after _ v pos' h hv =>
      rw [List.append_assoc, ok_bind, decidedByLeft_of_truth hop hv]
      exact decided h hv
  | @fails before after _ e pos' h =>
      rw [List.append_assoc]
      exact fails h
  | @ambiguous before after _ items pos' h =>
      rw [List.append_assoc]
      exact ambiguous h

/-! ## The chain -/

namespace Expr

/-- The last operand of a chain. -/
def lastOperand (first : Expr) (steps : List Step) : Expr :=
  (steps.map Step.operand).getLastD first

section

variable (terms : Bindings) (division : Division) (first : Expr) (steps : List Step)

/-- The outcomes of the operands of a chain that have an operator behind them, with its position. -/
def tested : List (Except RuntimeError Value × Nat) :=
  ((first :: steps.map Step.operand).map (·.eval terms division)).zip (steps.map Step.pos)

theorem tested_nil : tested terms division first [] = [] := rfl

theorem tested_cons (step : Step) :
    tested terms division first (step :: steps) =
      (first.eval terms division, step.pos) :: tested terms division step.operand steps :=
  rfl

theorem lastOperand_cons (step : Step) :
    lastOperand first (step :: steps) = lastOperand step.operand steps :=
  List.getLastD_cons

end

theorem eval_logic {op : BinaryOp} (hop : op = .and ∨ op = .or) (terms : Bindings)
    (division : Division) (left right : Expr) (pos : Nat) :
    (binary op left right pos).eval terms division = (do
      let v ← left.eval terms division
      if ← Fault.locate pos (decidedByLeft op v) then return v
      else right.eval terms division) := by
  rw [eval]
  simp only [if_pos hop]

section

variable {op : BinaryOp} {level : Level} (hop : op = .and ∨ op = .or)
include hop

/-- The chain with more operands, one after the other. -/
theorem shortCircuits_joinLeft {terms : Bindings} {division : Division} {chain last : Expr}
    {made : List (Except RuntimeError Value × Nat)} {steps : List Step}
    (h : ShortCircuits op made (last.eval terms division) (chain.eval terms division))
    (hops : ∀ step ∈ steps, step.op = op) :
    ShortCircuits op (made ++ tested terms division last steps)
      ((lastOperand last steps).eval terms division)
      ((joinLeft chain steps).eval terms division) := by
  induction steps generalizing made chain last with
  | nil =>
      rw [tested_nil, List.append_nil]
      exact h
  | cons step steps ih =>
      obtain ⟨rfl, hops⟩ := List.forall_mem_cons.mp hops
      have hnext := h.snoc hop (step.operand.eval terms division) step.pos
      rw [← eval_logic hop] at hnext
      rw [tested_cons, List.append_cons, lastOperand_cons]
      exact ih hnext hops

/-- The keywords join operands of levels of the strict grammar, to the left. -/
theorem join_of_keyword (hjoins : Grammar.strict.joins level op = true) :
    Grammar.strict.Has level ∧ level ≠ .power ∧ join level = joinLeft := by
  rcases hop with rfl | rfl <;> cases level <;>
    first | exact absurd hjoins (by decide) | exact ⟨trivial, Level.noConfusion, rfl⟩

theorem eq_of_joins {op' : BinaryOp} {s : Symbol} (hjoins : Grammar.strict.joins level op = true)
    (h : Grammar.strict.Between level s op') :
    op' = op := by
  rcases hop with rfl | rfl <;> cases h <;> first | rfl | contradiction

/-- A text that is, under the strict grammar, a chain of operands joined by `and`, or by `or`, is
read as an expression that stops at the first operand that decides. -/
theorem eval_keywords {source : String} {used rest : List Lexeme} {first : Expr}
    {steps : List Step} (terms : Bindings) (division : Division)
    (hjoins : Grammar.strict.joins level op = true)
    (hsource : Lexeme.ofText source = .ok (used ++ rest))
    (hfirst : Derives .strict (.level (Grammar.strict.below level)) used first)
    (hsteps : Follows .strict level (Grammar.strict.below level) rest steps) :
    ∃ t, Expr.ofText .strict source = .ok t ∧
      ShortCircuits op (tested terms division first steps)
        ((lastOperand first steps).eval terms division) (t.eval terms division) := by
  obtain ⟨hlevel, hne, hjoin⟩ := join_of_keyword hop hjoins
  refine ⟨_, ofText_of_follows hlevel hne hsource hfirst hsteps, ?_⟩
  rw [hjoin]
  have hstart : ShortCircuits op [] (first.eval terms division) (first.eval terms division) :=
    .last fun x hx => nomatch hx
  exact shortCircuits_joinLeft hop hstart (hsteps.forall_op fun _ _ => eq_of_joins hop hjoins)

end

def zeroSecond : Bindings := .ofList [("x", .integer 1), ("y", .integer 0)]

/-- The operands behind the one that decides need not have a value. -/
theorem eval_keywords_skipped :
    (BinaryOp.and = .and ∨ BinaryOp.and = .or) ∧ Grammar.strict.joins .conjunction .and = true ∧
      Lexeme.ofText "x and y and z" = .ok ([⟨.name "x", 0⟩] ++
        [⟨.symbol .and, 2⟩, ⟨.name "y", 6⟩, ⟨.symbol .and, 8⟩, ⟨.name "z", 12⟩]) ∧
      ∃ t, Expr.ofText .strict "x and y and z" = .ok t ∧
        ShortCircuits .and [(.ok (.integer 1), 2), (.ok (.integer 0), 8)]
          (.error ⟨.unknownVariable "z", 12⟩)
          (t.eval zeroSecond .exact) := by
  have hsource : Lexeme.ofText "x and y and z" = .ok ([⟨.name "x", 0⟩] ++
      [⟨.symbol .and, 2⟩, ⟨.name "y", 6⟩, ⟨.symbol .and, 8⟩, ⟨.name "z", 12⟩]) := by
    rw [Lexeme.ofText_eq_readWithin]
    rfl
  have hoperand (id : String) (pos : Nat) :
      Derives .strict (.level (Grammar.strict.below .conjunction)) [⟨.name id, pos⟩]
        (.name id pos) :=
    Derives.ofIndexed (.primary (.name id pos)) trivial
  have hsteps : Follows .strict .conjunction (Grammar.strict.below .conjunction)
      [⟨.symbol .and, 2⟩, ⟨.name "y", 6⟩, ⟨.symbol .and, 8⟩, ⟨.name "z", 12⟩]
      [⟨.and, 2, .name "y" 6⟩, ⟨.and, 8, .name "z" 12⟩] :=
    .cons (.and rfl) (hoperand "y" 6) (.cons (.and rfl) (hoperand "z" 12) .nil)
  exact ⟨.inl rfl, rfl, hsource,
    eval_keywords (.inl rfl) zeroSecond .exact rfl hsource (hoperand "x" 0) hsteps⟩

end Expr

end Formula
