import Formula.Proofs.Accelerated.Correctness
import Formula.Proofs.Scope.FirstUse

/-! # Empty columns

Without rows the program is never run, so that the accelerated engine misses what fails in a part of
the expression that no column enters. The evaluation of the tree does not. -/

namespace Formula

open Value

namespace Operation

/-- An operation without elements to work on gives no elements. -/
theorem unary_empty {op : UnaryOp} (hop : op ≠ .not) : unary op (array []) = .ok (array []) := by
  rw [unary_eq_mapLeaves hop]
  rfl

theorem binary_empty {division : Division} {op : BinaryOp} (hop : op ≠ .and ∧ op ≠ .or)
    {u w : Value} (hu : u.isScalar = true ∨ u = array []) (hw : w.isScalar = true ∨ w = array [])
    (h : u = array [] ∨ w = array []) : binary division op u w = .ok (array []) := by
  rw [binary_eq_broadcast hop]
  rcases hu with hu | rfl
  · obtain rfl : w = array [] := by
      rcases h with rfl | rfl
      · cases hu
      · rfl
    rw [broadcast_of_isScalar_left hu]
    rfl
  · rcases hw with hw | rfl
    · rw [broadcast_of_isScalar_right hw]
      rfl
    · rfl

end Operation

namespace Expr

/-- The subexpressions that are not inside an operand, and the operands. -/
def parts : Expr → List Expr
  | unary op operand pos => unary op operand pos :: operand.parts
  | binary op left right pos => binary op left right pos :: (left.parts ++ right.parts)
  | operand => [operand]

theorem parts_of_isOperand {e : Expr} (h : e.isOperand = true) : e.parts = [e] := by
  cases e <;> first | rfl | cases h

theorem mem_parts_of_mem_operands {e operand : Expr} (h : operand ∈ e.operands) :
    operand ∈ e.parts := by
  induction e using operand_induction with
  | operand e he =>
      rw [parts_of_isOperand he]
      rwa [operands_of_isOperand he] at h
  | unary op e pos ih => exact List.mem_cons_of_mem _ (ih h)
  | binary op left right pos ihl ihr =>
      refine List.mem_cons_of_mem _ (List.mem_append.mpr ?_)
      rcases List.mem_append.mp h with h | h
      · exact .inl (ihl h)
      · exact .inr (ihr h)

variable {terms : Bindings} {division : Division}

/-- No operand of the expression is an array. -/
def WithoutColumns (terms : Bindings) (division : Division) (e : Expr) : Prop :=
  ∀ operand ∈ e.operands, ∀ v, operand.eval terms division = .ok v → v.isScalar = true

/-- The value of an elementwise expression takes the values of all its parts. -/
theorem eval_parts {e : Expr} {v : Value} (he : e.Elementwise)
    (h : e.eval terms division = .ok v) :
    ∀ part ∈ e.parts, ∃ w, part.eval terms division = .ok w := by
  induction e using operand_induction generalizing v with
  | operand e ho =>
      rw [parts_of_isOperand ho, List.forall_mem_singleton]
      exact ⟨v, h⟩
  | unary op e pos ih =>
      rw [parts, List.forall_mem_cons]
      refine ⟨⟨v, h⟩, ?_⟩
      rw [eval] at h
      obtain ⟨u, hu, -⟩ := bind_eq_ok.mp h
      exact ih he.2 hu
  | binary op left right pos ihl ihr =>
      rw [parts, List.forall_mem_cons, List.forall_mem_append]
      refine ⟨⟨v, h⟩, ?_⟩
      rw [eval_binary he.1.2] at h
      obtain ⟨u, hu, h⟩ := bind_eq_ok.mp h
      obtain ⟨w, hw, -⟩ := bind_eq_ok.mp h
      exact ⟨ihl he.2.1 hu, ihr he.2.2 hw⟩

/-- An elementwise expression with a scalar value has scalar operands alone. -/
theorem withoutColumns_of_isScalar {e : Expr} {v : Value} (he : e.Elementwise)
    (h : e.eval terms division = .ok v) (hv : v.isScalar = true) :
    e.WithoutColumns terms division := by
  rw [eval_eq_combine he] at h
  intro operand ho u hu
  obtain ⟨u', hu', hlength⟩ := (combine_length? he h).1 operand ho
  cases hu.symm.trans hu'
  rw [← length?_eq_none_iff]
  cases hu : u.length? with
  | none => rfl
  | some n =>
      have hn := hlength n hu
      rw [(length?_eq_none_iff v).mpr hv] at hn
      cases hn

/-- An elementwise expression with an empty column among its operands has no other value than an
empty array. -/
theorem eq_empty_of_eval {e operand : Expr} {v : Value} (he : e.Elementwise)
    (h : e.eval terms division = .ok v) (ho : operand ∈ e.operands)
    (hoperand : operand.eval terms division = .ok (.array [])) : v = .array [] := by
  rw [eval_eq_combine he] at h
  obtain ⟨u, hu, hlength⟩ := (combine_length? he h).1 operand ho
  cases hoperand.symm.trans hu
  obtain ⟨items, rfl, hitems⟩ := (length?_eq_some_iff v 0).mp (hlength 0 rfl)
  rw [List.length_eq_zero_iff.mp hitems]

/-- Where the columns are empty, an expression has a value when its operands and the parts without
columns have one. -/
theorem eval_of_emptyColumns {e : Expr} (he : e.Elementwise)
    (hoperands : ∀ operand ∈ e.operands, ∃ v, operand.eval terms division = .ok v ∧
      (v.isScalar = true ∨ v = .array []))
    (hparts : ∀ part ∈ e.parts, part.WithoutColumns terms division →
      ∃ v, part.eval terms division = .ok v) :
    ∃ v, e.eval terms division = .ok v ∧ (v.isScalar = true ∨ v = .array []) := by
  induction e using operand_induction with
  | operand e ho => exact hoperands e (by simp [operands_of_isOperand ho])
  | unary op e pos ih =>
      rw [parts, List.forall_mem_cons] at hparts
      obtain ⟨hself, hparts⟩ := hparts
      obtain ⟨u, hu, hscalar | rfl⟩ := ih he.2 hoperands hparts
      · have hnone := withoutColumns_of_isScalar he.2 hu hscalar
        obtain ⟨v, hv⟩ := hself hnone
        refine ⟨v, hv, .inl ?_⟩
        rw [eval, hu, ok_bind, Fault.locate_eq_ok] at hv
        rw [← length?_eq_none_iff, Operation.length?_of_unary he.1 hv, length?_eq_none_iff]
        exact hscalar
      · refine ⟨.array [], ?_, .inr rfl⟩
        rw [eval, hu, ok_bind, Operation.unary_empty he.1]
        rfl
  | binary op left right pos ihl ihr =>
      rw [parts, List.forall_mem_cons, List.forall_mem_append] at hparts
      obtain ⟨hself, hleft, hright⟩ := hparts
      rw [operands, List.forall_mem_append] at hoperands
      obtain ⟨u, hu, hu'⟩ := ihl he.2.1 hoperands.1 hleft
      obtain ⟨w, hw, hw'⟩ := ihr he.2.2 hoperands.2 hright
      have hnode : (binary op left right pos).eval terms division =
          Fault.locate pos (Operation.binary division op u w) := by
        rw [eval_binary he.1.2, hu, ok_bind, hw, ok_bind]
      rw [hnode]
      by_cases hempty : u = .array [] ∨ w = .array []
      · refine ⟨.array [], ?_, .inr rfl⟩
        rw [Operation.binary_empty he.1.2 hu' hw' hempty]
        rfl
      · obtain ⟨hune, hwne⟩ := not_or.mp hempty
        have hu := withoutColumns_of_isScalar he.2.1 hu (hu'.resolve_right hune)
        have hw := withoutColumns_of_isScalar he.2.2 hw (hw'.resolve_right hwne)
        obtain ⟨v, hv⟩ := hself (List.forall_mem_append.mpr ⟨hu, hw⟩)
        rw [hnode] at hv
        refine ⟨v, hv, .inl ?_⟩
        rw [← length?_eq_none_iff,
          (Operation.length?_of_binary he.1.2 (Fault.locate_eq_ok.mp hv)).1,
          (length?_eq_none_iff u).mpr (hu'.resolve_right hune),
          (length?_eq_none_iff w).mpr (hw'.resolve_right hwne)]
        rfl

end Expr

namespace Engine

variable {c : Compiled}

/-- With an empty column among the operands, the program is run on no row. -/
theorem accelerated_run_of_empty (he : c.tree.Elementwise)
    (hempty : ∀ operand ∈ c.tree.operands, ∀ v, operand.eval c.terms c.division = .ok v →
      v.isScalar = true ∨ v = array [])
    (hcolumn : ∃ operand ∈ c.tree.operands,
      operand.eval c.terms c.division = .ok (array []))
    (hoperands : ∀ operand ∈ c.tree.operands, ∃ v, operand.eval c.terms c.division = .ok v) :
    accelerated.run c = .ok (array []) := by
  have hcolumnar : ∀ operand ∈ c.tree.operands, ∃ v,
      operand.eval c.terms c.division = .ok v ∧ v.Columnar 0 := by
    intro operand ho
    obtain ⟨v, hv⟩ := hoperands operand ho
    rcases hempty operand ho v hv with hscalar | rfl
    · exact ⟨v, hv, .scalar hscalar⟩
    · exact ⟨_, hv, .column rfl (fun _ h => nomatch h)⟩
  obtain ⟨p, hp, hzero⟩ := Program.lower_succeeds (p := {}) he hcolumnar (by simp)
  have hrows : p.rows = some 0 := by
    obtain ⟨operand, ho, hempty⟩ := hcolumn
    obtain ⟨v, hv, hfits⟩ := (Program.operands_of_lower hp).2.1 operand ho
    cases hempty.symm.trans hv
    cases h : p.rows with
    | none =>
        rw [h] at hfits
        cases hfits
    | some n => rw [hzero n h]
  rw [accelerated_run, hp, ok_bind, Program.value_of_lower_of_some hp hrows]
  rfl

/-- The accelerated engine gives an empty column as soon as the operands have values. -/
theorem accelerated_run_eq_ok_iff_of_empty (he : c.tree.Elementwise)
    (hempty : ∀ operand ∈ c.tree.operands, ∀ v, operand.eval c.terms c.division = .ok v →
      v.isScalar = true ∨ v = array [])
    (hcolumn : ∃ operand ∈ c.tree.operands,
      operand.eval c.terms c.division = .ok (array [])) (v : Value) :
    accelerated.run c = .ok v ↔ v = array [] ∧
      ∀ operand ∈ c.tree.operands, ∃ w, operand.eval c.terms c.division = .ok w := by
  constructor
  · intro h
    obtain ⟨p, hp, -⟩ := bind_eq_ok.mp h
    have hoperands : ∀ operand ∈ c.tree.operands, ∃ w,
        operand.eval c.terms c.division = .ok w := by
      intro operand ho
      obtain ⟨w, hw, -⟩ := (Program.operands_of_lower hp).2.1 operand ho
      exact ⟨w, hw⟩
    rw [accelerated_run_of_empty he hempty hcolumn hoperands] at h
    cases h
    exact ⟨rfl, hoperands⟩
  · rintro ⟨rfl, hoperands⟩
    exact accelerated_run_of_empty he hempty hcolumn hoperands

/-- On scalars and empty columns the evaluation of the tree has the value of the accelerated engine,
provided that the parts without columns have values too. -/
theorem interpreted_run_emptyColumns (c : Compiled) (he : c.tree.Elementwise)
    (hempty : ∀ operand ∈ c.tree.operands, ∀ v, operand.eval c.terms c.division = .ok v →
      v.isScalar = true ∨ v = array [])
    (hcolumn : ∃ operand ∈ c.tree.operands,
      operand.eval c.terms c.division = .ok (array [])) :
    (∀ v, interpreted.run c = .ok v ↔ accelerated.run c = .ok v ∧
      ∀ part ∈ c.tree.parts, part.WithoutColumns c.terms c.division →
        ∃ w, part.eval c.terms c.division = .ok w) ∧
    ∀ v, accelerated.run c = .ok v ↔ v = array [] ∧
      ∀ operand ∈ c.tree.operands, ∃ w, operand.eval c.terms c.division = .ok w := by
  have haccelerated := accelerated_run_eq_ok_iff_of_empty he hempty hcolumn
  refine ⟨fun v => ?_, haccelerated⟩
  obtain ⟨column, hmem, hcolumn⟩ := hcolumn
  constructor
  · intro h
    have hparts := Expr.eval_parts he h
    obtain rfl := Expr.eq_empty_of_eval he h hmem hcolumn
    refine ⟨(haccelerated _).mpr ⟨rfl, fun operand ho => ?_⟩, fun part hpart _ => hparts part hpart⟩
    exact hparts operand (Expr.mem_parts_of_mem_operands ho)
  · rintro ⟨h, hparts⟩
    obtain ⟨rfl, hoperands⟩ := (haccelerated v).mp h
    have hvalues : ∀ operand ∈ c.tree.operands, ∃ w,
        operand.eval c.terms c.division = .ok w ∧ (w.isScalar = true ∨ w = array []) := by
      intro operand ho
      obtain ⟨w, hw⟩ := hoperands operand ho
      exact ⟨w, hw, hempty operand ho w hw⟩
    obtain ⟨w, hw, -⟩ := Expr.eval_of_emptyColumns he hvalues hparts
    obtain rfl := Expr.eq_empty_of_eval he hw hmem hcolumn
    exact hw

/-- The text `x * (y + 2)` with an empty column for `x`. -/
def emptyProduct : Compiled where
  source := "x * (y + 2)"
  tree := .binary .mul (.name "x" 0)
    (.binary .add (.name "y" 5) (.literal (.integer 2) 9) 7) 2
  grammar := .extended
  engine := "accelerated"
  division := .exact
  names := ["x", "y"]
  terms := .ofList [("x", .array []), ("y", .integer 1)]
  lookup := Scope.resolve { locals := some (.ofList [("x", .array []), ("y", .integer 1)]) }
  resolverCount := 0

theorem interpreted_run_emptyProduct :
    emptyProduct.tree.Elementwise ∧
    (∀ operand ∈ emptyProduct.tree.operands, ∀ v,
      operand.eval emptyProduct.terms emptyProduct.division = .ok v →
        v.isScalar = true ∨ v = array []) ∧
    (∃ operand ∈ emptyProduct.tree.operands,
      operand.eval emptyProduct.terms emptyProduct.division = .ok (array [])) ∧
    accelerated.run emptyProduct = .ok (array []) ∧
    interpreted.run emptyProduct = .ok (array []) := by
  have he : emptyProduct.tree.Elementwise := by simp [emptyProduct, Expr.Elementwise]
  have hoperands : ∀ operand ∈ emptyProduct.tree.operands, ∃ w,
      operand.eval emptyProduct.terms emptyProduct.division = .ok w ∧
        (w.isScalar = true ∨ w = array []) := by
    intro operand ho
    simp only [emptyProduct, Expr.operands, List.cons_append, List.nil_append, List.mem_cons,
      List.not_mem_nil, or_false] at ho
    rcases ho with rfl | rfl | rfl
    · exact ⟨array [], rfl, .inr rfl⟩
    · exact ⟨.integer 1, rfl, .inl rfl⟩
    · exact ⟨.integer 2, rfl, .inl rfl⟩
  have hempty : ∀ operand ∈ emptyProduct.tree.operands, ∀ v,
      operand.eval emptyProduct.terms emptyProduct.division = .ok v →
        v.isScalar = true ∨ v = array [] := by
    intro operand ho v hv
    obtain ⟨w, hw, hshape⟩ := hoperands operand ho
    cases hv.symm.trans hw
    exact hshape
  have hcolumn : ∃ operand ∈ emptyProduct.tree.operands,
      operand.eval emptyProduct.terms emptyProduct.division = .ok (array []) :=
    ⟨.name "x" 0, List.mem_cons_self, rfl⟩
  obtain ⟨hinterpreted, haccelerated⟩ :=
    interpreted_run_emptyColumns emptyProduct he hempty hcolumn
  have hrun : accelerated.run emptyProduct = .ok (array []) := by
    refine (haccelerated _).mpr ⟨rfl, fun operand ho => ?_⟩
    obtain ⟨w, hw, -⟩ := hoperands operand ho
    exact ⟨w, hw⟩
  refine ⟨he, hempty, hcolumn, hrun, (hinterpreted _).mpr ⟨hrun, ?_⟩⟩
  intro part hpart _
  simp only [emptyProduct, Expr.parts, List.cons_append, List.nil_append, List.mem_cons,
    List.not_mem_nil, or_false] at hpart
  rcases hpart with rfl | rfl | rfl | rfl | rfl
  · exact ⟨array [], rfl⟩
  · exact ⟨array [], rfl⟩
  · exact ⟨.integer 3, rfl⟩
  · exact ⟨.integer 1, rfl⟩
  · exact ⟨.integer 2, rfl⟩

/-- The text `x + 1 / 0` with an empty column for `x`. -/
def emptySum : Compiled where
  source := "x + 1 / 0"
  tree := .binary .add (.name "x" 0)
    (.binary .div (.literal (.integer 1) 4) (.literal (.integer 0) 8) 6) 2
  grammar := .extended
  engine := "accelerated"
  division := .exact
  names := ["x"]
  terms := .ofList [("x", .array [])]
  lookup := Scope.resolve { locals := some (.ofList [("x", .array [])]) }
  resolverCount := 0

theorem ofText_emptySum :
    Compiled.ofText "x + 1 / 0" .extended { locals := some (.ofList [("x", .array [])]) }
      "accelerated" .exact = .ok emptySum := by
  have hls : Lexeme.ofText "x + 1 / 0" = .ok [⟨.name "x", 0⟩, ⟨.symbol .plus, 2⟩,
      ⟨.integer (some 1), 4⟩, ⟨.symbol .divide, 6⟩, ⟨.integer (some 0), 8⟩] := by
    rw [Lexeme.ofText_eq_readWithin]
    rfl
  have hquotient : Derives .extended (.level .multiplicative) [⟨.integer (some 1), 4⟩,
      ⟨.symbol .divide, 6⟩, ⟨.integer (some 0), 8⟩]
      (.binary .div (.literal (.integer 1) 4) (.literal (.integer 0) 8) 6) :=
    .binary .multiplicative (by decide) .divide
      (Derives.ofIndexed (.primary (.literal (.integer 1) 4)) trivial)
      (Derives.ofIndexed (.primary (.literal (.integer 0) 8)) trivial)
  have hsum : Derives .extended (.level .additive) [⟨.name "x", 0⟩, ⟨.symbol .plus, 2⟩,
      ⟨.integer (some 1), 4⟩, ⟨.symbol .divide, 6⟩, ⟨.integer (some 0), 8⟩] emptySum.tree :=
    .binary .additive (by decide) .plus
      (Derives.ofIndexed (.primary (.name "x" 0)) trivial) hquotient
  have htree : Expr.ofText .extended "x + 1 / 0" = .ok emptySum.tree :=
    ofText_of_derives hls (hsum.loosen trivial trivial (Grammar.rank_le_disjunction _))
  rw [Compiled.ofText_of_tree htree]
  rfl

/-- The division by zero is on no row, but it is in the tree. -/
theorem engines_differ_on_emptySum :
    Compiled.ofText "x + 1 / 0" .extended { locals := some (.ofList [("x", .array [])]) }
      "accelerated" .exact = .ok emptySum ∧
    emptySum.tree.Elementwise ∧
    (∀ operand ∈ emptySum.tree.operands, ∀ v,
      operand.eval emptySum.terms emptySum.division = .ok v →
        v.isScalar = true ∨ v = array []) ∧
    (∃ operand ∈ emptySum.tree.operands,
      operand.eval emptySum.terms emptySum.division = .ok (array [])) ∧
    accelerated.run emptySum = .ok (array []) ∧
    interpreted.run emptySum = .error ⟨.divisionByZero, 6⟩ ∧
    ¬ ∀ v, accelerated.run emptySum = .ok v ↔ interpreted.run emptySum = .ok v := by
  have haccelerated : accelerated.run emptySum = .ok (array []) := rfl
  have hinterpreted : interpreted.run emptySum = .error ⟨.divisionByZero, 6⟩ := rfl
  refine ⟨ofText_emptySum, by simp [emptySum, Expr.Elementwise], ?_,
    ⟨.name "x" 0, List.mem_cons_self, rfl⟩, haccelerated, hinterpreted, ?_⟩
  · intro operand ho v hv
    simp only [emptySum, Expr.operands, List.cons_append, List.nil_append, List.mem_cons,
      List.not_mem_nil, or_false] at ho
    rcases ho with rfl | rfl | rfl
    · cases hv
      exact .inr rfl
    · cases hv
      exact .inl rfl
    · cases hv
      exact .inl rfl
  · intro hagree
    have hvalue := (hagree _).mp haccelerated
    rw [hinterpreted] at hvalue
    cases hvalue

end Engine

end Formula
