import Formula.Engine.Accelerated
import Formula.Proofs.Accelerated.Lowering

/-! # Correctness of the accelerated engine

On scalars and flat columns the accelerated engine gives what the evaluation of the tree gives. On
a tree without arrays of its own it gives, row by row and with the same errors, what the tree gives
for the terms of the row. -/

namespace Formula

open Value

/-- Scalars, and arrays of scalars that are not empty. -/
def Value.IsFlat (v : Value) : Prop :=
  v.isScalar = true ∨ ∃ items, v = array items ∧ items ≠ [] ∧
    ∀ item ∈ items, item.isScalar = true

theorem Value.IsFlat.pos_of_length? {v : Value} {n : Nat} (h : v.IsFlat)
    (hn : v.length? = some n) : 0 < n := by
  rcases h with hscalar | ⟨items, rfl, hitems, _⟩
  · rw [(length?_eq_none_iff v).mpr hscalar] at hn
    cases hn
  · cases hn
    exact List.length_pos_iff.mpr hitems

/-! ## Arrays of the values of all rows -/

section

variable {ε : Type} {n : Nat} {f : Nat → Except ε Value}

theorem array_mapM_range_eq_ok {v : Value} :
    (do return Value.array (← (List.range n).mapM f)) = .ok v ↔ ∃ items, v = .array items ∧
      items.length = n ∧ ∀ (r : Nat) (hr : r < items.length), f r = .ok items[r] := by
  simp only [bind_eq_ok, mapM_eq_ok, List.length_range, List.getElem_range, pure_eq_ok,
    Except.ok.injEq]
  constructor
  · rintro ⟨items, ⟨hlength, hsteps⟩, rfl⟩
    exact ⟨items, rfl, hlength, fun r hr => hsteps r (hlength ▸ hr) hr⟩
  · rintro ⟨items, rfl, hlength, hsteps⟩
    exact ⟨items, ⟨hlength, fun r _ hr => hsteps r hr⟩, rfl⟩

theorem array_mapM_range_eq_error {e : ε} :
    (do return Value.array (← (List.range n).mapM f)) = .error e ↔
      ∃ r < n, f r = .error e ∧ ∀ s < r, ∃ v, f s = .ok v := by
  simp only [bind_eq_error, mapM_eq_error, List.length_range, List.getElem_range]
  constructor
  · rintro (⟨r, hr, hstep, hbefore⟩ | ⟨items, _, h⟩)
    · exact ⟨r, hr, hstep, hbefore⟩
    · cases h
  · rintro ⟨r, hr, hstep, hbefore⟩
    exact .inl ⟨r, hr, hstep, hbefore⟩

end

/-! ## Expressions over names -/

theorem Literal.isScalar_toValue (value : Literal) : value.toValue.isScalar = true := by
  cases value <;> rfl

namespace Bindings

/-- The bindings on a row: the element of every array. -/
def row (r : Nat) (b : Bindings) : Bindings where
  entries := b.entries.map fun entry => (entry.1, entry.2.row r)
  distinct := by
    rw [List.map_map]
    exact b.distinct

theorem get?_row (r : Nat) (b : Bindings) (name : String) :
    (b.row r).get? name = (b.get? name).map (Value.row r) := by
  simp only [get?, row]
  induction b.entries with
  | nil => rfl
  | cons entry entries ih =>
      rw [List.map_cons, List.lookup_cons, List.lookup_cons]
      cases name == entry.1
      · exact ih
      · rfl

theorem term_eq_ok {b : Bindings} {name : String} {pos : Nat} {v : Value} :
    b.term name pos = .ok v ↔ b.get? name = some v := by
  rw [term]
  cases b.get? name <;> simp [Fault.orElse, Fault.locate]

end Bindings

namespace Expr

/-- Expressions of literals, names, the signs `-`, `+` and `~`, and the binary operators that are
not floored quotients or about truth values. -/
def IsArithmetic : Expr → Prop
  | literal _ _ | name _ _ => True
  | unary op operand _ => op ≠ .not ∧ operand.IsArithmetic
  | binary op left right _ =>
    (op ≠ .floorDiv ∧ op ≠ .and ∧ op ≠ .or) ∧ left.IsArithmetic ∧ right.IsArithmetic
  | array _ _ | index _ _ _ => False

theorem IsArithmetic.elementwise {e : Expr} (h : e.IsArithmetic) : e.Elementwise := by
  induction e using operand_induction with
  | operand e ho => exact elementwise_of_isOperand ho
  | unary op e pos ih => exact ⟨h.1, ih h.2⟩
  | binary op left right pos ihl ihr => exact ⟨h.1, ihl h.2.1, ihr h.2.2⟩

/-- The operands of such an expression are its literals and its names. -/
theorem IsArithmetic.operand {e operand : Expr} (h : e.IsArithmetic)
    (ho : operand ∈ e.operands) :
    (∃ value pos, operand = literal value pos) ∨
      ∃ id pos, operand = name id pos ∧ (id, pos) ∈ e.names := by
  induction e using operand_induction with
  | operand e he =>
      obtain rfl := List.mem_singleton.mp (operands_of_isOperand he ▸ ho)
      cases operand with
      | literal value pos => exact .inl ⟨value, pos, rfl⟩
      | name id pos => exact .inr ⟨id, pos, rfl, List.mem_singleton.mpr rfl⟩
      | array => exact h.elim
      | index => exact h.elim
      | _ => cases he
  | unary op e pos ih => exact ih h.2 ho
  | binary op left right pos ihl ihr =>
      rcases List.mem_append.mp ho with ho | ho
      · rcases ihl h.2.1 ho with hlit | ⟨id, pos, hname, hmem⟩
        · exact .inl hlit
        · exact .inr ⟨id, pos, hname, List.mem_append_left _ hmem⟩
      · rcases ihr h.2.2 ho with hlit | ⟨id, pos, hname, hmem⟩
        · exact .inl hlit
        · exact .inr ⟨id, pos, hname, List.mem_append_right _ hmem⟩

theorem IsArithmetic.name_mem_operands {e : Expr} (h : e.IsArithmetic) {id : String} {pos : Nat}
    (hmem : (id, pos) ∈ e.names) : name id pos ∈ e.operands := by
  induction e using operand_induction with
  | operand e he =>
      cases e with
      | literal => simp [names] at hmem
      | name =>
          cases List.mem_singleton.mp hmem
          exact List.mem_singleton.mpr rfl
      | array => exact h.elim
      | index => exact h.elim
      | _ => cases he
  | unary op e pos ih => exact ih h.2 hmem
  | binary op left right pos ihl ihr =>
      rcases List.mem_append.mp hmem with hmem | hmem
      · exact List.mem_append_left _ (ihl h.2.1 hmem)
      · exact List.mem_append_right _ (ihr h.2.2 hmem)

/-- On a row, the operands have the values that the terms of the row give them. -/
theorem IsArithmetic.combine_rowValue {e : Expr} (h : e.IsArithmetic) (terms : Bindings)
    (division : Division) (r : Nat) :
    e.combine (Program.rowValue terms division (some r)) division =
      e.eval (terms.row r) division := by
  rw [eval_eq_combine h.elementwise]
  apply combine_congr
  intro operand ho
  rcases h.operand ho with ⟨value, pos, rfl⟩ | ⟨id, pos, rfl, _⟩
  · simp [Program.rowValue, eval, select, row_of_isScalar (Literal.isScalar_toValue value)]
  · rw [Program.rowValue, eval, eval, Bindings.term, Bindings.term, Bindings.get?_row]
    cases terms.get? id <;> rfl

/-- The columns of a lowered expression over names are there exactly when a name is bound to an
array. -/
theorem IsArithmetic.rows_eq_none_iff {e : Expr} (h : e.IsArithmetic) {terms : Bindings}
    {division : Division} {p : Program} (hp : Program.lower terms division e {} = .ok p) :
    p.rows = none ↔ ∀ use ∈ e.names, ∀ v, terms.get? use.1 = some v → v.isScalar = true := by
  obtain ⟨_, hfits, hlength⟩ := Program.operands_of_lower hp
  constructor
  · rintro hrows ⟨id, pos⟩ huse v hv
    obtain ⟨w, hw, hfit⟩ := hfits _ (h.name_mem_operands huse)
    rw [eval, Bindings.term, hv] at hw
    cases hw
    rwa [hrows] at hfit
  · intro hscalar
    cases hrows : p.rows with
    | none => rfl
    | some n =>
        rcases hlength n hrows with hn | ⟨operand, ho, v, hv, hn⟩
        · cases hn
        · have hv' : v.isScalar = true := by
            rcases h.operand ho with ⟨value, pos, rfl⟩ | ⟨id, pos, rfl, huse⟩
            · cases hv
              exact Literal.isScalar_toValue value
            · exact hscalar _ huse v (Bindings.term_eq_ok.mp hv)
          rw [(length?_eq_none_iff v).mpr hv'] at hn
          cases hn

end Expr

namespace Engine

theorem accelerated_run (c : Compiled) :
    accelerated.run c = (do
      let p ← Program.lower c.terms c.division c.tree {}
      p.value c.division) := rfl

theorem interpreted_run (c : Compiled) :
    interpreted.run c = c.tree.eval c.terms c.division := rfl

/-! ## Rows of a tree over names -/

/-- With the names of a tree bound to scalars and columns of one length, the accelerated engine
gives the value of the tree, or the array of its values on all rows, or the error of the first row
that fails. -/
theorem accelerated_run_eq_rows (c : Compiled) (n : Nat) (htree : c.tree.IsArithmetic)
    (hterms : ∀ use ∈ c.tree.names, ∃ v, c.terms.get? use.1 = some v ∧ v.Columnar n) :
    ((∀ use ∈ c.tree.names, ∀ v, c.terms.get? use.1 = some v → v.isScalar = true) →
      accelerated.run c = c.tree.eval c.terms c.division) ∧
    ((∃ use ∈ c.tree.names, ∃ v, c.terms.get? use.1 = some v ∧ v.isScalar = false) →
      (∀ v, accelerated.run c = .ok v ↔ ∃ items, v = .array items ∧ items.length = n ∧
        ∀ (r : Nat) (hr : r < items.length),
          c.tree.eval (c.terms.row r) c.division = .ok items[r]) ∧
      ∀ e, accelerated.run c = .error e ↔
        ∃ r < n, c.tree.eval (c.terms.row r) c.division = .error e ∧
          ∀ s < r, ∃ v, c.tree.eval (c.terms.row s) c.division = .ok v) := by
  have hoperands : ∀ operand ∈ c.tree.operands, ∃ v,
      operand.eval c.terms c.division = .ok v ∧ v.Columnar n := by
    intro operand ho
    rcases htree.operand ho with ⟨value, pos, rfl⟩ | ⟨id, pos, rfl, huse⟩
    · exact ⟨_, rfl, .scalar (Literal.isScalar_toValue value)⟩
    · obtain ⟨v, hv, hcolumnar⟩ := hterms _ huse
      exact ⟨v, Bindings.term_eq_ok.mpr hv, hcolumnar⟩
  obtain ⟨p, hp, hn⟩ := Program.lower_succeeds (p := {}) htree.elementwise hoperands (by simp)
  have hrun : accelerated.run c = p.value c.division := by rw [accelerated_run, hp, ok_bind]
  have hrows := htree.rows_eq_none_iff hp
  refine ⟨fun hscalar => ?_, ?_⟩
  · rw [hrun, Program.value_of_lower_of_none hp (hrows.mpr hscalar)]
  · rintro ⟨use, huse, v, hv, hfalse⟩
    have hsome : p.rows = some n := by
      cases h : p.rows with
      | none => simp [hrows.mp h use huse v hv] at hfalse
      | some m => rw [hn m h]
    rw [hrun, Program.value_of_lower_of_some hp hsome]
    simp only [htree.combine_rowValue]
    exact ⟨fun v => array_mapM_range_eq_ok, fun e => array_mapM_range_eq_error⟩

/-- The text `-x + y`, where the second element of `x` has no negation. -/
def negatedColumn : Compiled where
  source := "-x + y"
  tree := .binary .add (.unary .negate (.name "x" 1) 0) (.name "y" 5) 3
  grammar := .extended
  engine := "accelerated"
  division := .exact
  names := ["x", "y"]
  terms := .ofList [("x", .array [.integer 1, .integer Int64.minValue]), ("y", .integer 2)]
  lookup := Scope.resolve {
    locals := some (.ofList [("x", .array [.integer 1, .integer Int64.minValue]),
      ("y", .integer 2)]) }
  resolverCount := 0

theorem accelerated_run_negatedColumn :
    negatedColumn.tree.IsArithmetic ∧
    (∀ use ∈ negatedColumn.tree.names, ∃ v, negatedColumn.terms.get? use.1 = some v ∧
      v.Columnar 2) ∧
    accelerated.run negatedColumn = .error ⟨.overflow, 0⟩ := by
  have htree : negatedColumn.tree.IsArithmetic := by
    simp [negatedColumn, Expr.IsArithmetic]
  have hx : negatedColumn.terms.get? "x" =
      some (.array [.integer 1, .integer Int64.minValue]) := rfl
  have hterms : ∀ use ∈ negatedColumn.tree.names, ∃ v,
      negatedColumn.terms.get? use.1 = some v ∧ v.Columnar 2 := by
    intro use huse
    simp only [negatedColumn, Expr.names, List.cons_append, List.nil_append, List.mem_cons,
      List.not_mem_nil, or_false] at huse
    rcases huse with rfl | rfl
    · exact ⟨_, hx, .column rfl (by simp [isScalar])⟩
    · exact ⟨.integer 2, rfl, .scalar rfl⟩
  refine ⟨htree, hterms, ?_⟩
  have hrows := (accelerated_run_eq_rows negatedColumn 2 htree hterms).2
    ⟨("x", 1), by simp [negatedColumn, Expr.names], _, hx, rfl⟩
  refine (hrows.2 _).mpr ⟨1, by decide, rfl, ?_⟩
  intro s hs
  obtain rfl : s = 0 := by omega
  exact ⟨.integer 1, rfl⟩

/-! ## Agreement of the engines -/

section

variable {terms : Bindings} {division : Division} {e : Expr}

/-- The array operands of an expression that has a value are columns of the value's length, when
they are flat. -/
theorem columnar_operands_of_eval {v : Value} (he : e.Elementwise)
    (hflat : ∀ operand ∈ e.operands, ∀ v, operand.eval terms division = .ok v → v.IsFlat)
    (h : e.eval terms division = .ok v) : ∀ operand ∈ e.operands, ∃ u,
      operand.eval terms division = .ok u ∧ u.Columnar (v.length?.getD 0) := by
  rw [Expr.eval_eq_combine he] at h
  obtain ⟨hoperands, _⟩ := Expr.combine_length? he h
  intro operand ho
  obtain ⟨u, hu, hlength⟩ := hoperands operand ho
  refine ⟨u, hu, ?_⟩
  rcases hflat operand ho u hu with hscalar | ⟨items, rfl, _, hitems⟩
  · exact .scalar hscalar
  · exact .column (by rw [hlength _ rfl, Option.getD_some]) hitems

/-- A lowered expression over columns has a value exactly when its program has it, and then it is a
column. -/
theorem value_eq_ok_iff_of_some {p : Program} {n : Nat} {v : Value}
    (hp : Program.lower terms division e {} = .ok p) (hn : 0 < n) (hrows : p.rows = some n) :
    p.value division = .ok v ↔ e.eval terms division = .ok v := by
  obtain ⟨he, hfits, hlength⟩ := Program.operands_of_lower hp
  have hcolumnar : ∀ operand ∈ e.operands, ∀ u, operand.eval terms division = .ok u →
      u.Columnar n := by
    intro operand ho u hu
    obtain ⟨w, hw, hfit⟩ := hfits operand ho
    rw [hu] at hw
    cases hw
    rwa [hrows] at hfit
  have hrowwise := Expr.combine_rowwise hn he hcolumnar division
  rw [← Expr.eval_eq_combine he] at hrowwise
  have harray : ∀ u, e.eval terms division = .ok u → u.length? = some n := by
    intro u hu
    rw [Expr.eval_eq_combine he] at hu
    rcases hlength n hrows with h | ⟨operand, ho, w, hw, hwn⟩
    · cases h
    · obtain ⟨w', hw', hw'n⟩ := (Expr.combine_length? he hu).1 operand ho
      rw [hw] at hw'
      cases hw'
      exact hw'n n hwn
  rw [Program.value_of_lower_of_some hp hrows, array_mapM_range_eq_ok]
  exact (hrowwise.eq_ok_iff harray).symm

/-- A program has the value of its expression, when the operands are flat. -/
theorem value_eq_ok_iff {p : Program} {v : Value}
    (hp : Program.lower terms division e {} = .ok p)
    (hflat : ∀ operand ∈ e.operands, ∀ v, operand.eval terms division = .ok v → v.IsFlat) :
    p.value division = .ok v ↔ e.eval terms division = .ok v := by
  cases hrows : p.rows with
  | none => rw [Program.value_of_lower_of_none hp hrows]
  | some n =>
      refine value_eq_ok_iff_of_some hp ?_ hrows
      rcases (Program.operands_of_lower hp).2.2 n hrows with h | ⟨operand, ho, u, hu, hn⟩
      · cases h
      · exact (hflat operand ho u hu).pos_of_length? hn

theorem accelerated_run_eq_ok_iff {c : Compiled} (he : c.tree.Elementwise)
    (hflat : ∀ operand ∈ c.tree.operands, ∀ v,
      operand.eval c.terms c.division = .ok v → v.IsFlat) (v : Value) :
    accelerated.run c = .ok v ↔ interpreted.run c = .ok v := by
  rw [accelerated_run, interpreted_run, bind_eq_ok]
  constructor
  · rintro ⟨p, hp, hv⟩
    exact (value_eq_ok_iff hp hflat).mp hv
  · intro hv
    obtain ⟨p, hp, _⟩ := Program.lower_succeeds (p := {}) he
      (columnar_operands_of_eval he hflat hv) (by simp)
    exact ⟨p, hp, (value_eq_ok_iff hp hflat).mpr hv⟩

/-- A value of an expression with flat operands is flat and as long as each array operand. -/
theorem array_of_eval {v : Value} (he : e.Elementwise)
    (hflat : ∀ operand ∈ e.operands, ∀ v, operand.eval terms division = .ok v → v.IsFlat)
    (hv : e.eval terms division = .ok v) {operand : Expr} (ho : operand ∈ e.operands) {u : Value}
    (hu : operand.eval terms division = .ok u) {n : Nat} (hn : u.length? = some n) :
    ∃ items, v = array items ∧ items.length = n ∧ ∀ item ∈ items, item.isScalar = true := by
  have hcolumnar := columnar_operands_of_eval he hflat hv
  have hv' := hv
  rw [Expr.eval_eq_combine he] at hv'
  obtain ⟨w, hw, hlength⟩ := (Expr.combine_length? he hv').1 operand ho
  rw [hu] at hw
  cases hw
  have hpos : 0 < n := (hflat operand ho u hu).pos_of_length? hn
  rw [hlength n hn, Option.getD_some] at hcolumnar
  have hcolumns : ∀ o ∈ e.operands, ∀ u, o.eval terms division = .ok u → u.Columnar n := by
    intro o ho u hu
    obtain ⟨w, hw, hcolumnar⟩ := hcolumnar o ho
    rw [hu] at hw
    cases hw
    exact hcolumnar
  have hrowwise := Expr.combine_rowwise hpos he hcolumns division
  rw [hv'] at hrowwise
  cases hrowwise.eq_ok.1 with
  | scalar hscalar =>
      rw [(length?_eq_none_iff v).mpr hscalar] at hlength
      cases hlength n hn
  | column hitems hscalars => exact ⟨_, rfl, hitems, hscalars⟩

end

/-- On scalars and flat arrays that are not empty, the two engines have the same values and fail
together: they both fail when the arrays have different lengths, and with arrays of one length every
value is a flat array of that length. -/
theorem accelerated_agrees_with_interpreted (c : Compiled) (he : c.tree.Elementwise)
    (hflat : ∀ operand ∈ c.tree.operands, ∀ v,
      operand.eval c.terms c.division = .ok v → v.IsFlat) :
    (∀ v, accelerated.run c = .ok v ↔ interpreted.run c = .ok v) ∧
    ((∃ e, accelerated.run c = .error e) ↔ ∃ e, interpreted.run c = .error e) ∧
    (∀ a ∈ c.tree.operands, ∀ b ∈ c.tree.operands, ∀ u w n m,
      a.eval c.terms c.division = .ok u → b.eval c.terms c.division = .ok w →
      u.length? = some n → w.length? = some m → n ≠ m →
      (∃ e, accelerated.run c = .error e) ∧ ∃ e, interpreted.run c = .error e) ∧
    ∀ a ∈ c.tree.operands, ∀ u n v, a.eval c.terms c.division = .ok u → u.length? = some n →
      interpreted.run c = .ok v → ∃ items, v = .array items ∧ items.length = n ∧
        ∀ item ∈ items, item.isScalar = true := by
  have hok := accelerated_run_eq_ok_iff he hflat
  refine ⟨hok, ?_, ?_, ?_⟩
  · rw [exists_eq_error_iff, exists_eq_error_iff]
    exact forall_congr' fun v => not_congr (hok v)
  · intro a ha b hb u w n m hu hw hn hm hne
    -- A common value would have both lengths.
    have hnone : ∀ v, interpreted.run c ≠ .ok v := by
      intro v hv
      obtain ⟨items, rfl, hitems, _⟩ := array_of_eval he hflat hv ha hu hn
      obtain ⟨items', heq, hitems', _⟩ := array_of_eval he hflat hv hb hw hm
      cases heq
      exact hne (hitems.symm.trans hitems')
    exact ⟨exists_eq_error_iff.mpr fun v hv => hnone v ((hok v).mp hv),
      exists_eq_error_iff.mpr hnone⟩
  · intro a ha u n v hu hn hv
    exact array_of_eval he hflat hv ha hu hn

/-- The text `[1, 2] * x - y`. -/
def scaledColumn : Compiled where
  source := "[1, 2] * x - y"
  tree := .binary .sub
    (.binary .mul (.array [.literal (.integer 1) 1, .literal (.integer 2) 4] 0) (.name "x" 9) 7)
    (.name "y" 13) 11
  grammar := .strict
  engine := "accelerated"
  division := .exact
  names := ["x", "y"]
  terms := .ofList [("x", .array [.integer 10, .integer 20]), ("y", .integer 3)]
  lookup := Scope.resolve {
    locals := some (.ofList [("x", .array [.integer 10, .integer 20]), ("y", .integer 3)]) }
  resolverCount := 0

theorem accelerated_run_scaledColumn :
    scaledColumn.tree.Elementwise ∧
    (∀ operand ∈ scaledColumn.tree.operands, ∀ v,
      operand.eval scaledColumn.terms scaledColumn.division = .ok v → v.IsFlat) ∧
    accelerated.run scaledColumn = .ok (.array [.integer 7, .integer 37]) := by
  have he : scaledColumn.tree.Elementwise := by simp [scaledColumn, Expr.Elementwise]
  have hflat : ∀ operand ∈ scaledColumn.tree.operands, ∀ v,
      operand.eval scaledColumn.terms scaledColumn.division = .ok v → v.IsFlat := by
    intro operand ho v hv
    simp only [scaledColumn, Expr.operands, List.cons_append, List.nil_append, List.mem_cons,
      List.not_mem_nil, or_false] at ho
    rcases ho with rfl | rfl | rfl
    · cases hv
      exact .inr ⟨_, rfl, by simp, by simp [Literal.isScalar_toValue]⟩
    · cases hv
      exact .inr ⟨_, rfl, by simp, by simp [isScalar]⟩
    · cases hv
      exact .inl rfl
  exact ⟨he, hflat, ((accelerated_agrees_with_interpreted scaledColumn he hflat).1 _).mpr rfl⟩

end Engine

end Formula
