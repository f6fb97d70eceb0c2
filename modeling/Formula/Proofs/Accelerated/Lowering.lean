import Formula.Engine.Program
import Formula.Proofs.Accelerated.Rows

/-! # What a lowered program computes

The code of an expression, with any operands behind its own and on any stack, pushes the value that
the expression takes when each of its operands is replaced by its value on the row. -/

namespace Formula

/-! ## Operands of an expression -/

namespace Expr

/-- Literals, names, array literals and index expressions are operands of a program. -/
def isOperand : Expr → Bool
  | unary _ _ _ | binary _ _ _ _ => false
  | _ => true

/-- The operands of an expression from left to right. What stands inside an array literal or an
index expression belongs to that operand. -/
def operands : Expr → List Expr
  | unary _ operand _ => operand.operands
  | binary _ left right _ => left.operands ++ right.operands
  | operand => [operand]

/-- Outside its operands, the expression works element by element: there are no `not`, `and` and
`or` on truth values, and no floored quotients. -/
def Elementwise : Expr → Prop
  | unary op operand _ => op ≠ .not ∧ operand.Elementwise
  | binary op left right _ =>
    (op ≠ .floorDiv ∧ op ≠ .and ∧ op ≠ .or) ∧ left.Elementwise ∧ right.Elementwise
  | _ => True

/-- The value of an expression from the values of its operands. -/
def combine (value : Expr → Except RuntimeError Value) (division : Division) :
    Expr → Except RuntimeError Value
  | unary op operand pos => do
    let v ← operand.combine value division
    Fault.locate pos (Operation.unary op v)
  | binary op left right pos => do
    let u ← left.combine value division
    let w ← right.combine value division
    Fault.locate pos (Operation.binary division op u w)
  | operand => value operand

@[elab_as_elim]
theorem operand_induction {motive : Expr → Prop}
    (operand : ∀ e : Expr, e.isOperand = true → motive e)
    (unary : ∀ op e pos, motive e → motive (unary op e pos))
    (binary : ∀ op left right pos, motive left → motive right →
      motive (binary op left right pos)) (e : Expr) : motive e := by
  induction e using Expr.operands.induct with
  | case1 op e pos ih => exact unary op e pos ih
  | case2 op left right pos ihl ihr => exact binary op left right pos ihl ihr
  | case3 e hunary hbinary =>
      cases e with
      | unary op e pos => exact (hunary op e pos rfl).elim
      | binary op left right pos => exact (hbinary op left right pos rfl).elim
      | _ => exact operand _ rfl

section

variable {e : Expr} (h : e.isOperand = true)
include h

theorem operands_of_isOperand : e.operands = [e] := by
  cases e <;> first | rfl | cases h

theorem elementwise_of_isOperand : e.Elementwise := by
  cases e <;> trivial

theorem combine_of_isOperand (value : Expr → Except RuntimeError Value) (division : Division) :
    e.combine value division = value e := by
  cases e <;> first | rfl | cases h

/-- Lowering an operand evaluates it. -/
theorem lower_of_isOperand (terms : Bindings) (division : Division) (p : Program) :
    Program.lower terms division e p =
      (do p.addValue (← e.eval terms division) e.pos) := by
  cases e <;> first | rfl | cases h

end

theorem eval_binary {op : BinaryOp} (hop : op ≠ .and ∧ op ≠ .or) (terms : Bindings)
    (division : Division) (left right : Expr) (pos : Nat) :
    (binary op left right pos).eval terms division =
      left.eval terms division >>= fun u => right.eval terms division >>= fun w =>
        Fault.locate pos (Operation.binary division op u w) := by
  simp only [eval, if_neg (not_or.mpr hop)]

/-- Evaluation combines the values of the operands. -/
theorem eval_eq_combine {e : Expr} (he : e.Elementwise) (terms : Bindings) (division : Division) :
    e.eval terms division = e.combine (fun operand => operand.eval terms division) division := by
  induction e using operand_induction with
  | operand e h => rw [combine_of_isOperand h]
  | unary op e pos ih => rw [eval, combine, ih he.2]
  | binary op left right pos ihl ihr =>
      rw [eval_binary he.1.2, combine, ihl he.2.1, ihr he.2.2]

/-- Operands with equal values combine to equal results. -/
theorem combine_congr {e : Expr} {value value' : Expr → Except RuntimeError Value}
    (division : Division) (h : ∀ operand ∈ e.operands, value operand = value' operand) :
    e.combine value division = e.combine value' division := by
  induction e using operand_induction with
  | operand e he =>
      rw [combine_of_isOperand he, combine_of_isOperand he]
      exact h e (by simp [operands_of_isOperand he])
  | unary op e pos ih => rw [combine, combine, ih h]
  | binary op left right pos ihl ihr =>
      rw [combine, combine, ihl fun operand ho => h operand (List.mem_append_left _ ho),
        ihr fun operand ho => h operand (List.mem_append_right _ ho)]

/-- On columns of one length, an elementwise expression works row by row. -/
theorem combine_rowwise {e : Expr} {n : Nat} (hn : 0 < n) (he : e.Elementwise)
    {value : Expr → Except RuntimeError Value}
    (hvalue : ∀ operand ∈ e.operands, ∀ v, value operand = .ok v → v.Columnar n)
    (division : Division) :
    Rowwise n (fun r => e.combine (fun operand => do return (← value operand).row r) division)
      (e.combine value division) := by
  induction e using operand_induction with
  | operand e h =>
      simp only [combine_of_isOperand h]
      cases hv : value e with
      | ok v => exact .ok (hvalue e (by simp [operands_of_isOperand h]) v hv) fun _ _ => rfl
      | error e => exact .error hn rfl
  | unary op e pos ih =>
      simp only [combine]
      refine (ih he.2 hvalue).bind fun v hv => ?_
      exact (Operation.unary_rowwise hn hv he.1).locate pos
  | binary op left right pos ihl ihr =>
      simp only [combine]
      have hleft := ihl he.2.1 fun operand h => hvalue operand (List.mem_append_left _ h)
      have hright := ihr he.2.2 fun operand h => hvalue operand (List.mem_append_right _ h)
      refine hleft.bind fun u hu => hright.bind fun w hw => ?_
      exact (Operation.binary_rowwise hn hu hw he.1.2).locate pos

/-- The array operands of a result are as long as the result, and only they make it an array. -/
theorem combine_length? {e : Expr} {value : Expr → Except RuntimeError Value}
    {division : Division} {v : Value} (he : e.Elementwise)
    (h : e.combine value division = .ok v) :
    (∀ operand ∈ e.operands, ∃ u, value operand = .ok u ∧
      ∀ n, u.length? = some n → v.length? = some n) ∧
    ∀ n, v.length? = some n → ∃ operand ∈ e.operands, ∃ u, value operand = .ok u ∧
      u.length? = some n := by
  induction e using operand_induction generalizing v with
  | operand e ho =>
      rw [combine_of_isOperand ho] at h
      rw [operands_of_isOperand ho]
      refine ⟨?_, fun n hn => ⟨e, by simp, v, h, hn⟩⟩
      intro operand hmem
      obtain rfl := List.mem_singleton.mp hmem
      exact ⟨v, h, fun _ hn => hn⟩
  | unary op e pos ih =>
      obtain ⟨u, hu, h⟩ := bind_eq_ok.mp h
      have hlength := Operation.length?_of_unary he.1 (Fault.locate_eq_ok.mp h)
      rw [hlength]
      exact ih he.2 hu
  | binary op left right pos ihl ihr =>
      obtain ⟨u, hu, h⟩ := bind_eq_ok.mp h
      obtain ⟨w, hw, h⟩ := bind_eq_ok.mp h
      obtain ⟨hlength, hagree⟩ := Operation.length?_of_binary he.1.2 (Fault.locate_eq_ok.mp h)
      obtain ⟨hleft, hleft'⟩ := ihl he.2.1 hu
      obtain ⟨hright, hright'⟩ := ihr he.2.2 hw
      rw [hlength]
      constructor
      · intro operand hmem
        rcases List.mem_append.mp hmem with hmem | hmem
        · obtain ⟨a, ha, hn⟩ := hleft operand hmem
          exact ⟨a, ha, fun n h => by rw [hn n h, Option.some_or]⟩
        · obtain ⟨a, ha, hn⟩ := hright operand hmem
          refine ⟨a, ha, fun n h => ?_⟩
          cases hu' : u.length? with
          | none => exact hn n h
          | some m => rw [Option.some_or, hagree m n hu' (hn n h)]
      · intro n hn
        rcases Option.or_eq_some_iff.mp hn with hn | ⟨_, hn⟩
        · obtain ⟨operand, hmem, ha⟩ := hleft' n hn
          exact ⟨operand, List.mem_append_left _ hmem, ha⟩
        · obtain ⟨operand, hmem, ha⟩ := hright' n hn
          exact ⟨operand, List.mem_append_right _ hmem, ha⟩

end Expr

/-! ## Adding a value -/

namespace Value

/-- The whole value, or its value on one row. -/
def select : Option Nat → Value → Value
  | none, v => v
  | some r, v => v.row r

/-- Values that can stand beside columns of the given length, scalars alone where there is none. -/
def Fits (v : Value) : Option Nat → Prop
  | none => v.isScalar = true
  | some n => v.Columnar n

theorem Fits.of_isScalar {v : Value} (h : v.isScalar = true) (rows : Option Nat) :
    v.Fits rows := by
  cases rows with
  | none => exact h
  | some n => exact .scalar h

end Value

namespace Program

open Value

/-- A program continues another one: it keeps the operands and the length of the columns. -/
structure Extends (q p : Program) : Prop where
  operands : p.operands.toList <+: q.operands.toList
  rows : ∀ n, p.rows = some n → q.rows = some n

theorem Extends.refl (p : Program) : p.Extends p := ⟨List.prefix_rfl, fun _ h => h⟩

theorem Extends.trans {p q r : Program} (hr : r.Extends q) (hq : q.Extends p) : r.Extends p :=
  ⟨hq.operands.trans hr.operands, fun n h => hr.rows n (hq.rows n h)⟩

theorem Extends.fits {p q : Program} (h : q.Extends p) {v : Value} (hv : v.Fits p.rows) :
    v.Fits q.rows := by
  cases hp : p.rows with
  | none =>
      rw [hp] at hv
      exact .of_isScalar hv _
  | some n => rwa [h.rows n hp, ← hp]

/-- A row that a program can be run on: none where there are no columns, else one below their
length. -/
def HasRow (p : Program) (row : Option Nat) : Prop :=
  ∀ r n, row = some r → p.rows = some n → r < n

/-- What adding a value leaves: an instruction that pushes the value, on every row of every program
that continues this one. -/
structure Adds (p p' : Program) (v : Value) : Prop where
  instructions : p'.instructions.toList = p.instructions.toList ++ [.push p.operands.size]
  continues : p'.Extends p
  operand : ∀ (q : Program) (row : Option Nat), q.Extends p' → q.HasRow row →
    q.operands[p.operands.size]?.bind (Operand.at? row) = some (v.select row)
  fits : v.Fits p'.rows
  rows : p'.rows = p.rows.or v.length?

theorem getElem?_addOperand {p q : Program} {operand : Operand}
    (h : (p.operands.push operand).toList <+: q.operands.toList) :
    q.operands[p.operands.size]? = some operand := by
  obtain ⟨more, hmore⟩ := h
  rw [← Array.getElem?_toList, ← hmore]
  simp

theorem adds_addOperand_scalar {p : Program} {v : Value} (hv : v.isScalar = true) :
    p.Adds (p.addOperand (.scalar v)) v where
  instructions := Array.toList_push
  continues := ⟨⟨[.scalar v], Array.toList_push.symm⟩, fun _ h => h⟩
  operand q row hq _ := by
    rw [getElem?_addOperand hq.operands]
    cases row with
    | none => rfl
    | some r => simp [Operand.at?, select, row_of_isScalar hv]
  fits := .of_isScalar hv _
  rows := by rw [(length?_eq_none_iff v).mpr hv, Option.or_none, addOperand, emit]

theorem adds_addOperand_column {p : Program} {items : List Value}
    (hflat : ∀ item ∈ items, item.isScalar = true)
    (hrows : ∀ n, p.rows = some n → n = items.length) :
    p.Adds { p.addOperand (.column items.toArray) with rows := some items.length }
      (.array items) where
  instructions := Array.toList_push
  continues := ⟨⟨[.column items.toArray], Array.toList_push.symm⟩, fun n h => by rw [hrows n h]⟩
  operand q row hq hrow := by
    rw [getElem?_addOperand hq.operands]
    cases row with
    | none => rfl
    | some r =>
        have hr : r < items.length := hrow r _ rfl (hq.rows _ rfl)
        simp [Operand.at?, select, row_array_of_lt hr, hr]
  fits := .column rfl hflat
  rows := by
    cases hp : p.rows with
    | none => rfl
    | some n => rw [hrows n hp, Option.some_or]

theorem addValue_of_isScalar {v : Value} (h : v.isScalar = true) (p : Program) (pos : Nat) :
    p.addValue v pos = .ok (p.addOperand (.scalar v)) := by
  cases v <;> first | rfl | cases h

/-- A value is added as a scalar, or as a flat column that is as long as the columns before it. -/
theorem addValue_cases {p p' : Program} {v : Value} {pos : Nat}
    (h : p.addValue v pos = .ok p') :
    (v.isScalar = true ∧ p' = p.addOperand (.scalar v)) ∨
    ∃ items, v = .array items ∧ (∀ item ∈ items, item.isScalar = true) ∧
      (∀ n, p.rows = some n → n = items.length) ∧
      p' = { p.addOperand (.column items.toArray) with rows := some items.length } := by
  cases hv : v.length? with
  | none =>
      have hscalar := (length?_eq_none_iff v).mp hv
      rw [addValue_of_isScalar hscalar] at h
      cases h
      exact .inl ⟨hscalar, rfl⟩
  | some n =>
      obtain ⟨items, rfl, _⟩ := (length?_eq_some_iff v n).mp hv
      simp only [addValue] at h
      split at h
      · rename_i hflat
        have hflat : ∀ item ∈ items, item.isScalar = true := List.all_eq_true.mp hflat
        split at h
        · rename_i hnone
          cases h
          exact .inr ⟨items, rfl, hflat, by simp [hnone], rfl⟩
        · rename_i m hsome
          split at h
          · rename_i hm
            cases h
            refine .inr ⟨items, rfl, hflat, by simp [hsome, hm], ?_⟩
            rw [← hm, ← hsome]
            rfl
          · cases h
      · cases h

theorem adds_of_addValue {p p' : Program} {v : Value} {pos : Nat}
    (h : p.addValue v pos = .ok p') : p.Adds p' v := by
  rcases addValue_cases h with ⟨hscalar, rfl⟩ | ⟨items, rfl, hflat, hrows, rfl⟩
  · exact adds_addOperand_scalar hscalar
  · exact adds_addOperand_column hflat hrows

/-- A flat value can be added where the columns have its length. -/
theorem addValue_succeeds {p : Program} {v : Value} {n : Nat} (pos : Nat)
    (hv : v.Columnar n) (hrows : ∀ m, p.rows = some m → m = n) :
    ∃ p', p.addValue v pos = .ok p' := by
  cases hv with
  | scalar h => exact ⟨_, addValue_of_isScalar h p pos⟩
  | @column items hlength hflat =>
      rw [addValue, if_pos (List.all_eq_true.mpr hflat)]
      cases hp : p.rows with
      | none => exact ⟨_, rfl⟩
      | some m => exact ⟨_, if_pos ((hrows m hp).trans hlength.symm)⟩

/-! ## Lowering an expression -/

section

variable {terms : Bindings} {division : Division} {pos : Nat} {p p' : Program}

theorem lower_operand_eq_ok {e : Expr} (he : e.isOperand = true) :
    lower terms division e p = .ok p' ↔
      ∃ v, e.eval terms division = .ok v ∧ p.addValue v e.pos = .ok p' := by
  rw [Expr.lower_of_isOperand he, bind_eq_ok]

theorem lower_unary_eq_ok {op : UnaryOp} {operand : Expr} :
    lower terms division (.unary op operand pos) p = .ok p' ↔
      op ≠ .not ∧ ∃ p₁, lower terms division operand p = .ok p₁ ∧ p₁.emit (.unary op pos) = p' := by
  rw [lower]
  split
  · rename_i hop
    simp [hop]
  · rename_i hop
    simp [hop, bind_eq_ok]

theorem lower_binary_eq_ok {op : BinaryOp} {left right : Expr} :
    lower terms division (.binary op left right pos) p = .ok p' ↔
      (op ≠ .floorDiv ∧ op ≠ .and ∧ op ≠ .or) ∧
        ∃ p₁, lower terms division left p = .ok p₁ ∧
          ∃ p₂, lower terms division right p₁ = .ok p₂ ∧ p₂.emit (.binary op pos) = p' := by
  have hlacks : lacks op = true ↔ ¬ (op ≠ .floorDiv ∧ op ≠ .and ∧ op ≠ .or) := by
    cases op <;> decide
  rw [lower]
  split
  · rename_i hop
    simp [hlacks.mp hop]
  · rename_i hop
    simp [Decidable.not_not.mp (mt hlacks.mpr hop), bind_eq_ok]

end

/-- The value of an operand of an expression on a row. -/
def rowValue (terms : Bindings) (division : Division) (row : Option Nat) (operand : Expr) :
    Except RuntimeError Value := do
  return (← operand.eval terms division).select row

/-- What lowering an expression leaves: code that pushes the value of the expression on every row
of every program that continues this one. -/
structure Lowers (terms : Bindings) (division : Division) (e : Expr) (p p' : Program) : Prop where
  continues : p'.Extends p
  code : ∃ code, p'.instructions.toList = p.instructions.toList ++ code ∧
    ∀ (q : Program) (row : Option Nat), q.Extends p' → q.HasRow row → ∀ stack,
      code.foldlM (q.step division row) stack =
        (do return (← e.combine (rowValue terms division row) division) :: stack)

theorem lowers_of_lower {terms : Bindings} {division : Division} {e : Expr} {p p' : Program}
    (h : lower terms division e p = .ok p') : Lowers terms division e p p' := by
  induction e using Expr.operand_induction generalizing p p' with
  | operand e he =>
      obtain ⟨v, hv, h⟩ := (lower_operand_eq_ok he).mp h
      have hadds := adds_of_addValue h
      refine ⟨hadds.continues, _, hadds.instructions, ?_⟩
      intro q row hq hrow stack
      rw [Expr.combine_of_isOperand he, rowValue, hv]
      simp [step, hadds.operand q row hq hrow]
  | unary op e pos ih =>
      obtain ⟨-, p₁, h₁, rfl⟩ := lower_unary_eq_ok.mp h
      obtain ⟨hcontinues, code, hcode, hrun⟩ := ih h₁
      refine ⟨⟨hcontinues.operands, hcontinues.rows⟩, code ++ [.unary op pos], ?_, ?_⟩
      · rw [emit, Array.toList_push, hcode, List.append_assoc]
      · intro q row hq hrow stack
        rw [List.foldlM_append, hrun q row ⟨hq.operands, hq.rows⟩ hrow stack, Expr.combine]
        simp [step]
  | binary op left right pos ihl ihr =>
      obtain ⟨-, p₁, h₁, p₂, h₂, rfl⟩ := lower_binary_eq_ok.mp h
      obtain ⟨hcontinues₁, code₁, hcode₁, hrun₁⟩ := ihl h₁
      obtain ⟨hcontinues₂, code₂, hcode₂, hrun₂⟩ := ihr h₂
      have hboth := hcontinues₂.trans hcontinues₁
      refine ⟨⟨hboth.operands, hboth.rows⟩, code₁ ++ code₂ ++ [.binary op pos], ?_, ?_⟩
      · rw [emit, Array.toList_push, hcode₂, hcode₁, List.append_assoc, List.append_assoc,
          List.append_assoc]
      · intro q row hq hrow stack
        have hq₂ : q.Extends p₂ := ⟨hq.operands, hq.rows⟩
        rw [List.foldlM_append, List.foldlM_append,
          hrun₁ q row (hq₂.trans hcontinues₂) hrow stack, Expr.combine]
        simp [hrun₂ q row hq₂ hrow, step]

/-- Only an elementwise expression is lowered, and only when its operands evaluate to values that
fit the columns; the columns have their length from an operand. -/
theorem operands_of_lower {terms : Bindings} {division : Division} {e : Expr} {p p' : Program}
    (h : lower terms division e p = .ok p') :
    e.Elementwise ∧
    (∀ operand ∈ e.operands, ∃ v, operand.eval terms division = .ok v ∧ v.Fits p'.rows) ∧
    ∀ n, p'.rows = some n → p.rows = some n ∨ ∃ operand ∈ e.operands, ∃ v,
      operand.eval terms division = .ok v ∧ v.length? = some n := by
  induction e using Expr.operand_induction generalizing p p' with
  | operand e he =>
      obtain ⟨v, hv, h⟩ := (lower_operand_eq_ok he).mp h
      have hadds := adds_of_addValue h
      rw [Expr.operands_of_isOperand he]
      refine ⟨Expr.elementwise_of_isOperand he, ?_, ?_⟩
      · intro operand hmem
        obtain rfl := List.mem_singleton.mp hmem
        exact ⟨v, hv, hadds.fits⟩
      · intro n hn
        rw [hadds.rows] at hn
        rcases Option.or_eq_some_iff.mp hn with hn | ⟨_, hn⟩
        · exact .inl hn
        · exact .inr ⟨e, by simp, v, hv, hn⟩
  | unary op e pos ih =>
      obtain ⟨hop, p₁, h₁, rfl⟩ := lower_unary_eq_ok.mp h
      obtain ⟨helem, hfits, hlength⟩ := ih h₁
      exact ⟨⟨hop, helem⟩, hfits, hlength⟩
  | binary op left right pos ihl ihr =>
      obtain ⟨hop, p₁, h₁, p₂, h₂, rfl⟩ := lower_binary_eq_ok.mp h
      obtain ⟨helem₁, hfits₁, hlength₁⟩ := ihl h₁
      obtain ⟨helem₂, hfits₂, hlength₂⟩ := ihr h₂
      refine ⟨⟨hop, helem₁, helem₂⟩, ?_, ?_⟩
      · intro operand hmem
        rcases List.mem_append.mp hmem with hmem | hmem
        · obtain ⟨v, hv, hfits⟩ := hfits₁ operand hmem
          exact ⟨v, hv, (lowers_of_lower h₂).continues.fits hfits⟩
        · exact hfits₂ operand hmem
      · intro n hn
        rcases hlength₂ n hn with hn | ⟨operand, hmem, hv⟩
        · rcases hlength₁ n hn with hn | ⟨operand, hmem, hv⟩
          · exact .inl hn
          · exact .inr ⟨operand, List.mem_append_left _ hmem, hv⟩
        · exact .inr ⟨operand, List.mem_append_right _ hmem, hv⟩

/-- An elementwise expression is lowered when its operands evaluate to scalars and columns of one
length. -/
theorem lower_succeeds {terms : Bindings} {division : Division} {e : Expr} {n : Nat}
    {p : Program} (he : e.Elementwise)
    (hoperands : ∀ operand ∈ e.operands, ∃ v, operand.eval terms division = .ok v ∧ v.Columnar n)
    (hrows : ∀ m, p.rows = some m → m = n) :
    ∃ p', lower terms division e p = .ok p' ∧ ∀ m, p'.rows = some m → m = n := by
  induction e using Expr.operand_induction generalizing p with
  | operand e ho =>
      obtain ⟨v, hv, hcolumnar⟩ := hoperands e (by simp [Expr.operands_of_isOperand ho])
      obtain ⟨p', hp'⟩ := addValue_succeeds e.pos hcolumnar hrows
      refine ⟨p', (lower_operand_eq_ok ho).mpr ⟨v, hv, hp'⟩, ?_⟩
      intro m hm
      rw [(adds_of_addValue hp').rows] at hm
      rcases Option.or_eq_some_iff.mp hm with hm | ⟨_, hm⟩
      · exact hrows m hm
      · exact hcolumnar.length? hm
  | unary op e pos ih =>
      obtain ⟨p₁, h₁, hrows₁⟩ := ih he.2 hoperands hrows
      exact ⟨_, lower_unary_eq_ok.mpr ⟨he.1, p₁, h₁, rfl⟩, hrows₁⟩
  | binary op left right pos ihl ihr =>
      obtain ⟨p₁, h₁, hrows₁⟩ :=
        ihl he.2.1 (fun operand h => hoperands operand (List.mem_append_left _ h)) hrows
      obtain ⟨p₂, h₂, hrows₂⟩ :=
        ihr he.2.2 (fun operand h => hoperands operand (List.mem_append_right _ h)) hrows₁
      exact ⟨_, lower_binary_eq_ok.mpr ⟨he.1, p₁, h₁, p₂, h₂, rfl⟩, hrows₂⟩

/-! ## Running a lowered program -/

section

variable {terms : Bindings} {division : Division} {e : Expr} {p : Program}
    (h : lower terms division e {} = .ok p)
include h

/-- A program gives on a row the value of its expression on that row. -/
theorem run_of_lower {row : Option Nat} (hrow : p.HasRow row) :
    p.run division row = e.combine (rowValue terms division row) division := by
  obtain ⟨_, code, hcode, hrun⟩ := lowers_of_lower h
  rw [run, ← Array.foldlM_toList, hcode, List.nil_append, hrun p row (.refl p) hrow]
  simp

/-- Without columns, a program gives the value of its expression. -/
theorem value_of_lower_of_none (hrows : p.rows = none) :
    p.value division = e.eval terms division := by
  have hrow : p.HasRow none := fun _ _ h _ => nomatch h
  rw [value, hrows, run_of_lower h hrow, Expr.eval_eq_combine (operands_of_lower h).1]
  apply Expr.combine_congr
  intro operand _
  simp [rowValue, select]

/-- With columns, a program gives the array of the values of its expression on their rows. -/
theorem value_of_lower_of_some {n : Nat} (hrows : p.rows = some n) :
    p.value division =
      (do return .array (← (List.range n).mapM fun r =>
        e.combine (rowValue terms division (some r)) division)) := by
  have hrun : (List.range n).mapM (fun r => p.run division (some r)) =
      (List.range n).mapM fun r => e.combine (rowValue terms division (some r)) division := by
    apply mapM_congr
    intro r hr
    apply run_of_lower h
    intro r' m hr' hm
    cases hr'
    rw [hrows] at hm
    cases hm
    exact List.mem_range.mp hr
  rw [value, hrows, ← hrun]

end

end Program

end Formula
