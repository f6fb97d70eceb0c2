import Formula.Proofs.Accelerated.Lowering
import Formula.Proofs.Evaluation.Faults

/-! # Well-formed programs

The code of a lowered program names operands that are there, and it takes from a stack nothing but
what it has put there itself. So it can be run on any stack and on every row of the columns, and
only an operation on values can fail. -/

namespace Formula

namespace Instruction

/-! ## Heights of the stack -/

/-- How many values the instruction takes off the stack. It puts one value back. -/
def pops : Instruction → Nat
  | push _ => 0
  | unary _ _ => 1
  | binary _ _ => 2

/-- The height of a stack after the instruction, if the stack is high enough for it. -/
def climb? (height : Nat) (i : Instruction) : Option Nat :=
  if i.pops ≤ height then some (height - i.pops + 1) else none

/-- The code finds on a stack of any height what it takes off it, and ends one value higher. -/
def AddsOne (code : List Instruction) : Prop :=
  ∀ height, code.foldlM climb? height = some (height + 1)

theorem climb?_eq_some_iff {height next : Nat} {i : Instruction} :
    i.climb? height = some next ↔ i.pops ≤ height ∧ next + i.pops = height + 1 := by
  rw [climb?]
  split
  · rw [Option.some_inj]
    omega
  · simp only [reduceCtorEq, false_iff, not_and]
    omega

theorem addsOne_push (operand : Nat) : AddsOne [push operand] := fun _ => rfl

theorem AddsOne.unary {code : List Instruction} (h : AddsOne code) (op : UnaryOp) (pos : Nat) :
    AddsOne (code ++ [unary op pos]) := by
  intro height
  rw [List.foldlM_append, h height]
  simp [climb?, pops]

/-- The code of the right operand leaves the value of the left one below its own. -/
theorem AddsOne.binary {left right : List Instruction} (hleft : AddsOne left)
    (hright : AddsOne right) (op : BinaryOp) (pos : Nat) :
    AddsOne (left ++ right ++ [binary op pos]) := by
  intro height
  rw [List.foldlM_append, List.foldlM_append, hleft height, Option.bind_eq_bind, Option.bind_some,
    hright (height + 1)]
  simp [climb?, pops]

/-! ## Failing operations -/

/-- The operation of the instruction fails on the values that it takes off the stack. -/
inductive Refuses (division : Division) : Instruction → List Value → RuntimeError → Prop where
  | unary {op : UnaryOp} {pos : Nat} {value : Value} {below : List Value} {fault : Fault}
      (h : Operation.unary op value = .error fault) :
      Refuses division (.unary op pos) (value :: below) ⟨fault, pos⟩
  | binary {op : BinaryOp} {pos : Nat} {left right : Value} {below : List Value} {fault : Fault}
      (h : Operation.binary division op left right = .error fault) :
      Refuses division (.binary op pos) (right :: left :: below) ⟨fault, pos⟩

/-- Such an error is one that values can cause, and not that of a malformed program. -/
theorem Refuses.ofValues {division : Division} {i : Instruction} {stack : List Value}
    {error : RuntimeError} (h : i.Refuses division stack error) : error.fault.OfValues := by
  cases h with
  | unary h => exact Operation.failsWith_unary _ _ _ h
  | binary h => exact Operation.failsWith_binary _ _ _ _ _ h

end Instruction

namespace Program

open Instruction

variable {p p' : Program} {division : Division} {row : Option Nat} {i : Instruction}

/-! ## One instruction -/

/-- An instruction puts one value in the place of those that it takes off the stack. -/
theorem step_eq_ok {stack stack' : List Value} (h : p.step division row stack i = .ok stack') :
    ∃ taken below v, stack = taken ++ below ∧ taken.length = i.pops ∧ stack' = v :: below := by
  cases i with
  | push operand =>
      simp only [step] at h
      split at h
      · cases h
        exact ⟨[], stack, _, rfl, rfl, rfl⟩
      · cases h
  | unary op pos =>
      cases stack with
      | nil => cases h
      | cons value below =>
          obtain ⟨v, -, h⟩ := bind_eq_ok.mp h
          cases h
          exact ⟨[value], below, v, rfl, rfl, rfl⟩
  | binary op pos =>
      rcases stack with _ | ⟨right, _ | ⟨left, below⟩⟩
      · cases h
      · cases h
      · obtain ⟨v, -, h⟩ := bind_eq_ok.mp h
        cases h
        exact ⟨[right, left], below, v, rfl, rfl, rfl⟩

/-- An instruction that finds its operand and the values that it takes fails in its operation. -/
theorem refuses_of_step {stack : List Value} {error : RuntimeError}
    (hpops : i.pops ≤ stack.length)
    (hoperand : ∀ n, i = .push n → ∃ v, p.operands[n]?.bind (Operand.at? row) = some v)
    (h : p.step division row stack i = .error error) : i.Refuses division stack error := by
  cases i with
  | push operand =>
      obtain ⟨v, hv⟩ := hoperand operand rfl
      simp only [step, hv] at h
      cases h
  | unary op pos =>
      cases stack with
      | nil => cases hpops
      | cons value below =>
          rcases bind_eq_error.mp h with h | ⟨_, -, h⟩
          · obtain ⟨fault, hfault, rfl⟩ := Fault.locate_eq_error.mp h
            exact .unary hfault
          · cases h
  | binary op pos =>
      rcases stack with _ | ⟨right, _ | ⟨left, below⟩⟩
      · simp [pops] at hpops
      · simp [pops] at hpops
      · rcases bind_eq_error.mp h with h | ⟨_, -, h⟩
        · obtain ⟨fault, hfault, rfl⟩ := Fault.locate_eq_error.mp h
          exact .binary hfault
        · cases h

/-! ## Code on a stack -/

/-- Code that has put values on a stack leaves what is below them as it is. -/
theorem exists_append_of_foldlM_step {code : List Instruction} {below stack : List Value}
    {height : Nat} (above : List Value) (hclimb : code.foldlM climb? above.length = some height)
    (h : code.foldlM (p.step division row) (above ++ below) = .ok stack) :
    ∃ above', stack = above' ++ below ∧ above'.length = height := by
  induction code generalizing above with
  | nil =>
      cases hclimb
      cases h
      exact ⟨above, rfl, rfl⟩
  | cons i code ih =>
      rw [List.foldlM_cons] at hclimb h
      obtain ⟨next, hi, hrest⟩ := Option.bind_eq_some_iff.mp hclimb
      obtain ⟨hpops, hnext⟩ := climb?_eq_some_iff.mp hi
      obtain ⟨stack', hstep, h⟩ := bind_eq_ok.mp h
      obtain ⟨taken, left, v, hsplit, htaken, rfl⟩ := step_eq_ok hstep
      -- what the instruction takes is no more than the code has put there
      obtain ⟨kept, rfl⟩ : taken <+: above :=
        List.prefix_of_prefix_length_le ⟨left, hsplit.symm⟩ (List.prefix_append above below)
          (by omega)
      rw [List.append_assoc, List.append_cancel_left_eq] at hsplit
      subst hsplit
      have hnext : (v :: kept).length = next := by
        rw [List.length_append] at hnext
        rw [List.length_cons]
        omega
      exact ih (v :: kept) (hnext ▸ hrest) h

/-! ## Well-formed programs -/

/-- The operands that instructions push are there, and the columns are flat and of one length, the
number of rows. -/
structure Furnished (p : Program) : Prop where
  operand : ∀ n, Instruction.push n ∈ p.instructions → n < p.operands.size
  column : ∀ items, Operand.column items ∈ p.operands →
    p.rows = some items.size ∧ ∀ item ∈ items, item.isScalar = true
  rows : p.rows = none ↔ ∀ items, Operand.column items ∉ p.operands

/-- Besides, the code adds one value to a stack. -/
structure WellFormed (p : Program) : Prop extends Furnished p where
  code : AddsOne p.instructions.toList

theorem furnished_empty : Furnished {} where
  operand := by simp
  column := by simp
  rows := by simp

namespace Furnished

theorem emit (h : p.Furnished) (hi : ∀ n, i ≠ .push n) : (p.emit i).Furnished where
  operand n hn := by
    rcases Array.mem_push.mp hn with hn | hn
    · exact h.operand n hn
    · exact absurd hn.symm (hi n)
  column := h.column
  rows := h.rows

theorem lt_size_addOperand (h : p.Furnished) {operand : Operand} {n : Nat}
    (hn : Instruction.push n ∈ (p.addOperand operand).instructions) :
    n < (p.addOperand operand).operands.size := by
  have hsize : (p.addOperand operand).operands.size = p.operands.size + 1 := Array.size_push _
  rw [hsize]
  rcases Array.mem_push.mp hn with hn | hn
  · exact Nat.lt_succ_of_lt (h.operand n hn)
  · cases hn
    exact Nat.lt_succ_self _

theorem addOperand_scalar (h : p.Furnished) (v : Value) :
    (p.addOperand (.scalar v)).Furnished := by
  have hmem : ∀ items, Operand.column items ∈ (p.addOperand (.scalar v)).operands ↔
      Operand.column items ∈ p.operands := by
    intro items
    rw [addOperand, Array.mem_push, or_iff_left Operand.noConfusion]
  refine ⟨fun n hn => h.lt_size_addOperand hn, fun items hitems => ?_, ?_⟩
  · exact h.column items ((hmem items).mp hitems)
  · simp only [hmem]
    exact h.rows

/-- The first column sets the number of rows, and any other has as many. -/
theorem addOperand_column (h : p.Furnished) {items : List Value}
    (hflat : ∀ item ∈ items, item.isScalar = true)
    (hrows : ∀ n, p.rows = some n → n = items.length) :
    Furnished { p.addOperand (.column items.toArray) with rows := some items.length } where
  operand n hn := h.lt_size_addOperand hn
  column others hothers := by
    rcases Array.mem_push.mp hothers with hothers | hothers
    · obtain ⟨hsize, hscalars⟩ := h.column others hothers
      exact ⟨congrArg some (hrows _ hsize).symm, hscalars⟩
    · cases hothers
      exact ⟨rfl, by simpa using hflat⟩
  rows := by
    refine iff_of_false (Option.some_ne_none _) fun hnone => ?_
    exact hnone items.toArray (Array.mem_push.mpr (.inr rfl))

theorem of_addValue (h : p.Furnished) {v : Value} {pos : Nat}
    (hadd : p.addValue v pos = .ok p') : p'.Furnished := by
  rcases addValue_cases hadd with ⟨-, rfl⟩ | ⟨items, rfl, hflat, hrows, rfl⟩
  · exact h.addOperand_scalar v
  · exact h.addOperand_column hflat hrows

end Furnished

/-- Lowering keeps a program furnished, and the code that it appends adds one value to a stack. -/
theorem furnished_of_lower {terms : Bindings} {e : Expr}
    (h : lower terms division e p = .ok p') (hp : p.Furnished) :
    p'.Furnished ∧ ∃ code, p'.instructions.toList = p.instructions.toList ++ code ∧
      AddsOne code := by
  induction e using Expr.operand_induction generalizing p p' with
  | operand e he =>
      obtain ⟨v, -, h⟩ := (lower_operand_eq_ok he).mp h
      exact ⟨hp.of_addValue h, _, (adds_of_addValue h).instructions, addsOne_push _⟩
  | unary op e pos ih =>
      obtain ⟨-, p₁, h₁, rfl⟩ := lower_unary_eq_ok.mp h
      obtain ⟨hp₁, code, hcode, hadds⟩ := ih h₁ hp
      refine ⟨hp₁.emit fun _ => Instruction.noConfusion, _, ?_, hadds.unary op pos⟩
      rw [emit, Array.toList_push, hcode, List.append_assoc]
  | binary op left right pos ihl ihr =>
      obtain ⟨-, p₁, h₁, p₂, h₂, rfl⟩ := lower_binary_eq_ok.mp h
      obtain ⟨hp₁, code₁, hcode₁, hadds₁⟩ := ihl h₁ hp
      obtain ⟨hp₂, code₂, hcode₂, hadds₂⟩ := ihr h₂ hp₁
      refine ⟨hp₂.emit fun _ => Instruction.noConfusion, _, ?_, hadds₁.binary hadds₂ op pos⟩
      rw [emit, Array.toList_push, hcode₂, hcode₁]
      simp only [List.append_assoc]

/-! ## Runs of well-formed programs -/

/-- Started on the stack `bottom`, the program comes to the instruction with `stack`. -/
def Reaches (p : Program) (division : Division) (row : Option Nat) (bottom : List Value)
    (i : Instruction) (stack : List Value) : Prop :=
  ∃ before after, p.instructions.toList = before ++ i :: after ∧
    before.foldlM (p.step division row) bottom = .ok stack

theorem Reaches.mem {bottom stack : List Value} (h : p.Reaches division row bottom i stack) :
    i ∈ p.instructions := by
  obtain ⟨before, after, hcode, -⟩ := h
  rw [← Array.mem_toList_iff, hcode]
  exact List.mem_append_cons_self

/-- What a program takes off the stack lies above the values that it is started on, and at its end
there is one value above them. -/
structure KeepsStack (p : Program) (division : Division) (row : Option Nat)
    (bottom : List Value) : Prop where
  takes : ∀ i stack, p.Reaches division row bottom i stack →
    ∃ above, stack = above ++ bottom ∧ i.pops ≤ above.length
  ends : ∀ stack, p.instructions.toList.foldlM (p.step division row) bottom = .ok stack →
    ∃ v, stack = v :: bottom

/-- The error is that of an operation on the values that the program has come to. -/
def Refuses (p : Program) (division : Division) (row : Option Nat) (bottom : List Value)
    (error : RuntimeError) : Prop :=
  ∃ i stack, p.Reaches division row bottom i stack ∧ i.Refuses division stack error

/-- Every operand that is pushed has a value on the row, and the program ends with one value more
unless an operation fails. -/
structure Executes (p : Program) (division : Division) (row : Option Nat)
    (bottom : List Value) : Prop where
  pushes : ∀ n stack, p.Reaches division row bottom (.push n) stack →
    ∃ v, p.operands[n]?.bind (Operand.at? row) = some v
  outcome :
    (∃ v, p.instructions.toList.foldlM (p.step division row) bottom = .ok (v :: bottom)) ∨
    ∃ error, p.instructions.toList.foldlM (p.step division row) bottom = .error error ∧
      p.Refuses division row bottom error

namespace WellFormed

theorem keepsStack (h : p.WellFormed) (bottom : List Value) :
    p.KeepsStack division row bottom where
  takes i stack := by
    rintro ⟨before, after, hcode, hbefore⟩
    have hclimb := h.code 0
    rw [hcode, List.foldlM_append, Option.bind_eq_bind] at hclimb
    obtain ⟨height, hclimb, hrest⟩ := Option.bind_eq_some_iff.mp hclimb
    obtain ⟨next, hi, -⟩ := Option.bind_eq_some_iff.mp hrest
    obtain ⟨above, rfl, rfl⟩ := exists_append_of_foldlM_step [] hclimb hbefore
    exact ⟨above, rfl, (climb?_eq_some_iff.mp hi).1⟩
  ends stack hstack := by
    obtain ⟨above, rfl, hlength⟩ := exists_append_of_foldlM_step [] (h.code 0) hstack
    obtain ⟨v, rfl⟩ := List.length_eq_one_iff.mp hlength
    exact ⟨v, rfl⟩

theorem exists_operand (h : p.WellFormed) (hrow : p.HasRow row) {n : Nat}
    (hn : Instruction.push n ∈ p.instructions) :
    ∃ v, p.operands[n]?.bind (Operand.at? row) = some v := by
  have hlt := h.operand n hn
  rw [Array.getElem?_eq_getElem hlt, Option.bind_some]
  cases hoperand : p.operands[n] with
  | scalar v => exact ⟨v, rfl⟩
  | column items =>
      cases row with
      | none => exact ⟨_, rfl⟩
      | some r =>
          obtain ⟨hrows, -⟩ := h.column items (hoperand ▸ Array.getElem_mem hlt)
          exact ⟨_, Array.getElem?_eq_getElem (hrow r _ rfl hrows)⟩

theorem refuses_of_error (h : p.WellFormed) (hrow : p.HasRow row) {bottom : List Value}
    {error : RuntimeError}
    (herror : p.instructions.toList.foldlM (p.step division row) bottom = .error error) :
    p.Refuses division row bottom error := by
  obtain ⟨before, i, after, stack, hcode, hbefore, hi⟩ := exists_step_of_foldlM_eq_error herror
  have hreaches : p.Reaches division row bottom i stack := ⟨before, after, hcode, hbefore⟩
  obtain ⟨above, rfl, hpops⟩ := (h.keepsStack bottom).takes i stack hreaches
  refine ⟨i, _, hreaches, refuses_of_step ?_ ?_ hi⟩
  · rw [List.length_append]
    exact Nat.le_add_right_of_le hpops
  · rintro n rfl
    exact h.exists_operand hrow hreaches.mem

theorem executes (h : p.WellFormed) (hrow : p.HasRow row) (bottom : List Value) :
    p.Executes division row bottom where
  pushes n stack hreaches := h.exists_operand hrow hreaches.mem
  outcome := by
    cases hrun : p.instructions.toList.foldlM (p.step division row) bottom with
    | ok stack =>
        obtain ⟨v, rfl⟩ := (h.keepsStack bottom).ends stack hrun
        exact .inl ⟨v, rfl⟩
    | error error => exact .inr ⟨error, rfl, h.refuses_of_error hrow hrun⟩

/-- The result is there to be taken off the stack at the end. -/
theorem failsWith_run (h : p.WellFormed) (hrow : p.HasRow row) :
    FailsWith (p.Refuses division row []) (p.run division row) := by
  rw [run, ← Array.foldlM_toList]
  refine FailsWith.bind (fun error => h.refuses_of_error hrow) fun stack hstack => ?_
  obtain ⟨v, rfl⟩ := (h.keepsStack []).ends stack hstack
  exact .ok v

end WellFormed

/-- A lowered program is well formed. So it keeps every stack that it is started on, and on every
row it finds all its operands and all that it takes off the stack: only values can make it fail. -/
theorem wellFormed_of_lower {terms : Bindings} {e : Expr}
    (h : lower terms division e {} = .ok p) :
    p.WellFormed ∧
    (∀ division' row bottom, p.KeepsStack division' row bottom) ∧
    ∀ division' row, p.HasRow row → (∀ bottom, p.Executes division' row bottom) ∧
      FailsWith (fun error => p.Refuses division' row [] error ∧ error.fault.OfValues)
        (p.run division' row) := by
  obtain ⟨hfurnished, code, hcode, hadds⟩ := furnished_of_lower h furnished_empty
  have hp : p.WellFormed := ⟨hfurnished, by rw [hcode]; exact hadds⟩
  refine ⟨hp, fun _ _ => hp.keepsStack, fun _ _ hrow => ⟨hp.executes hrow, ?_⟩⟩
  refine (hp.failsWith_run hrow).mono fun error herror => ⟨herror, ?_⟩
  obtain ⟨i, stack, -, hrefuses⟩ := herror
  exact hrefuses.ofValues

/-- The text `1 - (x - -y)`. -/
def nestedDifference : Expr :=
  .binary .sub (.literal (.integer 1) 0)
    (.binary .sub (.name "x" 5) (.unary .negate (.name "y" 10) 9) 7) 2

/-- Its program with a column for `x`. -/
def nestedDifferenceCode : Program where
  instructions := #[.push 0, .push 1, .push 2, .unary .negate 9, .binary .sub 7, .binary .sub 2]
  operands := #[.scalar (.integer 1), .column #[.integer 3, .integer 4], .scalar (.integer 5)]
  rows := some 2

/-- The code on its second row, on a stack that is not empty. -/
theorem wellFormed_of_lower_nestedDifference :
    lower (.ofList [("x", .array [.integer 3, .integer 4]), ("y", .integer 5)]) .exact
      nestedDifference {} = .ok nestedDifferenceCode ∧
    nestedDifferenceCode.WellFormed ∧ nestedDifferenceCode.HasRow (some 1) ∧
    nestedDifferenceCode.KeepsStack .exact (some 1) [.bool true] ∧
    nestedDifferenceCode.Executes .exact (some 1) [.bool true] ∧
    nestedDifferenceCode.run .exact (some 1) = .ok (.integer (-8)) := by
  have hlower : lower (.ofList [("x", .array [.integer 3, .integer 4]), ("y", .integer 5)]) .exact
      nestedDifference {} = .ok nestedDifferenceCode := rfl
  have hrow : nestedDifferenceCode.HasRow (some 1) := by
    rintro r n ⟨⟩ ⟨⟩
    decide
  obtain ⟨hp, hkeeps, hexecutes⟩ := wellFormed_of_lower hlower
  exact ⟨hlower, hp, hrow, hkeeps .exact (some 1) _, (hexecutes .exact (some 1) hrow).1 _, rfl⟩

end Program

end Formula
