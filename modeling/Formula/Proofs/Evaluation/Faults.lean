import Formula.Proofs.Accelerated.Rows
import Formula.Value.Index

/-! # Faults of operations

Whatever values an operation is given, it has no fault of a missing name or of a malformed program,
and no other fault reads like one. -/

namespace Formula

/-- The faults that values can cause. The others are faults of the names and of the program. -/
def Fault.OfValues : Fault → Prop
  | unknownVariable _ | typeMismatch .malformedProgram => False
  | _ => True

/-! ## Messages -/

theorem TypeFault.head?_message {cause : TypeFault} (h : cause ≠ .malformedProgram) :
    cause.message.toList.head? ≠ some 'm' := by
  cases cause with
  | malformedProgram => exact absurd rfl h
  | _ =>
      dsimp only [TypeFault.message, toString]
      simp

theorem Fault.message_ne_malformed {fault : Fault}
    (h : fault ≠ .typeMismatch .malformedProgram) :
    fault.message ≠ (Fault.typeMismatch .malformedProgram).message := by
  cases fault with
  | typeMismatch cause =>
      intro heq
      dsimp only [Fault.message, toString] at heq
      rw [String.append_left_inj, String.append_right_inj] at heq
      refine TypeFault.head?_message (fun hcause => h (congrArg _ hcause)) ?_
      rw [heq]
      rfl
  | _ =>
      -- only the message of a type error has `y` as its second letter
      refine fun heq => absurd (congrArg (fun (s : String) => s.toList[1]?) heq) ?_
      dsimp only [Fault.message, toString]
      simp

namespace Fault.OfValues

variable {fault : Fault}

theorem message_ne (h : fault.OfValues) :
    fault.message ≠ (Fault.typeMismatch .malformedProgram).message := by
  apply message_ne_malformed
  rintro rfl
  exact h

theorem ne_unknownVariable (h : fault.OfValues) (name : String) :
    fault ≠ .unknownVariable name := by
  rintro rfl
  exact h

end Fault.OfValues

/-! ## Kernels -/

namespace Operation

open Fault

variable {op : BinaryOp} {u w : Value}

theorem failsWith_numbers : FailsWith OfValues (numbers op u w) := by
  unfold numbers
  split
  · exact .ok _
  · exact .error trivial

theorem failsWith_checked (n : Option Int64) : FailsWith OfValues (checked n) :=
  .orElse trivial _

theorem failsWith_arithmetic : FailsWith OfValues (arithmetic op u w) := by
  refine failsWith_numbers.bind fun operands _ => ?_
  split
  · exact failsWith_checked _
  · exact failsWith_checked _
  · exact failsWith_checked _
  · exact .ok _
  · exact .ok _
  · exact .ok _
  · exact .error trivial

theorem failsWith_floorDivideIntegers (a b : Int64) :
    FailsWith OfValues (floorDivideIntegers a b) :=
  .ite (.error trivial) (.orElse trivial _)

theorem failsWith_divide {division : Division} : FailsWith OfValues (divide division u w) := by
  refine failsWith_numbers.bind fun operands _ => ?_
  split
  · exact (failsWith_floorDivideIntegers _ _).bind fun _ _ => .ok _
  · exact .ite (.error trivial) (.ok _)

theorem failsWith_floorDivide : FailsWith OfValues (floorDivide u w) := by
  refine failsWith_numbers.bind fun operands _ => ?_
  split
  · exact (failsWith_floorDivideIntegers _ _).bind fun _ _ => .ok _
  · exact .ite (.error trivial) (.ok _)

theorem failsWith_modulo : FailsWith OfValues (modulo u w) := by
  refine failsWith_numbers.bind fun operands _ => .bind ?_ fun _ _ => .ok _
  exact .ite (.error trivial) (.ok _)

theorem failsWith_exponent (n : Int64) : FailsWith OfValues (exponent n) :=
  .ite (.error trivial) (.ite (.error trivial) (.ok _))

theorem failsWith_power : FailsWith OfValues (power u w) := by
  refine failsWith_numbers.bind fun operands _ => ?_
  split
  · exact .ite ((failsWith_exponent _).bind fun _ _ => failsWith_checked _) (.ok _)
  · exact .ok _

theorem failsWith_bitwise : FailsWith OfValues (bitwise op u w) := by
  unfold bitwise
  split
  · exact .ok _
  · split
    · exact .ok _
    · exact .error trivial

theorem failsWith_compareMixed : FailsWith OfValues (compareMixed op u w) := by
  unfold compareMixed
  split
  · exact .ok _
  · exact .ok _
  · exact .error trivial

theorem failsWith_comparison : FailsWith OfValues (comparison op u w) := by
  unfold comparison
  split
  · exact .ok _
  · exact failsWith_compareMixed
  · exact failsWith_compareMixed
  · exact failsWith_numbers.bind fun _ _ => .ok _

theorem failsWith_truth (v : Value) : FailsWith OfValues v.truth := by
  cases v with
  | array items => exact .error trivial
  | _ => exact .ok _

theorem failsWith_decidedByLeft : FailsWith OfValues (decidedByLeft op u) :=
  (failsWith_truth u).bind fun _ _ => .ok _

theorem failsWith_logic : FailsWith OfValues (logic op u w) :=
  failsWith_decidedByLeft.bind fun _ _ => .ok _

theorem failsWith_binaryScalar (division : Division) (op : BinaryOp) (u w : Value) :
    FailsWith OfValues (binaryScalar division op u w) := by
  unfold binaryScalar
  split
  · exact failsWith_arithmetic
  · exact failsWith_arithmetic
  · exact failsWith_arithmetic
  · exact failsWith_divide
  · exact failsWith_floorDivide
  · exact failsWith_modulo
  · exact failsWith_power
  · exact failsWith_bitwise
  · exact failsWith_bitwise
  all_goals first | exact failsWith_comparison | exact failsWith_logic

theorem failsWith_unaryScalar (op : UnaryOp) (v : Value) :
    FailsWith OfValues (unaryScalar op v) := by
  unfold unaryScalar
  split
  · exact .orElse trivial _
  all_goals first | exact .ok _ | exact .error trivial

end Operation

/-! ## Leaves of arrays -/

namespace Value

variable {P : Fault → Prop}

theorem failsWith_mapLeaves {f : Value → Except Fault Value} (hf : ∀ v, FailsWith P (f v))
    (v : Value) : FailsWith P (mapLeaves f v) := by
  refine (mapLeaves.mutual_induct (fun v => FailsWith P (mapLeaves f v))
    (fun items => FailsWith P (mapLeavesItems f items)) ?array ?leaf ?nil ?cons).1 v
  case array => exact fun items ih => ih.bind fun _ _ => .ok _
  case leaf =>
    intro leaf hleaf
    rw [mapLeaves.eq_2 _ _ hleaf]
    exact hf leaf
  case nil => exact .ok _
  case cons =>
    exact fun item items ihitem ihitems => ihitem.bind fun _ _ => ihitems.bind fun _ _ => .ok _

theorem failsWith_broadcast {f : Value → Value → Except Fault Value}
    (hf : ∀ u w, FailsWith P (f u w)) (hshape : ∀ m n, P (.shapeMismatch m n)) (u w : Value) :
    FailsWith P (broadcast f u w) := by
  refine (broadcast.mutual_induct (fun u w => FailsWith P (broadcast f u w))
    (fun lefts rights => FailsWith P (broadcastItems f lefts rights))
    ?arrays ?mismatch ?left ?right ?cons ?nil).1 u w
  case arrays =>
    intro lefts rights hlength ih
    rw [broadcast, if_pos hlength]
    exact ih.bind fun _ _ => .ok _
  case mismatch =>
    intro lefts rights hlength
    rw [broadcast, if_neg hlength]
    exact .error (hshape _ _)
  case left =>
    intro lefts right hright
    rw [broadcast.eq_2 _ _ _ hright]
    exact failsWith_mapLeaves (fun left => hf left right) _
  case right =>
    intro left right hboth hleft
    rw [broadcast.eq_3 _ _ _ hleft hboth]
    exact failsWith_mapLeaves (hf left) right
  case cons =>
    exact fun left lefts right rights ihhead ihtail =>
      ihhead.bind fun _ _ => ihtail.bind fun _ _ => .ok _
  case nil =>
    intro lefts rights hnil
    rw [broadcastItems.eq_2 _ _ _ hnil]
    exact .ok _

end Value

/-! ## Operations -/

namespace Operation

open Fault

theorem failsWith_unary (op : UnaryOp) (v : Value) : FailsWith OfValues (unary op v) := by
  unfold unary
  split
  · exact (failsWith_truth v).bind fun _ _ => .ok _
  · exact Value.failsWith_mapLeaves (failsWith_unaryScalar op) v

theorem failsWith_binary (division : Division) (op : BinaryOp) (u w : Value) :
    FailsWith OfValues (binary division op u w) := by
  unfold binary
  split
  · exact failsWith_logic
  · exact failsWith_logic
  · exact Value.failsWith_broadcast (failsWith_binaryScalar division op) (fun _ _ => trivial) u w

end Operation

/-! ## Indexing -/

theorem Integer.failsWith_ofReal (x : Float) : FailsWith Fault.OfValues (Integer.ofReal x) := by
  unfold ofReal
  split
  · refine .ite ?_ (.error trivial)
    split
    · exact .ok _
    · exact .error trivial
  · exact .error trivial

theorem Integer.failsWith_resolveIndex (index : Int64) (length : Nat) :
    FailsWith Fault.OfValues (resolveIndex index length) :=
  .ite (.error trivial) (.ite (.ok _) (.error trivial))

theorem Value.failsWith_toIndex (v : Value) : FailsWith Fault.OfValues v.toIndex := by
  cases v with
  | integer n => exact .ok n
  | real x => exact Integer.failsWith_ofReal x
  | _ => exact .error trivial

theorem Value.failsWith_index (v wanted : Value) : FailsWith Fault.OfValues (v.index wanted) := by
  unfold index
  split
  · exact .error trivial
  · refine wanted.failsWith_toIndex.bind fun _ _ => ?_
    exact (Integer.failsWith_resolveIndex _ _).bind fun _ _ => .orElse trivial _

end Formula
