import Formula.Operation.Comparison
import Formula.Proofs.Outcome
import Formula.Proofs.Real.Order

/-! # Comparison is exact

The six comparison operators say of two scalars what is true of the numbers or the texts that they
stand for. -/

namespace Formula

/-! ## What a comparison should say -/

/-- The number that a scalar stands for, a boolean being `0` or `1` and the infinities the extremes.
Texts and undefined reals stand for none. -/
def Value.extended? : Value → Option (WithBot (WithTop ℚ))
  | integer n => some ((n.toInt : ℚ) : WithTop ℚ)
  | bool b => some ((if b then 1 else 0 : ℚ) : WithTop ℚ)
  | real x => (Exact.ofFloat x).extended?
  | text _ | array _ => none

/-- Whether one of two values is a text and the other is not. -/
def Value.Mixed (u w : Value) : Prop := Xor (u.kind = .text) (w.kind = .text)

/-- The relation that a comparison operator stands for; other operators relate nothing. -/
def BinaryOp.Relates {α : Type} [LinearOrder α] : BinaryOp → α → α → Prop
  | equal, x, y => x = y
  | notEqual, x, y => x ≠ y
  | less, x, y => x < y
  | greater, x, y => y < x
  | lessEqual, x, y => x ≤ y
  | greaterEqual, x, y => y ≤ x
  | _, _, _ => False

/-- The outcome is the truth value of the proposition. -/
def Decides (outcome : Except Fault Value) (p : Prop) : Prop :=
  ∃ b, outcome = .ok (.bool b) ∧ (b = true ↔ p)

/-- What is asked of a comparison of scalars. -/
structure ComparesExactly (compare : BinaryOp → Value → Value → Except Fault Value) : Prop where
  /-- Defined numbers compare as the numbers that they are. -/
  numbers : ∀ {op u w x y}, u.extended? = some x → w.extended? = some y →
    Decides (compare op u w) (op.Relates x y)
  /-- An undefined real is different from every number and in order with none. -/
  undefined : ∀ {op u w}, u.isNumericOrBool = true → w.isNumericOrBool = true →
    (u.extended? = none ∨ w.extended? = none) → compare op u w = .ok (.bool (op = .notEqual))
  /-- Texts compare by their first difference. -/
  texts : ∀ op s t, Decides (compare op (.text s) (.text t)) (op.Relates s.toList t.toList)
  mixed_equal : ∀ {u w}, u.Mixed w → compare .equal u w = .ok (.bool false)
  mixed_notEqual : ∀ {u w}, u.Mixed w → compare .notEqual u w = .ok (.bool true)
  /-- A text has no place in the order of other values. -/
  mixed_order : ∀ {op u w}, u.Mixed w → op ≠ .equal → op ≠ .notEqual →
    compare op u w = .error (.typeMismatch (.unordered op u.kind w.kind))
  /-- Of two defined numbers, exactly one of the three strict relations holds. -/
  trichotomy : ∀ {u w x y}, u.extended? = some x → w.extended? = some y →
    ∃! op, op ∈ [BinaryOp.less, .equal, .greater] ∧ compare op u w = .ok (.bool true)
  /-- Order and equality carry over from number to number, of whatever kinds. -/
  trans : ∀ {op u v w x y z}, op ∈ [BinaryOp.less, .equal] →
    u.extended? = some x → v.extended? = some y → w.extended? = some z →
    compare op u v = .ok (.bool true) → compare op v w = .ok (.bool true) →
    compare op u w = .ok (.bool true)

theorem Decides.eq_true_iff {outcome : Except Fault Value} {p : Prop} (h : Decides outcome p) :
    outcome = .ok (.bool true) ↔ p := by
  obtain ⟨b, rfl, hb⟩ := h
  rw [← hb]
  simp

namespace BinaryOp

variable {α : Type} [LinearOrder α] {op : BinaryOp} {x y z : α}

theorem Relates.trans (hop : op ∈ [less, equal]) (hxy : op.Relates x y) (hyz : op.Relates y z) :
    op.Relates x z := by
  simp only [List.mem_cons, List.not_mem_nil, or_false] at hop
  rcases hop with rfl | rfl
  · exact lt_trans hxy hyz
  · exact Eq.trans hxy hyz

theorem existsUnique_relates (x y : α) :
    ∃! op : BinaryOp, op ∈ [less, equal, greater] ∧ op.Relates x y := by
  rcases lt_trichotomy x y with h | h | h
  · refine ⟨less, ⟨by simp, h⟩, ?_⟩
    simp [or_imp, forall_and, Relates, h.ne, h.not_gt]
  · refine ⟨equal, ⟨by simp, h⟩, ?_⟩
    simp [Relates, h]
  · refine ⟨greater, ⟨by simp, h⟩, ?_⟩
    simp [Relates, h.ne', h.not_gt]

end BinaryOp

theorem Value.kind_eq_text_iff {v : Value} : v.kind = .text ↔ ∃ s, v = .text s := by
  cases v <;> simp [kind]

namespace Operation

variable {α : Type} [LinearOrder α]

/-- An operator says of two things in order whether its relation holds between them. -/
theorem holds_cmp (op : BinaryOp) (x y : α) :
    holds op (some (cmp x y)) = true ↔ op.Relates x y := by
  cases op
  all_goals
    rcases lt_trichotomy x y with h | h | h
    · simp [holds, BinaryOp.Relates, (cmp_eq_lt_iff x y).mpr h, h, h.ne, h.le, h.not_gt, h.not_ge]
    · simp [holds, BinaryOp.Relates, h]
    · simp [holds, BinaryOp.Relates, (cmp_eq_gt_iff x y).mpr h, h, h.ne', h.le, h.not_gt, h.not_ge]

/-- Unordered operands are different and nothing else. -/
theorem holds_none (op : BinaryOp) : holds op none = decide (op = .notEqual) := by
  cases op <;> rfl

/-- Texts are in order as their characters are. -/
theorem holds_compare_text (op : BinaryOp) (s t : String) :
    holds op (some (compare s t)) = true ↔ op.Relates s.toList t.toList := by
  have hmono : StrictMono String.toList := fun _ _ => String.lt_iff_toList_lt.mp
  rw [← holds_cmp, hmono.cmp_map_eq s t, cmp_eq_compare]

variable {op : BinaryOp} {u w : Value} {a b : Number}

theorem comparison_of_number? (hu : u.number? = some a) (hw : w.number? = some b) :
    comparison op u w = .ok (.bool (holds op (a.compare b))) := by
  unfold comparison
  split
  · cases hu
  · cases hu
  · cases hw
  · simp only [numbers, hu, hw, ok_bind, pure_eq_ok]

theorem comparison_of_mixed (h : u.Mixed w) : comparison op u w = compareMixed op u w := by
  rw [Value.Mixed, Value.kind_eq_text_iff, Value.kind_eq_text_iff] at h
  unfold comparison
  split
  · rcases h with ⟨-, hright⟩ | ⟨-, hleft⟩
    · exact absurd ⟨_, rfl⟩ hright
    · exact absurd ⟨_, rfl⟩ hleft
  · rfl
  · rfl
  · rename_i hleft hright _
    rcases h with ⟨⟨s, hs⟩, -⟩ | ⟨⟨s, hs⟩, -⟩
    · exact absurd hs (hleft s)
    · exact absurd hs (hright s)

end Operation

namespace Value

variable {v : Value} {x : WithBot (WithTop ℚ)}

theorem exists_number? (h : v.isNumericOrBool = true) :
    ∃ a, v.number? = some a ∧ a.extended? = v.extended? := by
  cases v with
  | integer n => exact ⟨_, rfl, rfl⟩
  | real x => exact ⟨_, rfl, rfl⟩
  | bool b =>
      refine ⟨_, rfl, ?_⟩
      cases b <;> rfl
  | text s => cases h
  | array items => cases h

theorem isNumericOrBool_of_extended? (h : v.extended? = some x) : v.isNumericOrBool = true := by
  cases v with
  | integer n => rfl
  | real x => rfl
  | bool b => rfl
  | text s => cases h
  | array items => cases h

end Value

namespace Operation

variable {op : BinaryOp} {u w : Value} {x y : WithBot (WithTop ℚ)}

theorem comparison_numbers (hu : u.extended? = some x) (hw : w.extended? = some y) :
    Decides (comparison op u w) (op.Relates x y) := by
  obtain ⟨a, ha, hax⟩ := Value.exists_number? (Value.isNumericOrBool_of_extended? hu)
  obtain ⟨b, hb, hby⟩ := Value.exists_number? (Value.isNumericOrBool_of_extended? hw)
  refine ⟨_, comparison_of_number? ha hb, ?_⟩
  rw [Number.compare_eq (hax.trans hu) (hby.trans hw), holds_cmp]

theorem comparison_undefined (hu : u.isNumericOrBool = true) (hw : w.isNumericOrBool = true)
    (h : u.extended? = none ∨ w.extended? = none) :
    comparison op u w = .ok (.bool (op = .notEqual)) := by
  obtain ⟨a, ha, hau⟩ := Value.exists_number? hu
  obtain ⟨b, hb, hbw⟩ := Value.exists_number? hw
  rw [← hau, ← hbw] at h
  rw [comparison_of_number? ha hb, Number.compare_eq_none h, holds_none]

theorem comparison_trichotomy (hu : u.extended? = some x) (hw : w.extended? = some y) :
    ∃! op, op ∈ [BinaryOp.less, .equal, .greater] ∧ comparison op u w = .ok (.bool true) := by
  simp only [(comparison_numbers hu hw).eq_true_iff]
  exact BinaryOp.existsUnique_relates x y

theorem comparison_trans {v : Value} {z : WithBot (WithTop ℚ)}
    (hop : op ∈ [BinaryOp.less, .equal]) (hu : u.extended? = some x) (hv : v.extended? = some y)
    (hw : w.extended? = some z) (huv : comparison op u v = .ok (.bool true))
    (hvw : comparison op v w = .ok (.bool true)) : comparison op u w = .ok (.bool true) := by
  rw [(comparison_numbers hu hv).eq_true_iff] at huv
  rw [(comparison_numbers hv hw).eq_true_iff] at hvw
  exact (comparison_numbers hu hw).eq_true_iff.mpr (huv.trans hop hvw)

/-- Comparison of scalars is exact, for every integer and every double. -/
theorem comparison_exact : ComparesExactly comparison where
  numbers := comparison_numbers
  undefined := comparison_undefined
  texts op s t := ⟨_, rfl, holds_compare_text op s t⟩
  mixed_equal h := comparison_of_mixed h
  mixed_notEqual h := comparison_of_mixed h
  mixed_order h hequal hnotEqual := by
    rw [comparison_of_mixed h]
    unfold compareMixed
    split
    · exact absurd rfl hequal
    · exact absurd rfl hnotEqual
    · rfl
  trichotomy := comparison_trichotomy
  trans := comparison_trans

/-- The largest integer is less than the real that it is rounded to. -/
theorem comparison_exact_largest :
    comparison .less (.integer Int64.maxValue) (.real 9223372036854775808.0) =
      .ok (.bool true) := by
  have hreal : Value.extended? (.real 9223372036854775808.0) =
      some ((Scaled.value ⟨2 ^ 52, 11⟩ : ℚ) : WithTop ℚ) := by
    have hvalue : Exact.ofFloat 9223372036854775808.0 = .finite ⟨2 ^ 52, 11⟩ := by decide
    exact congrArg Exact.extended? hvalue
  have hlt : (Int64.maxValue.toInt : ℚ) < Scaled.value ⟨2 ^ 52, 11⟩ := by
    rw [show Int64.maxValue.toInt = 2 ^ 63 - 1 from rfl, Scaled.value]
    norm_num
  refine (comparison_exact.numbers rfl hreal).eq_true_iff.mpr ?_
  exact WithBot.coe_lt_coe.mpr (WithTop.coe_lt_coe.mpr hlt)

end Operation

end Formula
