import Formula.Proofs.Arithmetic.Integers
import Formula.Proofs.Real.Comparison

/-! # Division by zero

A division fails where its divisor is zero, whatever the kinds of its operands and although a
divisor that is an integer may be rounded before it is looked at. Only the quotient of the smallest
integer and minus one overflows, and every other division has a result. -/

namespace Formula

/-- The operators that give the integer quotient of two integers. -/
inductive BinaryOp.IsQuotient : Division → BinaryOp → Prop where
  | floorDiv (division : Division) : IsQuotient division .floorDiv
  | div : IsQuotient .legacy .div

/-- The outcome of a division: it fails where the divisor is zero, it overflows where the quotient
does, and it has a result everywhere else. -/
structure DividesSafely (zero overflows : Prop) (outcome : Except Fault Value) : Prop where
  divisionByZero : outcome = .error .divisionByZero ↔ zero
  overflow : outcome = .error .overflow ↔ overflows
  result : ¬ zero → ¬ overflows → ∃ v, outcome = .ok v

namespace DividesSafely

variable {zero overflows : Prop}

theorem of_zero (hzero : zero) (hoverflow : ¬ overflows) :
    DividesSafely zero overflows (.error .divisionByZero) where
  divisionByZero := by simp [hzero]
  overflow := by simp [hoverflow]
  result hnot := absurd hzero hnot

theorem of_overflow (hzero : ¬ zero) (hoverflow : overflows) :
    DividesSafely zero overflows (.error .overflow) where
  divisionByZero := by simp [hzero]
  overflow := by simp [hoverflow]
  result _ hnot := absurd hoverflow hnot

theorem of_result (hzero : ¬ zero) (hoverflow : ¬ overflows) (v : Value) :
    DividesSafely zero overflows (.ok v) where
  divisionByZero := by simp [hzero]
  overflow := by simp [hoverflow]
  result _ _ := ⟨v, rfl⟩

end DividesSafely

/-! ## Zeros -/

theorem coe_eq_zero_iff {p : ℚ} : ((p : WithTop ℚ) : WithBot (WithTop ℚ)) = 0 ↔ p = 0 := by
  rw [WithBot.coe_eq_zero, WithTop.coe_eq_zero]

/-- A value is zero when the number that it stands for is zero. -/
theorem Exact.isZero_iff {a : Exact} : a.isZero = true ↔ a.extended? = some 0 := by
  cases a with
  | finite x =>
      rw [isZero, decide_eq_true_eq, extended?, Option.some_inj, coe_eq_zero_iff,
        Scaled.value_eq_zero_iff]
  | infinite negative =>
      have htop : (⊤ : WithBot (WithTop ℚ)) ≠ 0 := by
        rw [← WithBot.coe_top, ne_eq, WithBot.coe_eq_zero]
        exact WithTop.top_ne_zero
      cases negative <;> simp [isZero, extended?, htop]
  | undefined => simp [isZero, extended?]

namespace Number

/-- No integer but zero is rounded to a zero. -/
theorem isZero_integer_iff (n : Int64) : (integer n).isZero = true ↔ n.toInt = 0 := by
  obtain ⟨t, ht, hnearest⟩ := toReal_isNearest n
  have hone : Double.Representable 1 := by
    simpa using Double.representable_two_zpow (e := 0) (by norm_num)
  rw [isZero, ht, Exact.isZero, decide_eq_true_eq, ← Scaled.value_eq_zero_iff]
  constructor
  · intro h
    rw [h] at hnearest
    by_contra hn
    rcases lt_or_gt_of_ne hn with hneg | hpos
    · have hle : (n.toInt : ℚ) ≤ -1 := by exact_mod_cast Int.le_sub_one_of_lt hneg
      linarith [hnearest.ge_of_ge hone.neg hle]
    · have hle : (1 : ℚ) ≤ n.toInt := by exact_mod_cast hpos
      linarith [hnearest.le_of_le hone hle]
  · intro h
    rw [h, Int.cast_zero] at hnearest
    exact hnearest.eq_of_representable Double.representable_zero

/-- A divisor is found to be zero when it is zero. -/
theorem isZero_iff {b : Number} : b.isZero = true ↔ b.extended? = some 0 := by
  cases b with
  | integer n =>
      rw [isZero_integer_iff, extended?, Option.some_inj, coe_eq_zero_iff, Int.cast_eq_zero]
  | real x => exact Exact.isZero_iff

end Number

namespace Operation

variable {division : Division} {op : BinaryOp} {u w : Value} {a b : Number}

/-! ## The operators -/

/-- Integers have an integer quotient. -/
theorem binaryScalar_of_quotient {m n : Int64} (hop : op.IsQuotient division)
    (hu : u.number? = some (.integer m)) (hw : w.number? = some (.integer n)) :
    binaryScalar division op u w = (do return .integer (← floorDivideIntegers m n)) := by
  cases hop with
  | floorDiv => exact binaryScalar_of_integers (.floorDiv division) hu hw
  | div => exact binaryScalar_of_integers .div hu hw

/-- The remainder is that of doubles, also for integers. -/
theorem modulo_of_number? (hu : u.number? = some a) (hw : w.number? = some b) :
    modulo u w =
      if b.isZero then .error .divisionByZero else .ok (.real (Exact.mod a.toReal b.toReal)) := by
  have hmod : floorModReals a.toReal b.toReal =
      if b.isZero then .error .divisionByZero else .ok (Exact.mod a.toReal b.toReal) := rfl
  simp only [modulo, numbers_eq_ok_iff.mpr ⟨hu, hw⟩, ok_bind, hmod]
  cases b.isZero <;> rfl

/-- Every other division is one of doubles, and looks at the divisor first. -/
theorem binaryScalar_of_not_quotient (hop : op ∈ [BinaryOp.div, .floorDiv, .mod])
    (hu : u.number? = some a) (hw : w.number? = some b)
    (h : ∀ m n, a = .integer m → b = .integer n → ¬ op.IsQuotient division) :
    ∃ x, binaryScalar division op u w =
      if b.isZero then .error .divisionByZero else .ok (.real x) := by
  have hnumbers (op : BinaryOp) : numbers op u w = .ok (a, b) := numbers_eq_ok_iff.mpr ⟨hu, hw⟩
  simp only [List.mem_cons, List.not_mem_nil, or_false] at hop
  rcases hop with rfl | rfl | rfl
  · refine ⟨a.toReal / b.toReal, ?_⟩
    simp only [binaryScalar, divide, hnumbers, ok_bind]
    split
    · rename_i heq
      cases heq
      exact absurd .div (h _ _ rfl rfl)
    · rename_i heq
      cases heq
      rfl
  · refine ⟨(a.toReal / b.toReal).floor, ?_⟩
    simp only [binaryScalar, floorDivide, hnumbers, ok_bind]
    split
    · rename_i heq
      cases heq
      exact absurd (.floorDiv division) (h _ _ rfl rfl)
    · rename_i heq
      cases heq
      rfl
  · exact ⟨_, modulo_of_number? hu hw⟩

theorem dividesSafely_integers (m n : Int64) :
    DividesSafely (n = 0) (m = Int64.minValue ∧ n = -1)
      (do return .integer (← floorDivideIntegers m n)) := by
  rw [floorDivideIntegers]
  by_cases hzero : n = 0
  · rw [if_pos hzero]
    refine .of_zero hzero ?_
    rintro ⟨-, hone⟩
    rw [hzero] at hone
    cases hone
  · rw [if_neg hzero]
    have hoverflow := Integer.floorDiv?_eq_none_iff (a := m) hzero
    cases hquotient : Integer.floorDiv? m n with
    | none => exact .of_overflow hzero (hoverflow.mp hquotient)
    | some q =>
        rw [hquotient] at hoverflow
        exact .of_result hzero (fun h => Option.some_ne_none q (hoverflow.mpr h)) (.integer q)

theorem dividesSafely_reals (x : Float) :
    DividesSafely (b.isZero = true) False
      (if b.isZero then .error .divisionByZero else .ok (.real x)) := by
  by_cases hzero : b.isZero = true
  · rw [if_pos hzero]
    exact .of_zero hzero not_false
  · rw [if_neg hzero]
    exact .of_result hzero not_false (.real x)

/-- An integer that no boolean counts as. -/
theorem number?_eq_integer_iff {v : Value} {n : Int64} (hzero : n ≠ 0) (hone : n ≠ 1) :
    v.number? = some (.integer n) ↔ v = .integer n := by
  cases v with
  | integer m => simp [Value.number?]
  | bool c => cases c <;> simp [Value.number?, Value.ofBool, hzero.symm, hone.symm]
  | _ => simp [Value.number?]

/-- Division fails on a zero, be it an integer, `False` or a real of either sign, and only there.
Only the integer quotient of the smallest integer and minus one overflows. -/
theorem division_by_zero (hop : op ∈ [BinaryOp.div, .floorDiv, .mod]) (division : Division)
    (hu : u.isNumericOrBool = true) (hw : w.isNumericOrBool = true) :
    DividesSafely (w.extended? = some 0)
      (op.IsQuotient division ∧ u = .integer Int64.minValue ∧ w = .integer (-1))
      (binaryScalar division op u w) := by
  obtain ⟨a, ha, -⟩ := Value.exists_number? hu
  obtain ⟨b, hb, hbw⟩ := Value.exists_number? hw
  rw [← hbw, ← Number.isZero_iff, ← number?_eq_integer_iff (v := u) (by decide) (by decide),
    ← number?_eq_integer_iff (v := w) (by decide) (by decide), ha, hb]
  by_cases hints : op.IsQuotient division ∧ ∃ m n, a = .integer m ∧ b = .integer n
  · obtain ⟨hquotient, m, n, rfl, rfl⟩ := hints
    have hzero : (Number.integer n).isZero = true ↔ n = 0 := by
      rw [Number.isZero_integer_iff, ← Int64.toInt_inj, Int64.toInt_zero]
    rw [binaryScalar_of_quotient hquotient ha hb, hzero]
    simpa [hquotient] using dividesSafely_integers m n
  · have hnone (m n : Int64) (ha' : a = .integer m) (hb' : b = .integer n) :
        ¬ op.IsQuotient division := fun hquotient => hints ⟨hquotient, m, n, ha', hb'⟩
    obtain ⟨x, hx⟩ := binaryScalar_of_not_quotient hop ha hb hnone
    have hoverflow : ¬ (op.IsQuotient division ∧ some a = some (.integer Int64.minValue) ∧
        some b = some (.integer (-1))) := by
      rintro ⟨hquotient, ha', hb'⟩
      exact hnone _ _ (Option.some.inj ha') (Option.some.inj hb') hquotient
    rw [hx, iff_false_intro hoverflow]
    exact dividesSafely_reals x

/-- The quotient of the smallest integer and minus one overflows, a negative zero divides no
boolean, and a half divides one. -/
theorem division_by_zero_negative :
    BinaryOp.div ∈ [BinaryOp.div, .floorDiv, .mod] ∧
      binaryScalar .legacy .div (.integer Int64.minValue) (.integer (-1)) = .error .overflow ∧
      binaryScalar .exact .mod (.bool true) (.real (-0.0)) = .error .divisionByZero ∧
      ∃ v, binaryScalar .exact .floorDiv (.bool true) (.real 0.5) = .ok v := by
  have hzero : Value.extended? (.real (-0.0)) = some 0 := by
    have hvalue : (Exact.ofFloat (-0.0)).isZero = true := by decide
    exact Exact.isZero_iff.mp hvalue
  have hhalf : Value.extended? (.real 0.5) ≠ some 0 := by
    have hvalue : ¬ (Exact.ofFloat 0.5).isZero = true := by decide
    exact fun h => hvalue (Exact.isZero_iff.mpr h)
  refine ⟨by decide, ?_, ?_, ?_⟩
  · exact (division_by_zero (by decide) .legacy rfl rfl).overflow.mpr ⟨.div, rfl, rfl⟩
  · exact (division_by_zero (by decide) .exact rfl rfl).divisionByZero.mpr hzero
  · exact (division_by_zero (by decide) .exact rfl rfl).result hhalf (by simp)

end Operation

end Formula
