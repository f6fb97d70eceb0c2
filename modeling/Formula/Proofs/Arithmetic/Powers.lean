import Formula.Proofs.Arithmetic.Integers

/-! # Integer powers

A power of integers is exact or overflows, as long as the exponent takes at most 32 bits. The
exponent is looked at before the power: a larger one is refused, even where the power of the base is
small. -/

namespace Formula.Operation

open Integer

/-- The outcome is the power over the unbounded integers, or an overflow because it does not fit. -/
inductive IsPower (b : Int) (e : Nat) : Except Fault Value → Prop where
  | exact {n : Int64} (h : n.toInt = b.pow e) : IsPower b e (.ok (.integer n))
  | overflow (h : ¬ Fits (b.pow e)) : IsPower b e (.error .overflow)

variable {u w : Value} {a b : Int64}

theorem isPower_checked (a : Int64) (e : Nat) : IsPower a.toInt e (checked (pow? a e)) := by
  cases hpow : pow? a e with
  | some n => exact .exact (pow?_eq_some_iff.mp hpow)
  | none => exact .overflow (pow?_eq_none_iff.mp hpow)

theorem exponent_of_lt (hlow : 0 ≤ b.toInt) (hhigh : b.toInt < UInt32.size) :
    exponent b = .ok b.toInt.toNat :=
  exponent_eq_ok_iff.mpr ⟨(Int.toNat_of_nonneg hlow).symm, hhigh⟩

theorem exponent_of_ge (h : UInt32.size ≤ b.toInt) : exponent b = .error .tooLarge :=
  if_pos h

/-- The exponent is checked before the power is computed. -/
theorem power_of_integers (hu : u.number? = some (.integer a)) (hw : w.number? = some (.integer b))
    (hb : 0 ≤ b.toInt) : power u w = (do checked (pow? a (← exponent b))) := by
  have hintegral : power u w = integral .pow a b :=
    binaryScalar_of_integers (.pow .exact) hu hw
  rw [hintegral, integral, if_pos hb]

/-- A power of integers with a non-negative exponent is exact or overflows when the exponent takes
at most 32 bits, and is refused when it takes more. -/
theorem power_exact {b e : Int} (hu : u.count? = some b) (hw : w.count? = some e) (he : 0 ≤ e) :
    (e < UInt32.size → IsPower b e.toNat (power u w)) ∧
      (UInt32.size ≤ e → power u w = .error .tooLarge) := by
  obtain ⟨b, hb, rfl⟩ := Value.number?_of_count? hu
  obtain ⟨e, he', rfl⟩ := Value.number?_of_count? hw
  rw [power_of_integers hb he' he]
  constructor
  · intro hlt
    rw [exponent_of_lt he hlt]
    exact isPower_checked b _
  · intro hge
    rw [exponent_of_ge hge]
    rfl

/-- The smallest integer is a power of minus two. A boolean has no larger exponents than others. -/
theorem power_exact_smallest :
    power (.integer (-2)) (.integer 63) = .ok (.integer Int64.minValue) ∧
      IsPower (-2) 63 (power (.integer (-2)) (.integer 63)) ∧
      power (.bool true) (.integer 4294967296) = .error .tooLarge := by
  obtain ⟨hexact, -⟩ := power_exact (u := .integer (-2)) (w := .integer 63) rfl rfl (by decide)
  obtain ⟨-, hrefused⟩ :=
    power_exact (u := .bool true) (w := .integer 4294967296) rfl rfl (by decide)
  exact ⟨rfl, hexact (by decide), hrefused (by decide)⟩

/-- One to the power of `2 ^ 32` is one, but an exponent of 33 bits is refused. -/
theorem power_of_one_refused :
    Fits (Int.pow 1 4294967296) ∧
      ¬ IsPower 1 4294967296 (power (.integer 1) (.integer 4294967296)) := by
  have hone : Int.pow 1 4294967296 = 1 := Int.one_pow
  have hpower : power (.integer 1) (.integer 4294967296) = .error .tooLarge := rfl
  rw [hone, hpower]
  exact ⟨by decide, nofun⟩

end Formula.Operation
