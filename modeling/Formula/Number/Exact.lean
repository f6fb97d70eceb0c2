import Formula.Number.Nearest
import Formula.Number.Scaled

/-! # Exact values of doubles

What a double stands for, read off its bit pattern, and the double nearest to an exact value. -/

namespace Formula

/-- The exact value of a double; the sign of zero is not part of it. -/
inductive Exact where
  | finite (value : Scaled)
  | infinite (negative : Bool)
  | undefined
  deriving DecidableEq, Repr

namespace Exact

/-- Whether the sign bit of a double is set. -/
def isNegative (x : Float) : Bool := x.toBits.toNat.testBit 63

/-- The value of a double from its sign, exponent and fraction fields. -/
def ofFloat (x : Float) : Exact :=
  let bits := x.toBits.toNat
  let biased : Nat := (bits >>> 52) % 2048
  let fraction : Nat := bits % (1 <<< 52)
  let signed (n : Nat) : Int := if isNegative x then -n else n
  if biased = 2047 then
    if fraction = 0 then infinite (isNegative x) else undefined
  else if biased = 0 then
    finite ⟨signed fraction, -1074⟩
  else
    finite ⟨signed ((1 <<< 52) + fraction), biased - 1075⟩

/-- The order of two values, `none` when one of them is undefined. -/
def compare : Exact → Exact → Option Ordering
  | undefined, _ => none
  | _, undefined => none
  | finite x, finite y => some (x.compare y)
  | finite _, infinite negative => some (if negative then .gt else .lt)
  | infinite negative, finite _ => some (if negative then .lt else .gt)
  | infinite a, infinite b => some (if a = b then .eq else if a then .lt else .gt)

/-- Whether the value is zero. -/
def isZero : Exact → Bool
  | finite x => x.mantissa = 0
  | _ => false

/-- The 64-bit integer that a cast of the value gives: the integer part, or the nearest integer
that there is. -/
def toInt64 : Exact → Int64
  | finite x => Int64.ofIntClamp x.truncate
  | infinite negative => if negative then Int64.minValue else Int64.maxValue
  | undefined => 0

end Exact

namespace Scaled

/-- The double nearest to the number; a zero is positive. -/
def toFloat (x : Scaled) : Float :=
  Nearest.double (x.mantissa < 0)
    (x.mantissa.natAbs <<< x.exponent.toNat) (1 <<< (-x.exponent).toNat)

end Scaled

namespace Exact

/-- A zero with the sign of the given double. -/
def zeroLike (x : Float) : Float := if isNegative x then -0.0 else 0.0

/-- The remainder of the floored quotient of two doubles, rounded once. It has the sign of the
divisor, except that a zero has the sign of the dividend. -/
def mod (x y : Float) : Float :=
  match ofFloat x, ofFloat y with
  | finite a, finite b =>
    let remainder := a.mod b
    if remainder.mantissa = 0 then zeroLike x else remainder.toFloat
  | finite a, infinite _ =>
    if a.mantissa = 0 ∨ isNegative x = isNegative y then x else y
  | _, _ => 0.0 / 0.0

end Exact

end Formula
