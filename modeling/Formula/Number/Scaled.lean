/-! # Binary scaled integers

The numbers `mantissa * 2 ^ exponent`: exact values of doubles, compared, floored and divided with
remainder in integer arithmetic. -/

namespace Formula

/-- The number `mantissa * 2 ^ exponent`. -/
structure Scaled where
  mantissa : Int
  exponent : Int
  deriving DecidableEq, Repr

namespace Scaled

/-- An integer as a scaled number. -/
def ofInt (n : Int) : Scaled := ⟨n, 0⟩

/-- The mantissa that stands for the same number at the exponent `e`, provided that `e` is not
above the number's own exponent. -/
def mantissaAt (x : Scaled) (e : Int) : Int := x.mantissa <<< (x.exponent - e).toNat

/-- The order of two numbers, found on their mantissas at a common exponent. -/
def compare (x y : Scaled) : Ordering :=
  let e := min x.exponent y.exponent
  Ord.compare (x.mantissaAt e) (y.mantissaAt e)

/-- The remainder of the floored quotient, which has the sign of the divisor. -/
def mod (x y : Scaled) : Scaled :=
  let e := min x.exponent y.exponent
  ⟨(x.mantissaAt e).fmod (y.mantissaAt e), e⟩

/-- The integer that the number is equal to, if there is one. -/
def toInt? (x : Scaled) : Option Int :=
  if 0 ≤ x.exponent then
    some (x.mantissaAt 0)
  else
    let unit := (1 : Int) <<< (-x.exponent).toNat
    if x.mantissa % unit = 0 then some (x.mantissa / unit) else none

/-- The integer part, rounded towards zero. -/
def truncate (x : Scaled) : Int :=
  if 0 ≤ x.exponent then x.mantissaAt 0
  else x.mantissa.tdiv ((1 : Int) <<< (-x.exponent).toNat)

end Scaled

end Formula
