/-! # The nearest double

Rounding of an exact quotient of naturals to the closest double. A quotient halfway between two
doubles goes to the one with an even last place; one beyond the largest double goes to infinity. -/

namespace Formula.Nearest

/-- The quotient rounded to the nearest natural, a half going to the even neighbour. -/
def roundQuotient (num den : Nat) : Nat :=
  let quotient := num / den
  let twice := 2 * (num % den)
  if den < twice ∨ (twice = den ∧ quotient % 2 = 1) then quotient + 1 else quotient

/-- The exponent `k` with `2 ^ k ≤ num / den < 2 ^ (k + 1)`. -/
def binaryExponent (num den : Nat) : Int :=
  let guess : Int := num.log2 - den.log2
  if den <<< guess.toNat ≤ num <<< (-guess).toNat then guess else guess - 1

/-- The exponent of the last place of the doubles near `num / den`: the significand has 53 bits,
fewer below the normal range. -/
def lastPlace (num den : Nat) : Int := max (binaryExponent num den - 52) (-1074)

/-- The bit pattern of positive infinity, which is above the pattern of every positive double. -/
def infinityBits : Nat := 0x7FF <<< 52

/-- The bit pattern of the non-negative double nearest to `num / den`.

A significand of 53 bits carries its leading bit into the exponent field, and so does a
significand that rounds up to the next power of two, so that one sum assembles every pattern. -/
def bits (num den : Nat) : Nat :=
  if num = 0 then 0
  else
    let place := lastPlace num den
    let significand := roundQuotient (num <<< (-place).toNat) (den <<< place.toNat)
    min (((place + 1074).toNat <<< 52) + significand) infinityBits

/-- The double nearest to `num / den`, with the sign given. -/
def double (negative : Bool) (num den : Nat) : Float :=
  Float.ofBits (UInt64.ofNat ((if negative then 1 <<< 63 else 0) + bits num den))

end Formula.Nearest
