import Formula.Number.Exact

/-! # Decimals

Numbers `coefficient * 10 ^ exponent`: the double nearest to one, and the shortest one that reads
back as a given double. -/

namespace Formula

/-- The number `coefficient * 10 ^ exponent`. -/
structure Decimal where
  coefficient : Nat
  exponent : Int
  deriving DecidableEq, Repr

namespace Decimal

/-- The decimal digits of the coefficient, most significant first. -/
def digits (d : Decimal) : List Char := Nat.toDigits 10 d.coefficient

/-- The number of digits before the decimal point when the first digit is not zero; negative when
zeros follow the point. -/
def point (d : Decimal) : Int := d.digits.length + d.exponent

/-- A power of ten. -/
def power (n : Nat) : Nat := Nat.pow 10 n

/-- The double nearest to the number. Beyond `10 ^ 310` that is infinity and below `10 ^ -330` it is
zero, so that no power with a larger exponent is computed. -/
def toFloat (negative : Bool) (d : Decimal) : Float :=
  if d.coefficient = 0 ∨ d.point < -330 then
    Nearest.double negative 0 1
  else if 310 < d.point then
    Nearest.double negative (1 <<< 1024) 1
  else
    Nearest.double negative (d.coefficient * power d.exponent.toNat) (power (-d.exponent).toNat)

/-- The decimals that round to one double: from `low` to `high` in units of `2 ^ exponent`, around
`middle`. A double with an even significand takes the two ends as well. -/
structure Neighbourhood where
  low : Nat
  middle : Nat
  high : Nat
  exponent : Int
  closed : Bool

namespace Neighbourhood

/-- The neighbourhood of `significand * 2 ^ exponent`. The double below a power of two is only half
as far away as the double above it, unless both are below the normal range. -/
def of (significand : Nat) (exponent : Int) : Neighbourhood where
  low := 4 * significand - (if significand = 1 <<< 52 ∧ -1074 < exponent then 1 else 2)
  middle := 4 * significand
  high := 4 * significand + 2
  exponent := exponent - 2
  closed := significand % 2 = 0

/-- Whether the number `c * decimalUnit` lies in the neighbourhood, whose own unit is
`binaryUnit`. -/
def contains (n : Neighbourhood) (binaryUnit decimalUnit c : Nat) : Bool :=
  if n.closed then
    n.low * binaryUnit ≤ c * decimalUnit ∧ c * decimalUnit ≤ n.high * binaryUnit
  else
    n.low * binaryUnit < c * decimalUnit ∧ c * decimalUnit < n.high * binaryUnit

/-- The multiple of `10 ^ place` in the neighbourhood that is nearest to its middle; of two equally
near ones, the larger. Only the two multiples next to the middle can be that one. -/
def onGrid? (n : Neighbourhood) (place : Int) : Option Decimal :=
  let binaryUnit := power (-place).toNat <<< n.exponent.toNat
  let decimalUnit := power place.toNat <<< (-n.exponent).toNat
  let below := n.middle * binaryUnit / decimalUnit
  let excess := n.middle * binaryUnit % decimalUnit
  let lower := n.contains binaryUnit decimalUnit below
  let upper := n.contains binaryUnit decimalUnit (below + 1)
  if lower ∧ (¬ upper ∨ 2 * excess < decimalUnit) then some ⟨below, place⟩
  else if upper then some ⟨below + 1, place⟩
  else none

/-- A place whose unit is above the middle, but less than a hundred times as large. -/
def topPlace (n : Neighbourhood) : Int :=
  (((n.middle.log2 : Int) + n.exponent + 1) * 30103).fdiv 100000 + 1

end Neighbourhood

/-- The decimal with the fewest digits that reads back as the double `significand * 2 ^ exponent`,
and of those the nearest to it. Grids are tried from coarse to fine; seventeen digits always
suffice. -/
def shortest (significand : Nat) (exponent : Int) : Decimal :=
  let n := Neighbourhood.of significand exponent
  ((List.range 20).findSome? fun (i : Nat) => n.onGrid? (n.topPlace - i)).getD ⟨0, 0⟩

end Decimal

end Formula
