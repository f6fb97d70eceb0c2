import Formula.Number.Exact

/-! # Numbers

Integers and reals in one arithmetic. They compare by exact value, also where a real cannot
represent the integer beside it. -/

namespace Formula

inductive Number where
  | integer (n : Int64)
  | real (x : Float)
  deriving DecidableEq

namespace Number

/-- The nearest double. -/
def toReal : Number → Float
  | integer n => (Scaled.ofInt n.toInt).toFloat
  | real x => x

/-- The order of an integer and a real, found on the double nearest to the integer. A real equal to
that double is an integer: one above all 64-bit integers, or one to compare as such. -/
def compareReal (n : Int64) (x : Float) : Option Ordering :=
  let value := Exact.ofFloat x
  match (Exact.ofFloat (integer n).toReal).compare value with
  | some .eq =>
    if (value.compare (.finite (.ofInt (Int64.maxValue.toInt + 1)))).any Ordering.isGE then some .lt
    else some (Ord.compare n.toInt value.toInt64.toInt)
  | order => order

/-- The order of two numbers, `none` when one of them is undefined. -/
def compare : Number → Number → Option Ordering
  | integer a, integer b => some (Ord.compare a.toInt b.toInt)
  | integer a, real y => compareReal a y
  | real x, integer b => (compareReal b x).map Ordering.swap
  | real x, real y => (Exact.ofFloat x).compare (.ofFloat y)

/-- Whether the nearest double is a zero. -/
def isZero (a : Number) : Bool := (Exact.ofFloat a.toReal).isZero

end Number

end Formula
