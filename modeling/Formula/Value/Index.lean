import Formula.Value

/-! # Indexing

Reading one element of an array. An index is an integer or a real equal to one, and a negative
index counts from the end. -/

namespace Formula

/-- The integer that a double is equal to. The double `2 ^ 63` is within the range of the check and
becomes the largest integer. -/
def Integer.ofReal (x : Float) : Except Fault Int64 :=
  match Exact.ofFloat x with
  | .finite value =>
    let inRange := (value.compare (.ofInt Int64.minValue.toInt)).isGE &&
      (value.compare (.ofInt (Int64.maxValue.toInt + 1))).isLE
    if inRange then
      match value.toInt? with
      | some n => .ok (Int64.ofInt (min n Int64.maxValue.toInt))
      | none => .error .fractional
    else
      .error .tooLarge
  | _ => .error (.typeMismatch (.notFinite x))

/-- The place in an array of the given length that an index stands for. -/
def Integer.resolveIndex (index : Int64) (length : Nat) : Except Fault Nat :=
  if Int64.maxValue.toInt < length then
    .error .tooLarge
  else
    let place := if index.toInt < 0 then index.toInt + length else index.toInt
    if 0 ≤ place ∧ place < length then .ok place.toNat
    else .error (.indexOutOfBounds length index)

namespace Value

def toIndex : Value → Except Fault Int64
  | integer n => .ok n
  | real x => Integer.ofReal x
  | other => .error (.typeMismatch (.notAnIndex other.kind))

/-- The element of an array at an index. -/
def index (array index : Value) : Except Fault Value :=
  match array.items? with
  | none => .error (.typeMismatch (.notIndexable array.kind))
  | some items => do
    let wanted ← index.toIndex
    let place ← Integer.resolveIndex wanted items.length
    Fault.orElse (.indexOutOfBounds items.length wanted) items[place]?

end Value

end Formula
