import Formula.Json
import Formula.Number.Decimal

/-! # Numbers of documents

An integer that fits 64 bits, without a sign or with one, is an integer, and every other number is a
real. A real is found from its leading digits, as far as they fit 64 bits without a sign, by scaling
in double arithmetic. -/

namespace Formula.Json.Number

/-- The digits of a number: before the point, after it, and the power of ten. -/
structure Parts where
  negative : Bool
  whole : List Char
  fraction : List Char
  power : Int

/-- Appends digits to a significand while it stays below `2 ^ 64`; the digits from the first one
that does not fit are left over. -/
def extend (significand : Nat) : List Char → Nat × List Char
  | [] => (significand, [])
  | digit :: digits =>
    let longer := Nat.ofDigitChars 10 [digit] significand
    if longer < UInt64.size then extend longer digits else (significand, digit :: digits)

/-- The double nearest to a power of ten up to `10 ^ 308`. -/
def powerOfTen (n : Nat) : Float := (Decimal.mk 1 n).toFloat false

/-- Scales a double by a power of ten, unless it becomes infinite. A power that no double reaches is
applied in parts. -/
def scale (x : Float) (power : Int) : Option Float :=
  if 308 < power then
    if x == 0.0 then some x else none
  else if 0 ≤ power then
    let scaled := x * powerOfTen power.toNat
    if scaled.isInf then none else some scaled
  else if -308 ≤ power then
    some (x / powerOfTen (-power).toNat)
  else if x == 0.0 then
    some x
  else
    scale (x / powerOfTen 308) (power + 308)
  termination_by (-power).toNat

/-- The real of the given parts, if it is not too large for a double. -/
def real? (p : Parts) : Option Float :=
  let (head, dropped) := extend 0 p.whole
  let (significand, droppedFraction) := extend head p.fraction
  let kept := p.fraction.length - droppedFraction.length
  let magnitude := scale (Nearest.double false significand 1) (p.power + dropped.length - kept)
  magnitude.map fun (x : Float) => if p.negative then -x else x

/-- The integer of a sign and digits, or the real next to it when it does not fit 64 bits. Zero with
a sign is the real `-0.0`. -/
def integer? (p : Parts) : Option Json.Number :=
  let magnitude := Nat.ofDigitChars 10 p.whole 0
  if p.negative ∧ magnitude = 0 then
    some (real (-0.0))
  else if p.negative then
    match Integer.ofInt? (-magnitude) with
    | some n => some (negative n)
    | none => (real? p).map real
  else if magnitude < UInt64.size then
    some (natural (UInt64.ofNat magnitude))
  else
    (real? p).map real

end Formula.Json.Number
