/-! # Checked integers

Exact integer results brought back to 64 bits; what does not fit is `none`. -/

namespace Formula.Integer

/-- Whether a 64-bit integer has this value. -/
def Fits (n : Int) : Prop := Int64.minValue.toInt ≤ n ∧ n ≤ Int64.maxValue.toInt

instance (n : Int) : Decidable (Fits n) := inferInstanceAs (Decidable (_ ∧ _))

/-- The 64-bit integer with this value, if there is one. -/
def ofInt? (n : Int) : Option Int64 := if Fits n then some (Int64.ofInt n) else none

def add? (a b : Int64) : Option Int64 := ofInt? (a.toInt + b.toInt)

def sub? (a b : Int64) : Option Int64 := ofInt? (a.toInt - b.toInt)

def mul? (a b : Int64) : Option Int64 := ofInt? (a.toInt * b.toInt)

def neg? (a : Int64) : Option Int64 := ofInt? (-a.toInt)

/-- The quotient rounded towards negative infinity. -/
def floorDiv? (a b : Int64) : Option Int64 := ofInt? (a.toInt.fdiv b.toInt)

/-- The power of a base other than `-1`, `0` and `1` leaves the 64 bits by exponent `64`, so that
no larger power is computed. -/
def pow? (base : Int64) (exponent : Nat) : Option Int64 :=
  if base.toInt.natAbs ≤ 1 then
    if exponent = 0 then some 1
    else if exponent % 2 = 0 then some (base * base)
    else some base
  else if exponent < 64 then ofInt? (base.toInt.pow exponent)
  else none

/-- The integer that a run of decimal digits writes. -/
def ofDigits? (digits : List Char) : Option Int64 := ofInt? (Nat.ofDigitChars 10 digits 0)

end Formula.Integer
