import Formula.Number.Decimal

/-! # Written reals

The two written forms of a double: `plain`, which values are shown in, and `literal`, which
expressions and tokens are shown in. -/

namespace Formula.Written

/-- Digits with a decimal point, zeros filling the places up to it and at least one digit on both
sides of it. -/
def positional (d : Decimal) : String :=
  let digits := d.digits
  let point := d.point
  if point ≤ 0 then
    "0." ++ String.ofList (List.replicate (-point).toNat '0' ++ digits)
  else if point < digits.length then
    String.ofList (digits.take point.toNat) ++ "." ++ String.ofList (digits.drop point.toNat)
  else
    String.ofList (digits ++ List.replicate (point - digits.length).toNat '0') ++ ".0"

/-- One digit, the other digits after a decimal point, and the exponent. -/
def scientific (d : Decimal) : String :=
  let exponent := toString (d.point - 1)
  match d.digits with
  | [] => "0e" ++ exponent
  | [digit] => String.ofList [digit] ++ "e" ++ exponent
  | digit :: rest => String.ofList (digit :: '.' :: rest) ++ "e" ++ exponent

/-- A sign for a negative double, then the text of its magnitude. -/
def signed (x : Float) (magnitude : String) : String :=
  if Exact.isNegative x then "-" ++ magnitude else magnitude

/-- An undefined or infinite double by name, a finite one as `finite` says. -/
def named (x : Float) (finite : Scaled → String) : String :=
  match Exact.ofFloat x with
  | .undefined => "NaN"
  | .infinite _ => signed x "inf"
  | .finite value => signed x (finite value)

/-- The positional form: all digits of an integral value and one decimal, else the fewest digits
that read back as the same double. -/
def plain (x : Float) : String :=
  named x fun (value : Scaled) =>
    match value.toInt? with
    | some n => toString n.natAbs ++ ".0"
    | none => positional (Decimal.shortest value.mantissa.natAbs value.exponent)

/-- The fewest digits that read back as the same double: positional from `10 ^ -4` to below
`10 ^ 16` and for zero, with an exponent elsewhere. -/
def literal (x : Float) : String :=
  named x fun (value : Scaled) =>
    if value.mantissa = 0 then "0.0"
    else
      let d := Decimal.shortest value.mantissa.natAbs value.exponent
      if -4 < d.point ∧ d.point ≤ 16 then positional d else scientific d

end Formula.Written
