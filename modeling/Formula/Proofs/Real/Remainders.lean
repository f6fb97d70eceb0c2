import Formula.Proofs.Real.Division

/-! # Quotients and remainders of integers

The quotient that `//` gives and the remainder that `%` gives belong to one division, although the
first is computed on integers and the second on doubles, as long as doubles hold the integers. -/

namespace Formula

namespace Exact

end Exact

namespace Operation

variable {u w : Value} {a b : Int64}

end Operation

end Formula
