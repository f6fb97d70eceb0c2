/-! # Readings from the front of a list

A reading returns what it leaves over with a proof that this is not longer than what it was given,
so that a reading made of such readings ends. -/

namespace Formula

/-- A value read from the front of a list, and the shorter list that is left. -/
structure Taken (α : Type) {β : Type} (xs : List β) where
  value : α
  rest : List β
  shorter : rest.length < xs.length

/-- A value read from the front of a list, and the list that is left, perhaps all of it. -/
structure Peeled (α : Type) {β : Type} (xs : List β) where
  value : α
  rest : List β
  notLonger : rest.length ≤ xs.length

end Formula
