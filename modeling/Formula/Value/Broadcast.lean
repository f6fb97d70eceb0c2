import Formula.Value

/-! # Broadcasting

Operations on scalars carried over to arrays. Two arrays that meet must have equal lengths and
combine element by element; a scalar that meets an array combines with every leaf of it. -/

namespace Formula.Value

mutual

/-- Applies an operation to every leaf, the leftmost fault being the outcome. -/
def mapLeaves (f : Value → Except Fault Value) : Value → Except Fault Value
  | array items => do return array (← mapLeavesItems f items)
  | leaf => f leaf

def mapLeavesItems (f : Value → Except Fault Value) : List Value → Except Fault (List Value)
  | [] => .ok []
  | item :: items => do
    let mapped ← mapLeaves f item
    let rest ← mapLeavesItems f items
    return mapped :: rest

end

mutual

/-- Applies an operation to every pair of leaves that meet, the leftmost fault being the outcome. -/
def broadcast (f : Value → Value → Except Fault Value) : Value → Value → Except Fault Value
  | array lefts, array rights =>
    if lefts.length = rights.length then
      do return array (← broadcastItems f lefts rights)
    else
      .error (.shapeMismatch lefts.length rights.length)
  | array lefts, right => mapLeaves (fun (left : Value) => f left right) (array lefts)
  | left, right => mapLeaves (f left) right

def broadcastItems (f : Value → Value → Except Fault Value) :
    List Value → List Value → Except Fault (List Value)
  | left :: lefts, right :: rights => do
    let combined ← broadcast f left right
    let rest ← broadcastItems f lefts rights
    return combined :: rest
  | _, _ => .ok []

end

end Formula.Value
