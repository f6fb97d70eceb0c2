import Formula.Expr.Eval
import Formula.Expr.Reading

/-! # Bindings on the command line

A binding is a name and an expression joined by `=`. The expression is evaluated on the spot, under
the extended grammar and without any names. -/

namespace Formula.CommandLine

/-- The value of an expression in which no name has a value. -/
def closedValue (text : String) : Except String Value :=
  match Expr.ofText .extended text with
  | .error error => .error error.message
  | .ok tree =>
    match tree.eval .empty .exact with
    | .error error => .error error.message
    | .ok value => .ok value

/-- The name and the value that an argument binds. -/
def binding (arg : String) : Except String (String × Value) := do
  let cs := arg.toList
  let before := cs.takeWhile (· ≠ '=')
  if cs.drop before.length = [] then
    throw s!"expected NAME=VALUE, got '{arg}'"
  else
    let value ← closedValue (String.ofList (cs.drop (before.length + 1)))
    return (String.ofList (Text.trim before), value)

end Formula.CommandLine
