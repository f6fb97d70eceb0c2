import Formula.Compiled

/-! # Engines

Ways to run a compiled expression. An engine may depend on something that is not there. -/

namespace Formula

/-- What an engine needs before it can run. -/
structure Dependency where
  name : String
  available : Bool
  /-- How to make it available. -/
  hint : String
  deriving DecidableEq, Repr

structure Engine where
  name : String
  dependency : Option Dependency := none
  run : Compiled → Except RuntimeError Value

namespace Engine

def inspect (e : Engine) : String := s!"Engine({Text.quote e.name})"

/-- Evaluates the tree as it is. -/
def interpreted : Engine where
  name := "interpreted"
  run compiled := compiled.tree.eval compiled.terms compiled.division

end Engine

end Formula
