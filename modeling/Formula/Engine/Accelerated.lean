import Formula.Engine
import Formula.Engine.Program

/-! # The accelerated engine

Runs an expression as a postfix program, row by row. -/

namespace Formula.Engine

def accelerated : Engine where
  name := "accelerated"
  dependency := some {
    name := "rayon"
    available := true
    hint := "enable the `parallel` feature"
  }
  run compiled := do
    let program ← Program.lower compiled.terms compiled.division compiled.tree {}
    program.value compiled.division

end Formula.Engine
