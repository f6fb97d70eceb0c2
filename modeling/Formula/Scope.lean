import Formula.Scope.CallStack
import Formula.Scope.Resolver

/-! # Scopes

The chain of namespaces that a name is looked up in: locals, the locals of the calling frame,
globals, and the resolvers in order. The globals of the calling frame stand in for globals that are
not given. -/

namespace Formula

structure Scope where
  locals : Option Bindings := none
  globals : Option Bindings := none
  stack : Option CallStack := none
  contextDepth : Nat := CallStack.firstDepth
  resolvers : List Resolver := []

namespace Scope

/-- The calling frame, if there is a calling context and the depth stands for a frame. -/
def frame? (s : Scope) : Except Failure (Option Frame) :=
  match s.stack with
  | some stack => stack.frameAt s.contextDepth
  | none => .ok none

/-- The value of a name in the namespaces behind the locals, given the calling frame. -/
def resolveIn (s : Scope) (frame : Option Frame) (name : String) : Option Value :=
  let frameLocals := frame.map Frame.locals
  let globals := s.globals <|> frame.map Frame.globals
  frameLocals.bind (·.get? name) <|> globals.bind (·.get? name) <|>
    s.resolvers.findSome? (·.resolve name)

/-- The value of a name. A calling frame that does not exist is only missed when the locals do not
bind the name. -/
def resolve (s : Scope) (name : String) : Except Failure (Option Value) :=
  match s.locals.bind (·.get? name) with
  | some value => .ok (some value)
  | none => do return s.resolveIn (← s.frame?) name

end Scope

end Formula
