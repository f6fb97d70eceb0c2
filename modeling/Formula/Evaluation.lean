import Formula.Registry

/-! # Evaluation

A text is evaluated in stages: the argument must be text, the grammar and the engine must be known,
the resolvers must have keyed lookup, the text must be an expression, its names must be bound, the
engine must succeed, and a scalar result must be a number or a boolean. The first stage that fails
decides the outcome. -/

namespace Formula

/-- How an expression is evaluated and what its names mean. -/
structure Options where
  grammar : String := "extended"
  engine : String := "accelerated"
  trueDivision : Bool := true
  locals : Option Bindings := none
  globals : Option Bindings := none
  resolvers : List Namespace := []
  stack : Option CallStack := none
  contextDepth : Nat := CallStack.firstDepth

namespace Options

def division (o : Options) : Division := if o.trueDivision then .exact else .legacy

/-- The scope that the options describe, once the resolvers are known to have keyed lookup. -/
def scope (o : Options) (resolvers : List Resolver) : Scope where
  locals := o.locals
  globals := o.globals
  stack := o.stack
  contextDepth := o.contextDepth
  resolvers := resolvers

end Options

/-- The expression as it is received, before it is known to be text. -/
inductive Source where
  | text (text : String)
  | value (value : Value)

namespace Source

/-- A value that is a text is received as that text. -/
def ofValue : Value → Source
  | .text s => text s
  | other => value other

instance : Coe Value Source := ⟨ofValue⟩

end Source

/-- The text that is to be evaluated. What is received as a value is none, whatever its kind. -/
def expressionText : Source → Except Failure String
  | .text s => .ok s
  | .value v => .error (.notText v.kind)

/-- An array, a number or a boolean can be a result; a text cannot. -/
def checkResult (value : Value) : Except Failure Value :=
  if value.isScalar && !value.isNumericOrBool then .error (.invalidResult value.kind)
  else .ok value

namespace Registry

/-- The result of an expression. -/
def evaluate (r : Registry) (expr : Source) (options : Options) : Except Failure Value := do
  let text ← expressionText expr
  let grammar ← r.grammar options.grammar
  let engine ← r.engine options.engine
  let resolvers ← Namespace.resolvers options.resolvers
  let compiled ←
    Compiled.ofText text grammar (options.scope resolvers) engine.name options.division
  let value ← r.execute compiled
  checkResult value

end Registry

end Formula
