import Formula.Engine.Accelerated

/-! # Registries

Tables of the grammars and engines that an evaluation may choose from by name. -/

namespace Formula

structure Registry where
  grammars : List Grammar
  engines : List Engine

namespace Registry

/-- The earliest name that repeats one before it or one in `seen`. -/
def firstRepeat? (seen : List String) : List String → Option String
  | [] => none
  | name :: names => if name ∈ seen then some name else firstRepeat? (name :: seen) names

/-- The registry of the given entries. No two grammars and no two engines may share a name. -/
def build (grammars : List Grammar) (engines : List Engine) : Except Failure Registry :=
  match firstRepeat? [] (grammars.map Grammar.name) with
  | some name => .error (.duplicateIdentifier .grammar name)
  | none =>
    match firstRepeat? [] (engines.map Engine.name) with
    | some name => .error (.duplicateIdentifier .engine name)
    | none => .ok ⟨grammars, engines⟩

/-- Both grammars and both engines. -/
def standard : Registry := ⟨Grammar.all, [.accelerated, .interpreted]⟩

/-- Names in the order of their code points. -/
def sorted (names : List String) : List String :=
  names.mergeSort fun (a b : String) => a ≤ b

def grammarIds (r : Registry) : List String := sorted (r.grammars.map Grammar.name)

def engineIds (r : Registry) : List String := sorted (r.engines.map Engine.name)

/-- The grammar of a name. -/
def grammar (r : Registry) (id : String) : Except Failure Grammar :=
  match r.grammars.find? (·.name = id) with
  | some grammar => .ok grammar
  | none => .error (.unknownIdentifier .grammar id r.grammarIds)

/-- The engine of a name, unless what it depends on is missing. -/
def engine (r : Registry) (id : String) : Except Failure Engine :=
  match r.engines.find? (·.name = id) with
  | none => .error (.unknownIdentifier .engine id r.engineIds)
  | some engine =>
    match engine.dependency with
    | some dependency =>
      if dependency.available then .ok engine
      else .error (.dependencyMissing id dependency.name dependency.hint)
    | none => .ok engine

/-- Runs a compiled expression on the engine that it is meant for. -/
def execute (r : Registry) (compiled : Compiled) : Except Failure Value := do
  let engine ← r.engine compiled.engine
  match engine.run compiled with
  | .ok value => return value
  | .error error => throw (.engineFailed engine.name error)

end Registry

end Formula
