import Formula.Fault
import Formula.SyntaxError

/-! # Failures

Every way in which an evaluation ends without a result, from the choice of a grammar to the check
of the result. -/

namespace Formula

/-- The two tables of a registry. -/
inductive Table where
  | grammar
  | engine
  deriving DecidableEq, Repr

def Table.name : Table → String
  | grammar => "grammar"
  | engine => "engine"

inductive Failure where
  | unknownIdentifier (table : Table) (id : String) (valid : List String)
  | duplicateIdentifier (table : Table) (id : String)
  | dependencyMissing (engine dependency hint : String)
  | notKeyed (typeName : String)
  | notText (kind : Kind)
  | invalidResult (kind : Kind)
  | malformed (error : SyntaxError)
  | unresolved (name : String) (pos : Nat)
  | contextDepth (depth available : Nat)
  | engineFailed (engine : String) (error : RuntimeError)
  | invalidBinding (name details : String)
  deriving DecidableEq

namespace Failure

def message : Failure → String
  | unknownIdentifier table id valid =>
    let names := ", ".intercalate valid
    s!"Invalid {table.name} '{id}' passed, valid {table.name}s are: {names}."
  | duplicateIdentifier table id => s!"The {table.name} '{id}' is already registered."
  | dependencyMissing engine dependency hint =>
    s!"'{dependency}' not found. Cannot use engine '{engine}' without it ({hint})."
  | notKeyed typeName => s!"Resolver of type '{typeName}' must support keyed lookup."
  | notText kind => s!"Only text expressions can be evaluated, got a value of type '{kind.name}'."
  | invalidResult kind =>
    s!"Scalar result must be numeric or bool, result type is '{kind.name}'."
  | malformed error => error.message
  | unresolved name pos => s!"Error at position {pos}: Name '{name}' is not defined."
  | contextDepth depth available =>
    s!"No calling-context frame at depth {depth}, {available} frame(s) available."
  | engineFailed engine error => s!"Engine '{engine}' failed: {error.message}"
  | invalidBinding name details => s!"Invalid binding '{name}': {details}."

/-- The stages of an evaluation that a failure can belong to. -/
inductive Category where
  | configuration
  | dependencyMissing
  | capability
  | inputType
  | wellFormedness
  | nameResolution
  | context
  | engine
  | binding
  deriving DecidableEq, Repr

def category : Failure → Category
  | unknownIdentifier .. | duplicateIdentifier .. => .configuration
  | dependencyMissing .. => .dependencyMissing
  | notKeyed .. => .capability
  | notText .. | invalidResult .. => .inputType
  | malformed .. => .wellFormedness
  | unresolved .. => .nameResolution
  | contextDepth .. => .context
  | engineFailed .. => .engine
  | invalidBinding .. => .binding

/-- The byte offset in the text that the failure names. -/
def position? : Failure → Option Nat
  | malformed error => error.position?
  | unresolved _ pos => some pos
  | _ => none

/-- The message of the error that caused the failure, where the failure adds to it. -/
def source? : Failure → Option String
  | engineFailed _ error => some error.message
  | _ => none

end Failure

end Formula
