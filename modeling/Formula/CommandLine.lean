import Formula.CommandLine.Arguments
import Formula.Json.Reading

/-! # The command line

Evaluates one expression and prints its value. Files are read through a function that is given, so
that a run can be described without any. -/

namespace Formula.CommandLine

/-- The exit status of a run and what it prints. -/
structure Outcome where
  status : UInt32
  stdout : String
  stderr : String
  deriving DecidableEq, Repr

def Outcome.success (line : String) : Outcome := ⟨0, line ++ "\n", ""⟩

def Outcome.failure (line : String) : Outcome := ⟨1, "", line ++ "\n"⟩

def versionLine : String := "scopeval 0.1.0"

def help : String :=
  "\n".intercalate [
    "Usage: scopeval [OPTIONS] [EXPR]",
    "",
    "Options:",
    "  -f, --file                 Read the expression from the file EXPR",
    "  -g, --grammar <GRAMMAR>    Grammar of the expression",
    "  -e, --engine <ENGINE>      Engine that runs the expression",
    "      --legacy-division      Round the quotient of two integers down",
    "  -l, --local <NAME=VALUE>   Bind a local name",
    "      --global <NAME=VALUE>  Bind a global name",
    "  -r, --resolver <FILE>      Look names up in a JSON file",
    "      --list                 List the grammars and engines",
    "  -h, --help                 Print help",
    "  -V, --version              Print the version"]

/-- The identifiers of the standard registry. -/
def listing : String :=
  let grammars := ", ".intercalate Registry.standard.grammarIds
  let engines := ", ".intercalate Registry.standard.engineIds
  s!"grammars: {grammars}\nengines:  {engines}"

variable {m : Type → Type} [Monad m]

/-- The text of the expression: the argument itself, or the contents of the file that it names. -/
def expressionText (readFile : String → m (Except String String)) (a : Arguments) :
    m (Except String String) := do
  let contents := a.expr.getD ""
  if a.file then
    match ← readFile contents with
    | .ok text => return .ok text
    | .error e => return .error s!"Failed to read the expression file '{contents}': {e}"
  else
    return .ok contents

/-- The namespace in a file. -/
def loadNamespace (readFile : String → m (Except String String)) (path : String) :
    m (Except Failure Namespace) := do
  match ← readFile path with
  | .error e => return .error (.invalidBinding path e)
  | .ok text =>
    match Json.ofText text with
    | .error e => return .error (.invalidBinding path (e.message text))
    | .ok document => return document.toNamespace

/-- The namespaces in files, up to the first one that cannot be loaded. -/
def loadNamespaces (readFile : String → m (Except String String)) :
    List String → m (Except Failure (List Namespace))
  | [] => return .ok []
  | path :: paths => do
    match ← loadNamespace readFile path with
    | .error failure => return .error failure
    | .ok candidate =>
      match ← loadNamespaces readFile paths with
      | .error failure => return .error failure
      | .ok candidates => return .ok (candidate :: candidates)

/-- Bindings that are given, none being the same as an absent namespace. -/
def given (entries : List (String × Value)) : Option Bindings :=
  if entries = [] then none else some (Bindings.ofList entries)

/-- How the arguments ask for the expression to be evaluated. -/
def options (a : Arguments) (resolvers : List Namespace) : Options where
  grammar := a.grammar
  engine := a.engine
  trueDivision := !a.legacyDivision
  locals := given a.locals
  globals := given a.globals
  resolvers := resolvers

/-- Evaluates the expression that the arguments ask for. -/
def evaluate (readFile : String → m (Except String String)) (a : Arguments) : m Outcome := do
  match ← expressionText readFile a with
  | .error message => return .failure message
  | .ok text =>
    match ← loadNamespaces readFile a.resolvers with
    | .error failure => return .failure failure.message
    | .ok resolvers =>
      let expr := Source.text (String.ofList (Text.trim text.toList))
      match Registry.standard.evaluate expr (options a resolvers) with
      | .ok value => return .success value.plain
      | .error failure => return .failure failure.message

/-- A run of the program with the given arguments. -/
def run (readFile : String → m (Except String String)) (args : List String) : m Outcome :=
  match Arguments.ofList args with
  | .error .help => return .success help
  | .error .version => return .success versionLine
  | .error (.invalid error) => return ⟨2, "", error.report⟩
  | .ok a => if a.list then return .success listing else evaluate readFile a

end Formula.CommandLine
