import Formula.CommandLine.Binding
import Formula.Evaluation
import Formula.Text.Terminal

/-! # Arguments

The arguments of the command line, read from left to right. The value of an option is only looked
at when the next option or the end shows that it is complete, so that an unknown option in between
is reported first. -/

namespace Formula.CommandLine

/-- Options without a value. -/
inductive Flag where
  | file
  | legacyDivision
  | list
  | help
  | version
  deriving DecidableEq, Repr

/-- Options with a value. -/
inductive Setting where
  | grammar
  | engine
  | local
  | global
  | resolver
  deriving DecidableEq, Repr

inductive Switch where
  | flag (f : Flag)
  | setting (s : Setting)
  deriving DecidableEq, Repr

namespace Switch

def ofLetter? : Char → Option Switch
  | 'f' => some (flag .file)
  | 'h' => some (flag .help)
  | 'V' => some (flag .version)
  | 'g' => some (setting .grammar)
  | 'e' => some (setting .engine)
  | 'l' => some (setting .local)
  | 'r' => some (setting .resolver)
  | _ => none

def ofWord? : String → Option Switch
  | "file" => some (flag .file)
  | "legacy-division" => some (flag .legacyDivision)
  | "list" => some (flag .list)
  | "help" => some (flag .help)
  | "version" => some (flag .version)
  | "grammar" => some (setting .grammar)
  | "engine" => some (setting .engine)
  | "local" => some (setting .local)
  | "global" => some (setting .global)
  | "resolver" => some (setting .resolver)
  | _ => none

/-- The option as messages show it. -/
def usage : Switch → String
  | flag .file => "--file"
  | flag .legacyDivision => "--legacy-division"
  | flag .list => "--list"
  | flag .help => "--help"
  | flag .version => "--version"
  | setting .grammar => "--grammar <GRAMMAR>"
  | setting .engine => "--engine <ENGINE>"
  | setting .local => "--local <NAME=VALUE>"
  | setting .global => "--global <NAME=VALUE>"
  | setting .resolver => "--resolver <FILE>"

/-- Whether the option may be given more than once. -/
def repeatable : Switch → Bool
  | setting .local | setting .global | setting .resolver => true
  | _ => false

end Switch

inductive ArgumentError where
  | unexpected (arg : String)
  | unexpectedValue (value : String) (switch : Switch)
  | missingValue (setting : Setting)
  | repeated (switch : Switch)
  | invalidValue (value : String) (setting : Setting) (details : String)
  | missingExpression
  deriving DecidableEq

namespace ArgumentError

open Text.Terminal (bold)

/-- The message, with the arguments and the options in it in bold. -/
def message : ArgumentError → String
  | unexpected arg => s!"unexpected argument '{bold arg}' found"
  | unexpectedValue value switch =>
    s!"unexpected value '{bold value}' for '{bold switch.usage}' found; no more were expected"
  | missingValue setting =>
    let usage := (Switch.setting setting).usage
    s!"a value is required for '{bold usage}' but none was supplied"
  | repeated switch => s!"the argument '{bold switch.usage}' cannot be used multiple times"
  | invalidValue value setting details =>
    let usage := (Switch.setting setting).usage
    s!"invalid value '{bold value}' for '{bold usage}': {details}"
  | missingExpression => "the following required arguments were not provided:"

/-- The report as it is printed. It is made for a terminal, but printed without its sequences; one
that an argument leaves open takes a part of the report with it. -/
def report (error : ArgumentError) : String :=
  let heading := bold "error:"
  let help := bold "--help"
  Text.Terminal.visible
    s!"{heading} {error.message}\n\nFor more information, try '{help}'.\n"

end ArgumentError

/-- Why the arguments do not lead to an evaluation. -/
inductive Refusal where
  | help
  | version
  | invalid (error : ArgumentError)
  deriving DecidableEq

/-- What the arguments ask for. -/
structure Arguments where
  file : Bool := false
  legacyDivision : Bool := false
  list : Bool := false
  grammar : String := ({} : Options).grammar
  engine : String := ({} : Options).engine
  locals : List (String × Value) := []
  globals : List (String × Value) := []
  resolvers : List String := []
  expr : Option String := none

/-- A reading of the arguments so far: the options that were given, and the option whose value is
still open or not yet looked at. -/
structure Progress where
  arguments : Arguments := {}
  given : List Switch := []
  pending : Option (Setting × Option String) := none

namespace Progress

/-- Records that an option was given. -/
def mark (p : Progress) (switch : Switch) : Except ArgumentError Progress :=
  if switch ∈ p.given ∧ ¬ switch.repeatable then .error (.repeated switch)
  else .ok { p with given := switch :: p.given }

def readBinding (setting : Setting) (value : String) : Except ArgumentError (String × Value) :=
  match binding value with
  | .ok entry => .ok entry
  | .error details => .error (.invalidValue value setting details)

/-- Gives an option its value. -/
def set (p : Progress) (setting : Setting) (value : String) : Except ArgumentError Progress := do
  let p ← p.mark (.setting setting)
  let a := p.arguments
  match setting with
  | .grammar => return { p with arguments := { a with grammar := value } }
  | .engine => return { p with arguments := { a with engine := value } }
  | .local =>
    let entry ← readBinding .local value
    return { p with arguments := { a with locals := a.locals ++ [entry] } }
  | .global =>
    let entry ← readBinding .global value
    return { p with arguments := { a with globals := a.globals ++ [entry] } }
  | .resolver =>
    if value = "" then throw (.missingValue .resolver)
    else return { p with arguments := { a with resolvers := a.resolvers ++ [value] } }

/-- Completes the pending option. -/
def settle (p : Progress) : Except ArgumentError Progress :=
  match p.pending with
  | none => .ok p
  | some (setting, none) => .error (.missingValue setting)
  | some (setting, some value) => { p with pending := none }.set setting value

def invalid {α : Type} : Except ArgumentError α → Except Refusal α
  | .ok a => .ok a
  | .error error => .error (.invalid error)

/-- Takes an option without a value. -/
def flag (p : Progress) (f : Flag) : Except Refusal Progress := do
  let p ← invalid p.settle
  match f with
  | .help => throw .help
  | .version => throw .version
  | f =>
    let p ← invalid (p.mark (.flag f))
    let a := p.arguments
    match f with
    | .file => return { p with arguments := { a with file := true } }
    | .legacyDivision => return { p with arguments := { a with legacyDivision := true } }
    | .list => return { p with arguments := { a with list := true } }
    | .help | .version => return p

/-- Takes an option with the value attached to it, or leaves its value to the next argument. -/
def setting (p : Progress) (s : Setting) (attached : Option String) : Except Refusal Progress := do
  let p ← invalid p.settle
  match attached with
  | some value => invalid (p.set s value)
  | none => return { p with pending := some (s, none) }

/-- Takes an argument that begins with two dashes. -/
def word (p : Progress) (cs : List Char) : Except Refusal Progress :=
  let name := String.ofList (cs.takeWhile (· ≠ '='))
  let attached := match cs.dropWhile (· ≠ '=') with
    | _ :: value => some (String.ofList value)
    | [] => none
  match Switch.ofWord? name, attached with
  | some (.setting s), attached => p.setting s attached
  | some (.flag f), none => p.flag f
  | some (.flag f), some value => .error (.invalid (.unexpectedValue value (.flag f)))
  | none, _ => .error (.invalid (.unexpected ("--" ++ name)))

/-- Takes the letters behind one dash. The first option with a value takes the rest as its value. -/
def letters (p : Progress) : List Char → Except Refusal Progress
  | [] => .ok p
  | c :: rest =>
    match Switch.ofLetter? c with
    | some (.flag f) => do (← p.flag f).letters rest
    | some (.setting s) =>
      match rest with
      | [] => p.setting s none
      | '=' :: value => p.setting s (some (String.ofList value))
      | value => p.setting s (some (String.ofList value))
    | none => .error (.invalid (.unexpected (String.ofList ['-', c])))

/-- Takes the expression. -/
def positional (p : Progress) (arg : String) : Except Refusal Progress := do
  match p.arguments.expr with
  | some _ => throw (.invalid (.unexpected arg))
  | none =>
    let p ← invalid p.settle
    return { p with arguments := { p.arguments with expr := some arg } }

/-- Takes an argument in front of `--`. -/
def argument (p : Progress) (arg : String) : Except Refusal Progress :=
  match arg.toList with
  | '-' :: '-' :: cs => p.word cs
  | '-' :: c :: cs => p.letters (c :: cs)
  | _ =>
    match p.pending with
    | some (s, none) => .ok { p with pending := some (s, some arg) }
    | _ => p.positional arg

end Progress

namespace Arguments

/-- Reads all arguments; those behind `--` are never options or their values. -/
def read (p : Progress) : List String → Except Refusal Progress
  | [] => .ok p
  | arg :: args =>
    if arg = "--" then args.foldlM Progress.positional p
    else do read (← p.argument arg) args

/-- What a list of arguments asks for. An expression is required unless the list of identifiers is
asked for. -/
def ofList (args : List String) : Except Refusal Arguments := do
  let p ← Progress.invalid (← read {} args).settle
  if p.arguments.expr.isNone ∧ ¬ p.arguments.list then throw (.invalid .missingExpression)
  else return p.arguments

end Arguments

end Formula.CommandLine
