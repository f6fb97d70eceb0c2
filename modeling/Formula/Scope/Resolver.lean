import Formula.Failure
import Formula.Number.Integer
import Formula.Scope.Bindings

/-! # Resolvers

Keyed lookup of values by name, and the candidates that a caller offers for it. -/

namespace Formula

/-- Anything that answers what is bound to a name. -/
structure Resolver where
  typeName : String
  resolve : String → Option Value

namespace Resolver

def ofBindings (b : Bindings) : Resolver := ⟨"Bindings", b.get?⟩

/-- The integer that a text writes: an optional sign and decimal digits. -/
def integer? (cs : List Char) : Option Int64 :=
  let digits := match cs with
    | '+' :: rest | '-' :: rest => rest
    | _ => cs
  if digits = [] ∨ ¬ digits.all Char.isDigit then none
  else
    let magnitude := (Nat.ofDigitChars 10 digits 0 : Int)
    Integer.ofInt? (if cs.head? = some '-' then -magnitude else magnitude)

/-- Answers every name that is `n` and an integer with that integer. -/
def numbered : Resolver where
  typeName := "Numbered"
  resolve name :=
    match name.toList with
    | 'n' :: rest => (integer? rest).map Value.integer
    | _ => none

end Resolver

/-- A candidate for a resolver. A plain value has no keyed lookup. -/
inductive Namespace where
  | keyed (resolver : Resolver)
  | plain (value : Value)

namespace Namespace

def typeName : Namespace → String
  | keyed resolver => resolver.typeName
  | plain value => value.kind.name

def inspect : Namespace → String
  | keyed resolver => s!"Keyed({Text.quote resolver.typeName})"
  | plain value => s!"Plain({value.inspect})"

def resolver? : Namespace → Except Failure Resolver
  | keyed resolver => .ok resolver
  | plain value => .error (.notKeyed value.kind.name)

/-- The resolvers of candidates that all have keyed lookup. -/
def resolvers (candidates : List Namespace) : Except Failure (List Resolver) :=
  candidates.mapM resolver?

end Namespace

end Formula
