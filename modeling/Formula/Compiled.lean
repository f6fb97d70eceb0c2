import Formula.Expr.Eval
import Formula.Expr.Reading
import Formula.Scope

/-! # Compiled expressions

An expression read from a text, with every name that it uses resolved to a value. -/

namespace Formula

structure Compiled where
  source : String
  tree : Expr
  grammar : Grammar
  /-- The name of the engine that the expression is meant for. -/
  engine : String
  division : Division
  /-- The names of the expression in the order of their first use. -/
  names : List String
  /-- The value of each name. -/
  terms : Bindings
  /-- The value of any name in the scope that the names were resolved in, for engines that look up
  more names when they run. -/
  lookup : String → Except Failure (Option Value)
  /-- The number of resolvers behind that scope. -/
  resolverCount : Nat

namespace Compiled

/-- The uses of names that are not repetitions of an earlier use. -/
def firstUses : List (String × Nat) → List (String × Nat)
  | [] => []
  | use :: uses => use :: (firstUses uses).filter fun (later : String × Nat) => later.1 ≠ use.1

/-- Adds the value of a name to the terms. -/
def bind (scope : Scope) (terms : Bindings) (use : String × Nat) : Except Failure Bindings := do
  match ← scope.resolve use.1 with
  | some value => return terms.insert use.1 value
  | none => throw (.unresolved use.1 use.2)

/-- The expression that a text is under a grammar, its names resolved in the order of their first
use. -/
def ofText (source : String) (grammar : Grammar) (scope : Scope) (engine : String)
    (division : Division) : Except Failure Compiled := do
  match Expr.ofText grammar source with
  | .error error => throw (.malformed error)
  | .ok tree =>
    let uses := firstUses tree.names
    let terms ← uses.foldlM (bind scope) Bindings.empty
    return {
      source, tree, grammar, engine, division, terms,
      names := uses.map Prod.fst,
      lookup := scope.resolve,
      resolverCount := scope.resolvers.length
    }

/-- The expression and how it was compiled, on one line. -/
def inspect (c : Compiled) : String :=
  let grammar := match c.grammar with
    | .extended => "Extended"
    | .strict => "Strict"
  let division := match c.division with
    | .exact => "True"
    | .legacy => "Legacy"
  let names := ", ".intercalate (c.names.map Text.quote)
  "CompiledExpr \x7b source: " ++ Text.quote c.source ++ ", grammar: " ++ grammar ++
    ", engine: " ++ Text.quote c.engine ++ ", division: " ++ division ++
    ", names: [" ++ names ++ "], .. \x7d"

end Compiled

end Formula
