import Formula.Failure
import Formula.Scope.Resolver

/-! # Documents

JSON documents, and the values and namespaces that they stand for. -/

namespace Formula

/-- A number of a document: an integer that fits 64 bits, without a sign or with one, or a real. -/
inductive Json.Number where
  | natural (n : UInt64)
  | negative (n : Int64)
  | real (x : Float)
  deriving DecidableEq

namespace Json.Number

/-- The integer that the number is written as. -/
def toInt? : Json.Number → Option Int
  | natural n => some n.toNat
  | negative n => some n.toInt
  | real _ => none

/-- The nearest double. -/
def toReal : Json.Number → Float
  | natural n => Nearest.double false n.toNat 1
  | negative n => (Formula.Number.integer n).toReal
  | real x => x

end Json.Number

/-- A JSON document. The members of an object are in the order of their keys, each key once. -/
inductive Json where
  | null
  | bool (b : Bool)
  | number (n : Json.Number)
  | string (s : String)
  | array (items : List Json)
  | object (members : List (String × Json))

namespace Json

instance : Inhabited Json := ⟨null⟩

/-- Adds a member to members in the order of their keys, in place of one with the same key. -/
def insertMember (key : String) (value : Json) : List (String × Json) → List (String × Json)
  | [] => [(key, value)]
  | (other, old) :: members =>
    if key < other then (key, value) :: (other, old) :: members
    else if key = other then (key, value) :: members
    else (other, old) :: insertMember key value members

/-- The object with the given members, of which a later one replaces an earlier one. -/
def ofMembers (members : List (String × Json)) : Json :=
  object (members.foldl (fun (sorted : List (String × Json)) (m : String × Json) =>
    insertMember m.1 m.2 sorted) [])

/-- Why a document is not a value. -/
inductive NoValue where
  | null
  | object
  deriving DecidableEq, Repr

def NoValue.message : NoValue → String
  | null => "null has no value"
  | object => "objects are namespaces, not values"

mutual

/-- The value that a document stands for; the leftmost part without one decides the error. An
integer stays one if it fits, and every other number is a real. -/
def toValue : Json → Except NoValue Value
  | null => .error .null
  | bool b => .ok (.bool b)
  | number n =>
    match n.toInt?.bind Integer.ofInt? with
    | some i => .ok (.integer i)
    | none => .ok (.real n.toReal)
  | string s => .ok (.text s)
  | array items => do return .array (← toValues items)
  | object _ => .error .object

def toValues : List Json → Except NoValue (List Value)
  | [] => .ok []
  | item :: items => do
    let value ← item.toValue
    let values ← toValues items
    return value :: values

end

/-- The value of a document or of a member, under the name that a failure gives it. -/
def namedValue (name : String) (document : Json) : Except Failure Value :=
  match document.toValue with
  | .ok value => .ok value
  | .error reason => .error (.invalidBinding name reason.message)

/-- The value of each member under its key. -/
def toBindings (members : List (String × Json)) : Except Failure Bindings :=
  members.foldlM (fun (b : Bindings) (member : String × Json) => do
    return b.insert member.1 (← namedValue member.1 member.2)) Bindings.empty

/-- An object has keyed lookup, and any other document is a plain value. -/
def toNamespace : Json → Except Failure Namespace
  | object members => do return .keyed (Resolver.ofBindings (← toBindings members))
  | document => do return .plain (← namedValue "<document>" document)

end Json

end Formula
