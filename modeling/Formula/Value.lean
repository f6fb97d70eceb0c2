import Formula.Fault
import Formula.Number
import Formula.Number.Integer
import Formula.Text.Quoted

/-! # Values

What expressions are evaluated to: numbers, booleans, text and arrays of any nesting, with the
views that operations take of them. -/

namespace Formula

inductive Value where
  | integer (n : Int64)
  | real (x : Float)
  | bool (b : Bool)
  | text (s : String)
  | array (items : List Value)

namespace Value

instance : Inhabited Value := ⟨bool false⟩

def kind : Value → Kind
  | integer _ => .int
  | real _ => .float
  | bool _ => .bool
  | text _ => .text
  | array _ => .array

def isScalar : Value → Bool
  | array _ => false
  | _ => true

def isNumericOrBool : Value → Bool
  | integer _ | real _ | bool _ => true
  | _ => false

/-- A boolean counts as `0` or `1`. -/
def ofBool (b : Bool) : Int64 := if b then 1 else 0

/-- The number that a scalar counts as. -/
def number? : Value → Option Number
  | integer n => some (.integer n)
  | bool b => some (.integer (ofBool b))
  | real x => some (.real x)
  | text _ | array _ => none

/-- The double nearest to the number that a scalar counts as. -/
def toReal (v : Value) : Except Fault Float :=
  Fault.orElse .expectedNumber (v.number?.map Number.toReal)

def items? : Value → Option (List Value)
  | array items => some items
  | _ => none

/-- Zero, `False` and empty text are false, and an array has no truth value. -/
def truth : Value → Except Fault Bool
  | integer n => .ok (n != 0)
  | real x => .ok (!(Exact.ofFloat x).isZero)
  | bool b => .ok b
  | text s => .ok (s != "")
  | array _ => .error .ambiguousTruth

mutual

/-- The text a value is shown as. -/
def plain : Value → String
  | integer n => toString n.toInt
  | real x => Written.plain x
  | bool b => if b then "True" else "False"
  | text s => Text.quote s
  | array items => "[" ++ ", ".intercalate (plainItems items) ++ "]"

def plainItems : List Value → List String
  | [] => []
  | item :: items => item.plain :: plainItems items

end

mutual

/-- The text that tells values of all kinds apart. -/
def inspect : Value → String
  | integer n => s!"Integer({n.toInt})"
  | real x => s!"Real({Written.literal x})"
  | bool b => if b then "Bool(true)" else "Bool(false)"
  | text s => s!"Text({Text.quote s})"
  | array items => "Array([" ++ ", ".intercalate (inspectItems items) ++ "])"

def inspectItems : List Value → List String
  | [] => []
  | item :: items => item.inspect :: inspectItems items

end

end Value

end Formula
