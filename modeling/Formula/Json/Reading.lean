import Formula.Json.Number
import Formula.Taken
import Formula.Text.Bytes
import Formula.Token.Scan

/-! # Reading documents

A text is read as one JSON document. Blanks may stand around every part; trailing commas, leading
zeros, controls in strings and anything after the document are errors, and so is a nesting of
arrays and objects deeper than 127. -/

namespace Formula.Json

/-- Why a text is not a document. -/
inductive ReadFault where
  | endInValue
  | endInString
  | endInArray
  | endInObject
  | expectedValue
  | expectedIdent
  | expectedColon
  | expectedArrayEnd
  | expectedObjectEnd
  | keyNotString
  | trailingComma
  | trailingCharacters
  | invalidNumber
  | numberOutOfRange
  | invalidEscape
  | unpairedSurrogate
  | unexpectedEscapeEnd
  | controlInString
  | nestedTooDeep
  deriving DecidableEq, Repr

def ReadFault.message : ReadFault → String
  | endInValue => "EOF while parsing a value"
  | endInString => "EOF while parsing a string"
  | endInArray => "EOF while parsing a list"
  | endInObject => "EOF while parsing an object"
  | expectedValue => "expected value"
  | expectedIdent => "expected ident"
  | expectedColon => "expected `:`"
  | expectedArrayEnd => "expected `,` or `]`"
  | expectedObjectEnd => "expected `,` or `\x7d`"
  | keyNotString => "key must be a string"
  | trailingComma => "trailing comma"
  | trailingCharacters => "trailing characters"
  | invalidNumber => "invalid number"
  | numberOutOfRange => "number out of range"
  | invalidEscape => "invalid escape"
  | unpairedSurrogate => "lone leading surrogate in hex escape"
  | unexpectedEscapeEnd => "unexpected end of hex escape"
  | controlInString => "control character (\\u\x7b0000\x7d-\\u\x7b001F\x7d) found while parsing a string"
  | nestedTooDeep => "recursion limit exceeded"

/-- A fault and the number of bytes of the text that come after its place. -/
structure ReadError where
  fault : ReadFault
  bytesAfter : Nat
  deriving DecidableEq, Repr

/-- A fault in front of the characters `rest`. -/
def before {α : Type} (fault : ReadFault) (rest : List Char) : Except ReadError α :=
  .error ⟨fault, Text.byteLength rest⟩

/-- A fault of the first of the characters `rest`, its place being the byte behind it. -/
def here {α : Type} (fault : ReadFault) (rest : List Char) : Except ReadError α :=
  .error ⟨fault, Text.byteLength rest - 1⟩

def isBlank (c : Char) : Bool := c = ' ' || c = '\n' || c = '\t' || c = '\r'

/-- The first character that is not blank. -/
def next? (cs : List Char) : Option (Taken Char cs) :=
  match cs with
  | [] => none
  | c :: rest =>
    if isBlank c then
      (next? rest).map fun (next : Taken Char rest) =>
        ⟨next.value, next.rest, Nat.lt_succ_of_lt next.shorter⟩
    else
      some ⟨c, rest, Nat.lt_succ_self _⟩

/-- The value of a hexadecimal digit. -/
def hexDigit? (c : Char) : Option Nat :=
  if c.isDigit then some (c.toNat - '0'.toNat)
  else if 'a' ≤ c ∧ c ≤ 'f' then some (c.toNat - 'a'.toNat + 10)
  else if 'A' ≤ c ∧ c ≤ 'F' then some (c.toNat - 'A'.toNat + 10)
  else none

/-- Reads four hexadecimal digits. -/
def takeHex (cs : List Char) : Except ReadError (Taken Nat cs) :=
  match cs with
  | a :: b :: c :: d :: rest =>
    match hexDigit? a, hexDigit? b, hexDigit? c, hexDigit? d with
    | some w, some x, some y, some z =>
      return ⟨((w * 16 + x) * 16 + y) * 16 + z, rest, Nat.lt_add_of_pos_right (Nat.succ_pos 3)⟩
    | _, _, _, _ => before .invalidEscape rest
  | _ => before .endInString []

/-- Reads the digits of a code point escape. Two escapes that are the halves of a surrogate pair
stand for one character. -/
def takeCodePoint (cs : List Char) : Except ReadError (Taken Char cs) := do
  let ⟨first, rest, h⟩ ← takeHex cs
  if 0xDC00 ≤ first ∧ first ≤ 0xDFFF then
    before .unpairedSurrogate rest
  else if first < 0xD800 ∨ 0xDBFF < first then
    return ⟨Char.ofNat first, rest, h⟩
  else
    match rest, h with
    | '\\' :: 'u' :: low, h => do
      let ⟨second, after, hafter⟩ ← takeHex low
      if 0xDC00 ≤ second ∧ second ≤ 0xDFFF then
        return ⟨Char.ofNat ((first - 0xD800) * 1024 + (second - 0xDC00) + 0x10000), after,
          by grind⟩
      else
        before .unpairedSurrogate after
    | '\\' :: _ :: rest, _ => before .unexpectedEscapeEnd rest
    | ['\\'], _ => before .endInString []
    | [], _ => before .endInString []
    | _ :: rest, _ => before .unexpectedEscapeEnd rest

/-- Reads what follows a backslash. -/
def takeEscape (cs : List Char) : Except ReadError (Taken Char cs) :=
  match cs with
  | [] => before .endInString []
  | 'u' :: rest => do
    let ⟨c, after, h⟩ ← takeCodePoint rest
    return ⟨c, after, by grind⟩
  | c :: rest =>
    let escapes : List (Char × Char) :=
      [('"', '"'), ('\\', '\\'), ('/', '/'), ('b', '\x08'), ('f', '\x0c'), ('n', '\n'),
        ('r', '\r'), ('t', '\t')]
    match escapes.lookup c with
    | some escaped => return ⟨escaped, rest, by grind⟩
    | none => before .invalidEscape rest

/-- Reads the characters of a string up to and including its closing quote. -/
def takeString (cs : List Char) : Except ReadError (Taken (List Char) cs) :=
  match cs with
  | [] => before .endInString []
  | '"' :: rest => return ⟨[], rest, by grind⟩
  | '\\' :: rest => do
    let ⟨c, afterEscape, h⟩ ← takeEscape rest
    let ⟨s, after, hafter⟩ ← takeString afterEscape
    return ⟨c :: s, after, by grind⟩
  | c :: rest =>
    if c.toNat < 0x20 then
      before .controlInString rest
    else do
      let ⟨s, after, hafter⟩ ← takeString rest
      return ⟨c :: s, after, by grind⟩
  termination_by cs.length
  decreasing_by all_goals grind

/-- Reads digits, of which there must be one. -/
def takeDigits (cs : List Char) : Except ReadError (Taken (List Char) cs) :=
  match cs with
  | [] => before .endInValue []
  | c :: rest =>
    if c.isDigit then
      let digits := rest.takeWhile Char.isDigit
      return ⟨c :: digits, rest.drop digits.length, by grind⟩
    else
      here .invalidNumber (c :: rest)

/-- Reads a point and digits, if a point is there. -/
def peelFraction (cs : List Char) : Except ReadError (Peeled (List Char) cs) :=
  match cs with
  | '.' :: rest => do
    let ⟨digits, after, h⟩ ← takeDigits rest
    return ⟨digits, after, Nat.le_succ_of_le (Nat.le_of_lt h)⟩
  | cs => return ⟨[], cs, Nat.le_refl _⟩

/-- Reads an exponent, if its letter is there. -/
def peelExponent (cs : List Char) : Except ReadError (Peeled (Option Int) cs) :=
  match cs with
  | [] => return ⟨none, [], Nat.le_refl _⟩
  | letter :: rest =>
    if letter = 'e' ∨ letter = 'E' then do
      let sign := Token.Numeral.scanSign rest
      let ⟨digits, after, h⟩ ← takeDigits (rest.drop sign.length)
      let magnitude := (Nat.ofDigitChars 10 digits 0 : Int)
      return ⟨some (if sign = ['-'] then -magnitude else magnitude), after, by grind⟩
    else
      return ⟨none, letter :: rest, Nat.le_refl _⟩

/-- Reads a number after its sign. -/
def takeNumber (negative : Bool) (cs : List Char) : Except ReadError (Taken Json cs) := do
  let ⟨whole, afterWhole, hwhole⟩ ← takeDigits cs
  if whole.head? = some '0' ∧ whole.length ≠ 1 then
    here .invalidNumber (cs.drop 1)
  else do
    let ⟨fraction, afterFraction, hfraction⟩ ← peelFraction afterWhole
    let ⟨power, after, hpower⟩ ← peelExponent afterFraction
    let parts : Number.Parts := ⟨negative, whole, fraction, power.getD 0⟩
    let found :=
      if fraction = [] ∧ power = none then Number.integer? parts
      else (Number.real? parts).map Number.real
    match found with
    | some n => return ⟨number n, after, by grind⟩
    | none => before .numberOutOfRange after

/-- Reads the rest of a keyword. -/
def takeKeyword (value : Json) : (keyword cs : List Char) → Except ReadError (Peeled Json cs)
  | [], cs => return ⟨value, cs, Nat.le_refl _⟩
  | _ :: _, [] => before .endInValue []
  | expected :: keyword, c :: cs =>
    if c = expected then do
      let ⟨value, after, h⟩ ← takeKeyword value keyword cs
      return ⟨value, after, by grind⟩
    else
      before .expectedIdent cs

/-- Reads the rest of a scalar that begins with `c`. -/
def takeScalar (c : Char) (rest : List Char) : Except ReadError (Peeled Json rest) :=
  if c = '"' then do
    let ⟨s, after, h⟩ ← takeString rest
    return ⟨string (String.ofList s), after, by grind⟩
  else if c = 'n' then takeKeyword null "ull".toList rest
  else if c = 't' then takeKeyword (bool true) "rue".toList rest
  else if c = 'f' then takeKeyword (bool false) "alse".toList rest
  else if c = '-' then do
    let ⟨value, after, h⟩ ← takeNumber true rest
    return ⟨value, after, by grind⟩
  else here .expectedValue (c :: rest)

mutual

/-- Reads a document. Arrays and objects may nest one less than `depth` deep. -/
def takeValue (depth : Nat) (cs : List Char) : Except ReadError (Taken Json cs) :=
  match next? cs with
  | none => before .endInValue []
  | some ⟨c, rest, hrest⟩ =>
    if c = '[' ∨ c = '\x7b' then
      if depth ≤ 1 then
        here .nestedTooDeep (c :: rest)
      else if c = '[' then do
        let ⟨items, after, h⟩ ← takeArray (depth - 1) rest
        return ⟨array items, after, by grind⟩
      else do
        let ⟨members, after, h⟩ ← takeObject (depth - 1) rest
        return ⟨ofMembers members, after, by grind⟩
    else if c.isDigit then do
      let ⟨value, after, h⟩ ← takeNumber false (c :: rest)
      return ⟨value, after, by grind⟩
    else do
      let ⟨value, after, h⟩ ← takeScalar c rest
      return ⟨value, after, by grind⟩
  termination_by (cs.length, 0)
  decreasing_by all_goals grind

/-- Reads the elements of an array up to and including its end. -/
def takeArray (depth : Nat) (cs : List Char) : Except ReadError (Taken (List Json) cs) :=
  match next? cs with
  | none => before .endInArray []
  | some ⟨c, rest, hrest⟩ => if c = ']' then return ⟨[], rest, hrest⟩ else takeItems depth cs
  termination_by (cs.length, 2)
  decreasing_by all_goals grind

/-- Reads at least one element and the end of the array. -/
def takeItems (depth : Nat) (cs : List Char) : Except ReadError (Taken (List Json) cs) := do
  let ⟨item, afterItem, hitem⟩ ← takeValue depth cs
  match next? afterItem with
  | none => before .endInArray []
  | some ⟨c, rest, hrest⟩ =>
    if c = ']' then
      return ⟨[item], rest, by grind⟩
    else if c ≠ ',' then
      here .expectedArrayEnd (c :: rest)
    else if (next? rest).any (·.value = ']') then
      here .trailingComma rest
    else do
      let ⟨items, after, h⟩ ← takeItems depth rest
      return ⟨item :: items, after, by grind⟩
  termination_by (cs.length, 1)
  decreasing_by all_goals grind

/-- Reads the members of an object up to and including its end. -/
def takeObject (depth : Nat) (cs : List Char) :
    Except ReadError (Taken (List (String × Json)) cs) :=
  match next? cs with
  | none => before .endInObject []
  | some ⟨c, rest, hrest⟩ => if c = '\x7d' then return ⟨[], rest, hrest⟩ else takeMembers depth cs
  termination_by (cs.length, 2)
  decreasing_by all_goals grind

/-- Reads at least one member and the end of the object. -/
def takeMembers (depth : Nat) (cs : List Char) :
    Except ReadError (Taken (List (String × Json)) cs) := do
  match next? cs with
  | none => before .endInValue []
  | some ⟨quote, afterQuote, hquote⟩ =>
    if quote ≠ '"' then
      here .keyNotString (quote :: afterQuote)
    else do
      let ⟨key, afterKey, hkey⟩ ← takeString afterQuote
      match next? afterKey with
      | none => before .endInObject []
      | some ⟨colon, afterColon, hcolon⟩ =>
        if colon ≠ ':' then
          here .expectedColon (colon :: afterColon)
        else do
          let ⟨value, afterValue, hvalue⟩ ← takeValue depth afterColon
          match next? afterValue with
          | none => before .endInObject []
          | some ⟨c, rest, hrest⟩ =>
            if c = '\x7d' then
              return ⟨[(String.ofList key, value)], rest, by grind⟩
            else if c ≠ ',' then
              here .expectedObjectEnd (c :: rest)
            else if (next? rest).any (·.value = '\x7d') then
              here .trailingComma rest
            else do
              let ⟨members, after, h⟩ ← takeMembers depth rest
              return ⟨(String.ofList key, value) :: members, after, by grind⟩
  termination_by (cs.length, 1)
  decreasing_by all_goals grind

end

/-- The document that the whole text is. -/
def ofText (text : String) : Except ReadError Json := do
  let document ← takeValue 128 text.toList
  match next? document.rest with
  | none => return document.value
  | some next => here .trailingCharacters (next.value :: next.rest)

/-- The error with its line, counted from one, and the bytes of that line before its place. -/
def ReadError.message (text : String) (e : ReadError) : String :=
  let offset := text.utf8ByteSize - e.bytesAfter
  let bytes := (text.toUTF8.toList.take offset).reverse
  let newline := '\n'.toUInt8
  let line := bytes.count newline + 1
  let column := (bytes.takeWhile (· ≠ newline)).length
  s!"{e.fault.message} at line {line} column {column}"

end Formula.Json
