import Formula.Number.Integer
import Formula.Text.Blank
import Formula.Token

/-! # Scanning one token

At each place the longest token is taken. Which kind it is shows in its first character, except
that a numeral and a lone point both begin with a point, and the punctuation marks are tried with
the longer spellings first. -/

namespace Formula.Token

/-- Letters and the underscore begin a word. -/
def isWordStart (c : Char) : Bool := c.isAlpha || c = '_'

/-- Letters, digits and the underscore continue a word. -/
def isWordPart (c : Char) : Bool := isWordStart c || c.isDigit

/-- The words that are not names. -/
def keywords : List (String × Token) :=
  [("True", bool true), ("true", bool true), ("False", bool false), ("false", bool false),
    ("and", symbol .and), ("or", symbol .or), ("not", symbol .not)]

def ofWord (word : List Char) : Token :=
  let spelling := String.ofList word
  (keywords.lookup spelling).getD (name spelling)

/-- The text of a numeral in its three parts. A part that is not there is empty. -/
structure Numeral where
  whole : List Char
  /-- The point and the digits after it. -/
  fraction : List Char
  /-- The letter, the sign if there is one, and the digits. -/
  exponent : List Char

namespace Numeral

/-- A point and at least one digit. -/
def scanFraction : List Char → List Char
  | '.' :: rest =>
    let digits := rest.takeWhile Char.isDigit
    if digits = [] then [] else '.' :: digits
  | _ => []

def scanSign : List Char → List Char
  | '+' :: _ => ['+']
  | '-' :: _ => ['-']
  | _ => []

/-- The letter, a sign or none, and at least one digit. -/
def scanExponent : List Char → List Char
  | [] => []
  | letter :: rest =>
    let sign := scanSign rest
    let digits := (rest.drop sign.length).takeWhile Char.isDigit
    if (letter = 'e' ∨ letter = 'E') ∧ digits ≠ [] then letter :: (sign ++ digits) else []

/-- The longest numeral at the start of the text. -/
def scan (cs : List Char) : Numeral :=
  let whole := cs.takeWhile Char.isDigit
  let fraction := scanFraction (cs.drop whole.length)
  let exponent := scanExponent (cs.drop (whole.length + fraction.length))
  ⟨whole, fraction, exponent⟩

def text (n : Numeral) : List Char := n.whole ++ n.fraction ++ n.exponent

/-- The power of ten that the exponent part writes. -/
def power (n : Numeral) : Int :=
  let rest := n.exponent.drop 1
  let sign := scanSign rest
  let magnitude := Nat.ofDigitChars 10 (rest.drop sign.length) 0
  if sign = ['-'] then -magnitude else magnitude

/-- The number written, its point moved behind the last digit. -/
def decimal (n : Numeral) : Decimal :=
  let decimals := n.fraction.drop 1
  ⟨Nat.ofDigitChars 10 (n.whole ++ decimals) 0, n.power - decimals.length⟩

/-- A numeral with a fraction or an exponent is a real, any other one with digits an integer. -/
def token? (n : Numeral) : Option Token :=
  if n.fraction ≠ [] ∨ (n.whole ≠ [] ∧ n.exponent ≠ []) then
    some (real (n.decimal.toFloat false))
  else if n.whole ≠ [] then
    some (integer (Integer.ofDigits? n.whole))
  else
    none

end Numeral

/-- The longest run of characters and escapes that may stand between two quotes. An escape is a
backslash and any character other than a line feed. -/
def scanQuoted (quote : Char) : List Char → List Char
  | [] => []
  | [c] => if c = quote ∨ c = '\\' then [] else [c]
  | c :: d :: rest =>
    if c = quote then []
    else if c = '\\' then
      if d = '\n' then [] else c :: d :: scanQuoted quote rest
    else c :: scanQuoted quote (d :: rest)

/-- Resolves escapes: `\n` and `\t` are a line feed and a tab, any other character escapes
itself. -/
def unescape : List Char → List Char
  | '\\' :: 'n' :: rest => '\n' :: unescape rest
  | '\\' :: 't' :: rest => '\t' :: unescape rest
  | '\\' :: c :: rest => c :: unescape rest
  | '\\' :: [] => []
  | c :: rest => c :: unescape rest
  | [] => []

/-- The operators that may be joined to `=`. -/
def updates : List String := ["+=", "-=", "*=", "/=", "//=", "**=", "%=", "&=", "|="]

/-- The marks of two characters. -/
def longMarks : List Symbol := [.power, .floorDivide, .equal, .notEqual, .lessEqual, .greaterEqual]

/-- The marks of one character. -/
def shortMarks : List Symbol :=
  [.plus, .minus, .times, .divide, .percent, .ampersand, .bar, .tilde, .openParen, .closeParen,
    .openBracket, .closeBracket, .comma, .assign, .semicolon, .less, .greater]

/-- All marks, a longer spelling before its own beginnings. -/
def marks : List (List Char × Token) :=
  updates.map (fun (op : String) => (op.toList, update op)) ++
    (longMarks ++ shortMarks).map (fun (s : Symbol) => (s.spelling.toList, symbol s))

/-- The token at the start of the text `c :: cs`, with the characters of it that follow `c`. -/
def scan? (c : Char) (cs : List Char) : Option (Token × List Char) :=
  if isWordStart c then
    let rest := cs.takeWhile isWordPart
    some (ofWord (c :: rest), rest)
  else if c.isDigit || c = '.' then
    let numeral := Numeral.scan (c :: cs)
    numeral.token?.map fun (token : Token) => (token, numeral.text.drop 1)
  else if c = '"' || c = '\'' then
    let body := scanQuoted c cs
    if (cs.drop body.length).head? = some c then
      some (text (String.ofList (unescape body)), body ++ [c])
    else
      none
  else
    (marks.find? fun (mark : List Char × Token) => mark.1.isPrefixOf (c :: cs)).map
      fun (mark : List Char × Token) => (mark.2, mark.1.drop 1)

/-- The characters that an error names where no token starts: one character, or text that lacks
its closing quote. -/
def unreadable (c : Char) (cs : List Char) : List Char :=
  if c = '"' || c = '\'' then c :: scanQuoted c cs else [c]

end Formula.Token
