import Formula.Number.Written
import Formula.Text.Quoted

/-! # Tokens

The units that expression text is made of, and how messages show them. -/

namespace Formula

/-- The keywords and punctuation marks that stand for themselves. -/
inductive Symbol where
  | and
  | or
  | not
  | power
  | floorDivide
  | plus
  | minus
  | times
  | divide
  | percent
  | ampersand
  | bar
  | tilde
  | openParen
  | closeParen
  | openBracket
  | closeBracket
  | comma
  | assign
  | semicolon
  | equal
  | notEqual
  | lessEqual
  | greaterEqual
  | less
  | greater
  deriving DecidableEq, Repr

def Symbol.spelling : Symbol → String
  | and => "and"
  | or => "or"
  | not => "not"
  | power => "**"
  | floorDivide => "//"
  | plus => "+"
  | minus => "-"
  | times => "*"
  | divide => "/"
  | percent => "%"
  | ampersand => "&"
  | bar => "|"
  | tilde => "~"
  | openParen => "("
  | closeParen => ")"
  | openBracket => "["
  | closeBracket => "]"
  | comma => ","
  | assign => "="
  | semicolon => ";"
  | equal => "=="
  | notEqual => "!="
  | lessEqual => "<="
  | greaterEqual => ">="
  | less => "<"
  | greater => ">"

inductive Token where
  | real (x : Float)
  /-- It is `none` when the literal is larger than every 64-bit integer. -/
  | integer (n : Option Int64)
  | bool (b : Bool)
  /-- The text with its quotes removed and its escapes resolved. -/
  | text (s : String)
  | name (id : String)
  /-- An operator joined to `=`. -/
  | update (op : String)
  | symbol (s : Symbol)
  deriving DecidableEq

/-- The token as messages show it. -/
def Token.render : Token → String
  | real x => Written.literal x
  | integer (some n) => toString n.toInt
  | integer none => "<integer>"
  | bool b => if b then "True" else "False"
  | text s => Text.quote s
  | name id => id
  | update op => op
  | symbol s => "'" ++ s.spelling ++ "'"

/-- A token and the byte offset at which it starts. -/
structure Lexeme where
  token : Token
  pos : Nat
  deriving DecidableEq

end Formula
