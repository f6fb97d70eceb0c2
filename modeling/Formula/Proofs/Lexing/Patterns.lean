import Formula.Token.Scan

/-! # Patterns of tokens

What every kind of token is written as and what it stands for, and which token a text begins with:
the one that goes on longest. The patterns do not refer to the scanner. -/

namespace Formula.Token

/-! ## Parts of tokens -/

def IsDigits (cs : List Char) : Prop := cs ≠ [] ∧ ∀ c ∈ cs, c.isDigit = true

/-- The exponent part of a numeral and the power of ten that it writes. -/
inductive Exponent : List Char → Int → Prop where
  | unsigned {letter : Char} {digits : List Char} (hletter : letter = 'e' ∨ letter = 'E')
      (h : IsDigits digits) : Exponent (letter :: digits) (Nat.ofDigitChars 10 digits 0)
  | plus {letter : Char} {digits : List Char} (hletter : letter = 'e' ∨ letter = 'E')
      (h : IsDigits digits) : Exponent (letter :: '+' :: digits) (Nat.ofDigitChars 10 digits 0)
  | minus {letter : Char} {digits : List Char} (hletter : letter = 'e' ∨ letter = 'E')
      (h : IsDigits digits) : Exponent (letter :: '-' :: digits) (-Nat.ofDigitChars 10 digits 0)

/-- What may stand between two quotes and the characters that it stands for. A backslash escapes
any character but a line feed. -/
inductive Quoted (quote : Char) : List Char → List Char → Prop where
  | nil : Quoted quote [] []
  | plain {c : Char} {cs s : List Char} (hquote : c ≠ quote) (hbackslash : c ≠ '\\')
      (h : Quoted quote cs s) : Quoted quote (c :: cs) (c :: s)
  | lineFeed {cs s : List Char} (h : Quoted quote cs s) :
      Quoted quote ('\\' :: 'n' :: cs) ('\n' :: s)
  | tab {cs s : List Char} (h : Quoted quote cs s) : Quoted quote ('\\' :: 't' :: cs) ('\t' :: s)
  | escaped {c : Char} {cs s : List Char} (hlineFeed : c ≠ '\n') (hn : c ≠ 'n') (ht : c ≠ 't')
      (h : Quoted quote cs s) : Quoted quote ('\\' :: c :: cs) (c :: s)

/-! ## Tokens -/

/-- The texts that the patterns of tokens match, with the token that they are decoded to. A keyword
is also matched as a name. -/
inductive Matches : List Char → Token → Prop where
  /-- Digits or none, a point and digits. -/
  | fraction {whole decimals : List Char} (hwhole : ∀ c ∈ whole, c.isDigit = true)
      (hdecimals : IsDigits decimals) :
      Matches (whole ++ '.' :: decimals)
        (.real (Decimal.toFloat false
          ⟨Nat.ofDigitChars 10 (whole ++ decimals) 0, -decimals.length⟩))
  | fractionPower {whole decimals exponent : List Char} {power : Int}
      (hwhole : ∀ c ∈ whole, c.isDigit = true) (hdecimals : IsDigits decimals)
      (hexponent : Exponent exponent power) :
      Matches (whole ++ '.' :: decimals ++ exponent)
        (.real (Decimal.toFloat false
          ⟨Nat.ofDigitChars 10 (whole ++ decimals) 0, power - decimals.length⟩))
  | wholePower {whole exponent : List Char} {power : Int} (hwhole : IsDigits whole)
      (hexponent : Exponent exponent power) :
      Matches (whole ++ exponent)
        (.real (Decimal.toFloat false ⟨Nat.ofDigitChars 10 whole 0, power⟩))
  | integer {digits : List Char} {n : Int64} (h : IsDigits digits)
      (hn : n.toInt = Nat.ofDigitChars 10 digits 0) : Matches digits (.integer (some n))
  | largeInteger {digits : List Char} (h : IsDigits digits)
      (hlarge : Int64.maxValue.toInt < Nat.ofDigitChars 10 digits 0) :
      Matches digits (.integer none)
  | bool {word : String} {b : Bool}
      (h : (word, b) ∈ [("True", true), ("true", true), ("False", false), ("false", false)]) :
      Matches word.toList (.bool b)
  | text {quote : Char} {body s : List Char} (hquote : quote = '"' ∨ quote = '\'')
      (h : Quoted quote body s) : Matches (quote :: body ++ [quote]) (.text (String.ofList s))
  | name {c : Char} {cs : List Char} (hstart : isWordStart c = true)
      (hpart : ∀ d ∈ cs, isWordPart d = true) :
      Matches (c :: cs) (.name (String.ofList (c :: cs)))
  | update {op : String}
      (h : op ∈ ["+=", "-=", "*=", "/=", "//=", "**=", "%=", "&=", "|="]) :
      Matches op.toList (.update op)
  | symbol (s : Symbol) : Matches s.spelling.toList (.symbol s)

/-- The token that a text begins with: no pattern and no run of separators matches more of the text,
and a keyword is not taken for a name. -/
structure Longest (cs lexeme : List Char) (token : Token) : Prop where
  nonempty : lexeme ≠ []
  begins : lexeme <+: cs
  spells : Matches lexeme token
  longest : ∀ other t, other <+: cs → Matches other t → other.length ≤ lexeme.length
  longestRun : ∀ run, run <+: cs → (∀ c ∈ run, Text.isSeparator c = true) →
    run.length ≤ lexeme.length
  fixed : ∀ t, Matches lexeme t → (∀ id, t ≠ .name id) → token = t

end Formula.Token
