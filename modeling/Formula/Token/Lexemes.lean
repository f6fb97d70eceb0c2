import Formula.SyntaxError
import Formula.Text.Bytes
import Formula.Token.Scan

/-! # Lexemes of a text

A text is read as tokens with separators between them. -/

namespace Formula.Lexeme

/-- The tokens of the text `cs`, which starts at the byte offset `pos`. -/
def ofChars (pos : Nat) (cs : List Char) : Except SyntaxError (List Lexeme) :=
  match cs with
  | [] => .ok []
  | c :: rest =>
    if Text.isSeparator c then
      ofChars (pos + c.utf8Size) rest
    else
      match Token.scan? c rest with
      | none => .error (.located (.unreadable (String.ofList (Token.unreadable c rest))) pos)
      | some (token, tail) => do
        let lexemes ← ofChars (pos + Text.byteLength (c :: tail)) (rest.drop tail.length)
        return ⟨token, pos⟩ :: lexemes
  termination_by cs.length

/-- The tokens of a text. -/
def ofText (source : String) : Except SyntaxError (List Lexeme) := ofChars 0 source.toList

end Formula.Lexeme
