/-! # Bytes of text

Places in a text are offsets into its UTF-8 bytes. -/

namespace Formula.Text

/-- The number of bytes that the characters take. -/
def byteLength : List Char → Nat
  | [] => 0
  | c :: cs => c.utf8Size + byteLength cs

end Formula.Text
