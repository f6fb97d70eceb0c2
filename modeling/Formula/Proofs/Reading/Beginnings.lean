import Formula.Proofs.Reading.Semantics
import Formula.SyntaxError

/-! # Beginnings of expressions

How far an expression has come: which brackets are open, and whether an operand is missing. -/

namespace Formula

/-- A bracket that has been opened; one of an index with its position. -/
inductive Opening where
  | paren
  | array
  | index (pos : Nat)

/-- How far an expression has come. -/
structure Progress where
  /-- The brackets that are open, innermost first. -/
  opened : List Opening
  /-- Whether an operand has to come next. -/
  awaits : Bool

namespace Progress

def start : Progress := ⟨[], true⟩

def next (p : Progress) (l : Lexeme) : Progress :=
  match l.token with
  | .symbol .openParen => ⟨.paren :: p.opened, true⟩
  | .symbol .openBracket => ⟨(if p.awaits then .array else .index l.pos) :: p.opened, true⟩
  | .symbol .closeParen | .symbol .closeBracket => ⟨p.opened.tail, false⟩
  | .symbol _ => ⟨p.opened, true⟩
  | _ => ⟨p.opened, false⟩

def after (p : Progress) (ls : List Lexeme) : Progress := ls.foldl next p

/-- The error of a token that no expression goes on with. Behind an operand in square brackets it is
an error of the brackets. -/
def refusal (p : Progress) (l : Lexeme) : SyntaxError :=
  match p.awaits, p.opened with
  | false, .array :: _ => .located (.unexpectedInList l.token) l.pos
  | false, .index pos :: _ => .located .unclosedBracket pos
  | _, _ => l.leftover

/-- Whether an operand has ended in square brackets. -/
def behindItem (p : Progress) : Bool :=
  match p.awaits, p.opened with
  | false, .array :: _ | false, .index _ :: _ => true
  | _, _ => false

theorem after_append (p : Progress) (ls rs : List Lexeme) :
    p.after (ls ++ rs) = (p.after ls).after rs :=
  List.foldl_append

theorem after_cons (p : Progress) (l : Lexeme) (ls : List Lexeme) :
    p.after (l :: ls) = (p.next l).after ls :=
  rfl

/-- A bracket that stands for an operand opens an array, and one behind an operand an index. -/
theorem next_openBracket (opened : List Opening) (awaits : Bool) (pos : Nat) :
    next ⟨opened, awaits⟩ ⟨.symbol .openBracket, pos⟩ =
      ⟨(if awaits then .array else .index pos) :: opened, true⟩ :=
  rfl

theorem next_openParen (p : Progress) (pos : Nat) :
    p.next ⟨.symbol .openParen, pos⟩ = ⟨.paren :: p.opened, true⟩ :=
  rfl

end Progress

theorem Grammar.Between.next {g : Grammar} {level : Level} {s : Symbol} {op : BinaryOp}
    (h : g.Between level s op) (p : Progress) (pos : Nat) :
    p.next ⟨.symbol s, pos⟩ = ⟨p.opened, true⟩ := by
  cases h <;> rfl

theorem Grammar.Before.next {g : Grammar} {level : Level} {s : Symbol} {op : UnaryOp}
    (h : g.Before level s op) (p : Progress) (pos : Nat) :
    p.next ⟨.symbol s, pos⟩ = ⟨p.opened, true⟩ := by
  cases h <;> rfl

/-- What is open behind lexemes of the category. -/
def Category.progress (opened : List Opening) : Category → Progress
  | .opened => ⟨.array :: opened, false⟩
  | _ => ⟨opened, false⟩

variable {g : Grammar}

/-- An expression closes the brackets that it opens. -/
theorem Derives.progress {category : Category} {used : List Lexeme} {e : Expr}
    (h : Derives g category used e) (opened : List Opening) :
    (⟨opened, true⟩ : Progress).after used = category.progress opened := by
  induction h generalizing opened with
  | operand _ _ ih | chain _ ih | base _ ih | primary _ ih => exact ih opened
  | unary hop _ ih =>
      rw [Progress.after_cons, hop.next]
      exact ih opened
  | binary _ _ hop _ _ ihleft ihright | compare _ hop _ _ ihleft ihright
  | extend _ hop _ _ ihleft ihright =>
      rw [Progress.after_append, ihleft, Progress.after_cons, hop.next]
      exact ihright opened
  | power _ _ ihleft ihright =>
      rw [Progress.after_append, ihleft]
      exact ihright opened
  | index _ _ ihleft ihright =>
      rw [Progress.after_append, Progress.after_append, ihleft]
      simp only [Category.progress, Progress.after_cons, Progress.next_openBracket, ihright]
      rfl
  | literal value pos => cases value <;> rfl
  | name id pos => rfl
  | paren _ ih =>
      simp only [Progress.after_append, Progress.after_cons, Progress.next_openParen, ih]
      rfl
  | empty pos close => rfl
  | array _ ih =>
      rw [Progress.after_append, ih]
      rfl
  | first _ ih => exact ih (.array :: opened)
  | more _ _ ihleft ihright =>
      rw [Progress.after_append, ihleft]
      exact ihright (.array :: opened)

end Formula
