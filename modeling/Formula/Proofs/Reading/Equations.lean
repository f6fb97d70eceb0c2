import Formula.Expr.Reading
import Formula.Proofs.Outcome

/-! # Equations of the readers

The readers without the proofs that they end: what each reads, and what it leaves over. -/

namespace Formula.Expr

variable (g : Grammar) (stop : Nat)

def read (level : Level) (ls : List Lexeme) : Except SyntaxError (Expr × List Lexeme) := do
  let taken ← take g stop level ls
  return (taken.value, taken.rest)

def readSteps (level : Level) (ls : List Lexeme) :
    Except SyntaxError (List Step × List Lexeme) := do
  let peeled ← peelSteps g stop level ls
  return (peeled.value, peeled.rest)

def readPrimary (ls : List Lexeme) : Except SyntaxError (Expr × List Lexeme) := do
  let taken ← takePrimary g stop ls
  return (taken.value, taken.rest)

def readElements (ls : List Lexeme) : Except SyntaxError (List Expr × List Lexeme) := do
  let taken ← takeElements g stop ls
  return (taken.value, taken.rest)

def readIndices (ls : List Lexeme) :
    Except SyntaxError (List (Nat × Expr) × List Lexeme) := do
  let peeled ← peelIndices g stop ls
  return (peeled.value, peeled.rest)

theorem ofLexemes_eq_read (ls : List Lexeme) :
    ofLexemes g stop ls = read g stop .disjunction ls := rfl

/-! ## Levels -/

theorem length_of_read {level : Level} {ls rest : List Lexeme} {e : Expr}
    (h : read g stop level ls = .ok (e, rest)) : rest.length < ls.length := by
  obtain ⟨taken, -, heq⟩ := bind_eq_ok.mp h
  cases heq
  exact taken.shorter

theorem read_power (ls : List Lexeme) :
    read g stop .power ls = (do
      let (base, afterBase) ← readPrimary g stop ls
      let (indices, afterIndices) ← readIndices g stop afterBase
      match Lexeme.expect? .power afterIndices with
      | none => return (applyIndices base indices, afterIndices)
      | some (pos, rest) => do
        let (exponent, after) ← read g stop .signed rest
        return (binary .pow (applyIndices base indices) exponent pos, after)) := by
  rw [read, take.eq_def, dif_pos rfl, readPrimary]
  cases takePrimary g stop ls with
  | error e => rfl
  | ok base =>
      simp only [ok_bind, pure_eq_ok, readIndices]
      cases peelIndices g stop base.rest with
      | error e => rfl
      | ok indices =>
          simp only [ok_bind]
          split
          · rename_i h
            simp only [h]
            rfl
          · rename_i pos rest h
            simp only [h]
            rw [read]
            cases take g stop .signed rest <;> rfl

theorem read_prefix_nil {level : Level} (hlevel : level ≠ .power)
    (hunary : level.isPrefix = true) :
    read g stop level [] = read g stop (g.below level) [] := by
  rw [read, take.eq_def, dif_neg hlevel, if_pos hunary, read]

theorem read_prefix_none {level : Level} {l : Lexeme} {ls : List Lexeme}
    (hlevel : level ≠ .power) (hunary : level.isPrefix = true)
    (h : g.prefixOp? level l.token = none) :
    read g stop level (l :: ls) = read g stop (g.below level) (l :: ls) := by
  rw [read, take.eq_def, dif_neg hlevel, if_pos hunary]
  simp only [h]
  rfl

theorem read_prefix_some {level : Level} {l : Lexeme} {ls : List Lexeme} {op : UnaryOp}
    (hlevel : level ≠ .power) (hunary : level.isPrefix = true)
    (h : g.prefixOp? level l.token = some op) :
    read g stop level (l :: ls) = (do
      let (operand, after) ← read g stop level ls
      return (unary op operand l.pos, after)) := by
  rw [read, take.eq_def, dif_neg hlevel, if_pos hunary]
  simp only [h]
  rw [read]
  cases take g stop level ls <;> rfl

theorem join_nil (level : Level) (first : Expr) : join level first [] = first := by
  unfold join
  split <;> rfl

theorem read_binary {level : Level} {ls : List Lexeme} (hlevel : level ≠ .power)
    (hunary : ¬ level.isPrefix = true) :
    read g stop level ls = (do
      let (first, afterFirst) ← read g stop (g.below level) ls
      let (steps, after) ← readSteps g stop level afterFirst
      return (join level first steps, after)) := by
  rw [read, take.eq_def, dif_neg hlevel, if_neg hunary, read]
  cases take g stop (g.below level) ls with
  | error e => rfl
  | ok first =>
      simp only [ok_bind, pure_eq_ok, readSteps]
      cases peelSteps g stop level first.rest <;> rfl

/-! ## Steps -/

theorem readSteps_nil (level : Level) : readSteps g stop level [] = .ok ([], []) := by
  rw [readSteps, peelSteps]
  rfl

theorem readSteps_none {level : Level} {l : Lexeme} {ls : List Lexeme}
    (h : g.infixOp? level l.token = none) :
    readSteps g stop level (l :: ls) = .ok ([], l :: ls) := by
  rw [readSteps, peelSteps]
  simp only [h]
  rfl

theorem readSteps_some {level : Level} {l : Lexeme} {ls : List Lexeme} {op : BinaryOp}
    (h : g.infixOp? level l.token = some op) :
    readSteps g stop level (l :: ls) =
      if g.supports op then (do
        let (operand, afterOperand) ← read g stop (g.below level) ls
        let (steps, after) ← readSteps g stop level afterOperand
        return (⟨op, l.pos, operand⟩ :: steps, after))
      else .error (.located (.unsupported op g) l.pos) := by
  rw [readSteps, peelSteps]
  simp only [h]
  split
  · rw [read]
    cases take g stop (g.below level) ls with
    | error e => rfl
    | ok operand =>
        simp only [ok_bind, pure_eq_ok, readSteps]
        cases peelSteps g stop level operand.rest <;> rfl
  · rfl

/-! ## Primary expressions -/

theorem length_of_readPrimary {ls rest : List Lexeme} {e : Expr}
    (h : readPrimary g stop ls = .ok (e, rest)) : rest.length < ls.length := by
  obtain ⟨taken, -, heq⟩ := bind_eq_ok.mp h
  cases heq
  exact taken.shorter

theorem readPrimary_nil :
    readPrimary g stop [] = .error (.located .endOfInput stop) := by
  rw [readPrimary, takePrimary]
  rfl

theorem readPrimary_leaf {l : Lexeme} {ls : List Lexeme} {leaf : Except SyntaxError Expr}
    (h : l.leaf? = some leaf) :
    readPrimary g stop (l :: ls) = (do return (← leaf, ls)) := by
  rw [readPrimary, takePrimary]
  simp only [h]
  cases leaf <;> rfl

theorem readPrimary_paren {l : Lexeme} {ls : List Lexeme}
    (h : l.token = .symbol .openParen) :
    readPrimary g stop (l :: ls) = (do
      let (inner, afterInner) ← read g stop .disjunction ls
      match Lexeme.expect? .closeParen afterInner with
      | none => throw (Lexeme.unclosedParen l.pos afterInner)
      | some (_, after) => return (inner, after)) := by
  have hleaf : l.leaf? = none := by simp [Lexeme.leaf?, h]
  rw [readPrimary, takePrimary]
  simp only [hleaf, if_pos h]
  rw [read]
  cases take g stop .disjunction ls with
  | error e => rfl
  | ok inner =>
      simp only [ok_bind]
      split
      · rename_i h
        simp only [pure_eq_ok, ok_bind, h]
        rfl
      · rename_i h
        simp only [pure_eq_ok, ok_bind, h]

theorem readPrimary_bracket {l : Lexeme} {ls : List Lexeme}
    (h : l.token = .symbol .openBracket) :
    readPrimary g stop (l :: ls) =
      match Lexeme.expect? .closeBracket ls with
      | some (_, after) => .ok (array [] l.pos, after)
      | none => do
        let (elements, after) ← readElements g stop ls
        return (array elements l.pos, after) := by
  have hleaf : l.leaf? = none := by simp [Lexeme.leaf?, h]
  have hparen : ¬ l.token = .symbol .openParen := by simp [h]
  rw [readPrimary, takePrimary]
  simp only [hleaf, if_neg hparen, if_pos h]
  split
  · rename_i h
    simp only [h]
    rfl
  · rename_i h
    simp only [h]
    rw [readElements]
    cases takeElements g stop ls <;> rfl

theorem readPrimary_unexpected {l : Lexeme} {ls : List Lexeme} (hleaf : l.leaf? = none)
    (hparen : ¬ l.token = .symbol .openParen) (hbracket : ¬ l.token = .symbol .openBracket) :
    readPrimary g stop (l :: ls) = .error l.unexpected := by
  rw [readPrimary, takePrimary]
  simp only [hleaf, if_neg hparen, if_neg hbracket]
  rfl

/-! ## Lists -/

theorem length_of_readIndices {ls rest : List Lexeme} {indices : List (Nat × Expr)}
    (h : readIndices g stop ls = .ok (indices, rest)) : rest.length ≤ ls.length := by
  obtain ⟨peeled, -, heq⟩ := bind_eq_ok.mp h
  cases heq
  exact peeled.notLonger

/-- What follows an element of an array. -/
def readMore (ls : List Lexeme) : Except SyntaxError (List Expr × List Lexeme) :=
  match Lexeme.expect? .comma ls with
  | some (_, more) => readElements g stop more
  | none =>
    match Lexeme.expect? .closeBracket ls with
    | some (_, after) => .ok ([], after)
    | none => .error (Lexeme.brokenList stop ls)

theorem readElements_eq (ls : List Lexeme) :
    readElements g stop ls = (do
      let (first, afterFirst) ← read g stop .disjunction ls
      let (more, after) ← readMore g stop afterFirst
      return (first :: more, after)) := by
  rw [readElements, takeElements, read]
  cases take g stop .disjunction ls with
  | error e => rfl
  | ok first =>
      simp only [ok_bind, pure_eq_ok, readMore]
      split
      · rename_i more h
        simp only [h]
        rw [readElements]
        cases takeElements g stop more <;> rfl
      · rename_i h
        simp only [h]
        split
        · rename_i h
          simp only [h]
          rfl
        · rename_i h
          simp only [h]
          rfl

theorem readIndices_none {ls : List Lexeme} (h : Lexeme.expect? .openBracket ls = none) :
    readIndices g stop ls = .ok ([], ls) := by
  rw [readIndices, peelIndices]
  split
  · rfl
  · rename_i hsome
    rw [h] at hsome
    cases hsome

theorem readIndices_some {ls rest : List Lexeme} {pos : Nat}
    (h : Lexeme.expect? .openBracket ls = some (pos, rest)) :
    readIndices g stop ls = (do
      let (subscript, afterIndex) ← read g stop .disjunction rest
      match Lexeme.expect? .closeBracket afterIndex with
      | none => throw (.located .unclosedBracket pos)
      | some (_, afterBracket) => do
        let (indices, after) ← readIndices g stop afterBracket
        return ((pos, subscript) :: indices, after)) := by
  rw [readIndices, peelIndices]
  split
  · rename_i hnone
    rw [h] at hnone
    cases hnone
  · rename_i hsome
    rw [h] at hsome
    cases hsome
    rw [read]
    cases take g stop .disjunction rest with
    | error e => rfl
    | ok subscript =>
        simp only [ok_bind, pure_eq_ok]
        split
        · rename_i h
          simp only [h]
          rfl
        · rename_i bracket h
          simp only [h]
          rw [readIndices]
          cases peelIndices g stop bracket <;> rfl

/-! ## Whole texts -/

/-- The expression that all of the lexemes are. -/
def readAll (ls : List Lexeme) : Except SyntaxError Expr := do
  match ← read g stop .disjunction ls with
  | (e, []) => return e
  | (_, l :: _) => throw l.leftover

theorem ofText_eq_readAll {source : String} (h : ¬ source.toList.all Text.isBlank = true) :
    ofText g source = (do readAll g source.utf8ByteSize (← Lexeme.ofText source)) := by
  rw [ofText, if_neg h]
  rfl

end Formula.Expr
