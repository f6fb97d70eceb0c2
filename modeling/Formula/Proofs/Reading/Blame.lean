import Formula.Proofs.Reading.Soundness

/-! # The lexemes that errors blame

An error of the readers stands at the end of the text or at one of the lexemes, and it is an error
that this lexeme can give. -/

namespace Formula

/-! ## Blame -/

/-- The faults that a lexeme can be blamed for. -/
inductive Blames (g : Grammar) : Lexeme → SyntaxFault → Prop where
  | unexpected (l : Lexeme) : Blames g l (.unexpected l.token)
  | unexpectedInList (l : Lexeme) : Blames g l (.unexpectedInList l.token)
  | trailing (l : Lexeme) : Blames g l (.trailing l.token)
  | unclosedParen (pos : Nat) : Blames g ⟨.symbol .openParen, pos⟩ .unclosedParen
  | unclosedBracket (pos : Nat) : Blames g ⟨.symbol .openBracket, pos⟩ .unclosedBracket
  | assign (pos : Nat) : Blames g ⟨.symbol .assign, pos⟩ .assignment
  | update (op : String) (pos : Nat) : Blames g ⟨.update op, pos⟩ .assignment
  | statement (pos : Nat) : Blames g ⟨.symbol .semicolon, pos⟩ .statement
  | unsupported {s : Symbol} {op : BinaryOp} (pos : Nat) (hop : g.binaryOp? s = some op)
      (h : ¬ g.supports op = true) : Blames g ⟨.symbol s, pos⟩ (.unsupported op g)
  | literalTooLarge (pos : Nat) : Blames g ⟨.integer none, pos⟩ .literalTooLarge

/-- The error stands at the end of the text or at a lexeme that is to blame for it. -/
inductive Blamed (g : Grammar) (stop : Nat) (ls : List Lexeme) : SyntaxError → Prop where
  | endOfInput : Blamed g stop ls (.located .endOfInput stop)
  | lexeme {l : Lexeme} {fault : SyntaxFault} (hl : l ∈ ls) (h : Blames g l fault) :
      Blamed g stop ls (.located fault l.pos)

variable {g : Grammar} {stop : Nat} {ls : List Lexeme}

theorem Blamed.mono {ls' : List Lexeme} {e : SyntaxError} (h : Blamed g stop ls e)
    (hsub : ls <:+ ls') : Blamed g stop ls' e := by
  cases h with
  | endOfInput => exact .endOfInput
  | lexeme hl h => exact .lexeme (hsub.subset hl) h

theorem FailsWith.suffix {α : Type} {rest : List Lexeme} {x : Except SyntaxError α}
    (h : FailsWith (Blamed g stop rest) x) (hrest : rest <:+ ls) :
    FailsWith (Blamed g stop ls) x :=
  h.mono fun _ he => he.mono hrest

theorem blamed_leftover {l : Lexeme} (hl : l ∈ ls) : Blamed g stop ls l.leftover := by
  obtain ⟨token, pos⟩ := l
  cases token with
  | update op => exact .lexeme hl (.update op pos)
  | symbol s =>
      cases s with
      | assign => exact .lexeme hl (.assign pos)
      | semicolon => exact .lexeme hl (.statement pos)
      | _ => exact .lexeme hl (.trailing _)
  | _ => exact .lexeme hl (.trailing _)

theorem blamed_unexpected {l : Lexeme} (hl : l ∈ ls) : Blamed g stop ls l.unexpected := by
  unfold Lexeme.unexpected
  split
  · exact blamed_leftover hl
  · exact .lexeme hl (.unexpected l)

theorem blamed_unclosedParen {pos : Nat} {rest : List Lexeme}
    (hl : ⟨.symbol .openParen, pos⟩ ∈ ls) (hrest : rest <:+ ls) :
    Blamed g stop ls (Lexeme.unclosedParen pos rest) := by
  unfold Lexeme.unclosedParen
  split
  · exact .lexeme hl (.unclosedParen pos)
  · split
    · exact blamed_leftover (hrest.subset List.mem_cons_self)
    · exact .lexeme hl (.unclosedParen pos)

theorem blamed_brokenList {rest : List Lexeme} (hrest : rest <:+ ls) :
    Blamed g stop ls (Lexeme.brokenList stop rest) := by
  unfold Lexeme.brokenList
  split
  · exact .endOfInput
  · exact .lexeme (hrest.subset List.mem_cons_self) (.unexpectedInList _)

theorem blamed_unsupported {l : Lexeme} {level : Level} {op : BinaryOp} (hl : l ∈ ls)
    (hop : g.infixOp? level l.token = some op) (h : ¬ g.supports op = true) :
    Blamed g stop ls (.located (.unsupported op g) l.pos) := by
  obtain ⟨token, pos⟩ := l
  obtain ⟨htoken, -⟩ := Option.filter_eq_some_iff.mp hop
  cases token with
  | symbol s => exact .lexeme hl (.unsupported pos htoken h)
  | _ => cases htoken

theorem failsWith_leaf {l : Lexeme} {leaf : Except SyntaxError Expr} (hl : l ∈ ls)
    (h : l.leaf? = some leaf) : FailsWith (Blamed g stop ls) leaf := by
  obtain ⟨token, pos⟩ := l
  cases token with
  | integer n =>
      cases n with
      | none =>
          cases h
          exact .error (.lexeme hl (.literalTooLarge pos))
      | some n =>
          cases h
          exact .ok _
  | update op | symbol s => cases h
  | _ =>
      cases h
      exact .ok _

namespace Expr

/-! ## Readers -/

section Motives

variable (g : Grammar) (stop : Nat)

/-- The reader of a level fails with errors that lexemes it is given are to blame for. -/
def ReadBlames (level : Level) (ls : List Lexeme) : Prop :=
  g.Has level → FailsWith (Blamed g stop ls) (read g stop level ls)

def StepsBlame (level : Level) (ls : List Lexeme) : Prop :=
  g.Has level → FailsWith (Blamed g stop ls) (readSteps g stop level ls)

def PrimaryBlames (ls : List Lexeme) : Prop :=
  FailsWith (Blamed g stop ls) (readPrimary g stop ls)

def IndicesBlame (ls : List Lexeme) : Prop :=
  FailsWith (Blamed g stop ls) (readIndices g stop ls)

def ElementsBlame (ls : List Lexeme) : Prop :=
  FailsWith (Blamed g stop ls) (readElements g stop ls)

end Motives

theorem suffix_of_expect? {s : Symbol} {rest : List Lexeme} {pos : Nat}
    (h : Lexeme.expect? s ls = some (pos, rest)) : rest <:+ ls := by
  rw [of_expect? h]
  exact List.suffix_cons _ rest

theorem suffix_of_read {level : Level} {rest : List Lexeme} {e : Expr} (hlevel : g.Has level)
    (h : read g stop level ls = .ok (e, rest)) : rest <:+ ls := by
  obtain ⟨used, rfl, -⟩ := derives_of_read hlevel h
  exact List.suffix_append used rest

theorem suffix_of_readPrimary {rest : List Lexeme} {e : Expr}
    (h : readPrimary g stop ls = .ok (e, rest)) : rest <:+ ls := by
  obtain ⟨-, -, -, hprimary, -⟩ := readers_sound g stop
  obtain ⟨used, rfl, -⟩ := hprimary ls e rest h
  exact List.suffix_append used rest

theorem suffix_of_readIndices {rest : List Lexeme} {indices : List (Nat × Expr)}
    (h : readIndices g stop ls = .ok (indices, rest)) : rest <:+ ls := by
  obtain ⟨-, -, hindices, -, -⟩ := readers_sound g stop
  obtain ⟨used, rfl, -⟩ := hindices ls indices rest h
  exact List.suffix_append used rest

theorem readBlames_of_below {level : Level}
    (hread : read g stop level ls = read g stop (g.below level) ls)
    (ih : ReadBlames g stop (g.below level) ls) : ReadBlames g stop level ls := by
  intro hlevel
  rw [hread]
  exact ih (Grammar.has_below hlevel)

theorem readBlames_power (hprimary : PrimaryBlames g stop ls)
    (hindices : ∀ afterBase : List Lexeme, afterBase.length < ls.length →
      IndicesBlame g stop afterBase)
    (hexponent : ∀ afterBase : List Lexeme, afterBase.length < ls.length →
      ∀ afterIndices : List Lexeme, afterIndices.length ≤ afterBase.length → ∀ pos rest,
      Lexeme.expect? .power afterIndices = some (pos, rest) → ReadBlames g stop .signed rest) :
    ReadBlames g stop .power ls := by
  intro _
  rw [read_power]
  refine hprimary.bind fun ⟨base, afterBase⟩ hbase => ?_
  have hshorter := length_of_readPrimary g stop hbase
  have hsuffix := suffix_of_readPrimary hbase
  refine ((hindices afterBase hshorter).suffix hsuffix).bind
    fun ⟨indices, afterIndices⟩ hpeel => ?_
  replace hsuffix := (suffix_of_readIndices hpeel).trans hsuffix
  cases hpower : Lexeme.expect? .power afterIndices with
  | none =>
      simp only [hpower]
      exact .ok _
  | some power =>
      obtain ⟨pos, rest⟩ := power
      simp only [hpower]
      have hsigned := hexponent afterBase hshorter afterIndices
        (length_of_readIndices g stop hpeel) pos rest hpower trivial
      refine (hsigned.suffix ((suffix_of_expect? hpower).trans hsuffix)).bind fun _ _ => ?_
      exact .ok _

theorem readBlames_unary {level : Level} {l : Lexeme} {op : UnaryOp} (hne : level ≠ .power)
    (hunary : level.isPrefix = true) (hop : g.prefixOp? level l.token = some op)
    (ih : ReadBlames g stop level ls) : ReadBlames g stop level (l :: ls) := by
  intro hlevel
  rw [read_prefix_some g stop hne hunary hop]
  exact ((ih hlevel).suffix (List.suffix_cons l ls)).bind fun _ _ => .ok _

theorem readBlames_binary {level : Level} (hne : level ≠ .power)
    (hunary : ¬ level.isPrefix = true) (hfirst : ReadBlames g stop (g.below level) ls)
    (hsteps : ∀ afterFirst, afterFirst.length < ls.length → StepsBlame g stop level afterFirst) :
    ReadBlames g stop level ls := by
  intro hlevel
  have hbelow := Grammar.has_below hlevel
  rw [read_binary g stop hne hunary]
  refine (hfirst hbelow).bind fun ⟨first, afterFirst⟩ hread => ?_
  have hshorter := length_of_read g stop hread
  refine ((hsteps afterFirst hshorter hlevel).suffix (suffix_of_read hbelow hread)).bind
    fun _ _ => ?_
  exact .ok _

theorem stepsBlame_cons {level : Level} {l : Lexeme} {op : BinaryOp}
    (hop : g.infixOp? level l.token = some op) (hsupports : g.supports op = true)
    (hoperand : ReadBlames g stop (g.below level) ls)
    (hsteps : ∀ after, after.length < ls.length → StepsBlame g stop level after) :
    StepsBlame g stop level (l :: ls) := by
  intro hlevel
  have hbelow := Grammar.has_below hlevel
  have hcons := List.suffix_cons l ls
  rw [readSteps_some g stop hop, if_pos hsupports]
  refine ((hoperand hbelow).suffix hcons).bind fun ⟨operand, afterOperand⟩ hread => ?_
  have hshorter := length_of_read g stop hread
  refine ((hsteps afterOperand hshorter hlevel).suffix
    ((suffix_of_read hbelow hread).trans hcons)).bind fun _ _ => ?_
  exact .ok _

theorem indicesBlame_cons {afterOpen : List Lexeme} {pos : Nat}
    (hopen : Lexeme.expect? .openBracket ls = some (pos, afterOpen))
    (hsubscript : ReadBlames g stop .disjunction afterOpen)
    (hindices : ∀ afterIndex, afterIndex.length < afterOpen.length → ∀ close afterBracket,
      Lexeme.expect? .closeBracket afterIndex = some (close, afterBracket) →
      IndicesBlame g stop afterBracket) :
    IndicesBlame g stop ls := by
  unfold IndicesBlame
  have hdisjunction : g.Has .disjunction := trivial
  have hsuffix := suffix_of_expect? hopen
  rw [readIndices_some g stop hopen]
  refine ((hsubscript hdisjunction).suffix hsuffix).bind fun ⟨subscript, afterIndex⟩ hread => ?_
  have hshorter := length_of_read g stop hread
  replace hsuffix := (suffix_of_read hdisjunction hread).trans hsuffix
  cases hclose : Lexeme.expect? .closeBracket afterIndex with
  | none =>
      simp only [hclose]
      have hmem : ⟨.symbol .openBracket, pos⟩ ∈ ls := by
        rw [of_expect? hopen]
        exact List.mem_cons_self
      exact .error (.lexeme hmem (.unclosedBracket pos))
  | some bracket =>
      obtain ⟨close, afterBracket⟩ := bracket
      simp only [hclose]
      refine ((hindices afterIndex hshorter close afterBracket hclose).suffix
        ((suffix_of_expect? hclose).trans hsuffix)).bind fun _ _ => ?_
      exact .ok _

theorem primaryBlames_paren {l : Lexeme} (hopen : l.token = .symbol .openParen)
    (hinner : ReadBlames g stop .disjunction ls) : PrimaryBlames g stop (l :: ls) := by
  unfold PrimaryBlames
  have hdisjunction : g.Has .disjunction := trivial
  have hcons := List.suffix_cons l ls
  rw [readPrimary_paren g stop hopen]
  refine ((hinner hdisjunction).suffix hcons).bind fun ⟨inner, afterInner⟩ hread => ?_
  cases hclose : Lexeme.expect? .closeParen afterInner with
  | none =>
      simp only [hclose]
      obtain ⟨token, pos⟩ := l
      cases hopen
      exact .error (blamed_unclosedParen List.mem_cons_self
        ((suffix_of_read hdisjunction hread).trans hcons))
  | some paren =>
      simp only [hclose]
      exact .ok _

theorem primaryBlames_array {l : Lexeme} (hopen : l.token = .symbol .openBracket)
    (helements : Lexeme.expect? .closeBracket ls = none → ElementsBlame g stop ls) :
    PrimaryBlames g stop (l :: ls) := by
  unfold PrimaryBlames
  rw [readPrimary_bracket g stop hopen]
  cases hclose : Lexeme.expect? .closeBracket ls with
  | none => exact ((helements hclose).suffix (List.suffix_cons l ls)).bind fun _ _ => .ok _
  | some bracket => exact .ok _

theorem elementsBlame (hfirst : ReadBlames g stop .disjunction ls)
    (hmore : ∀ afterFirst, afterFirst.length < ls.length → ∀ comma more,
      Lexeme.expect? .comma afterFirst = some (comma, more) → ElementsBlame g stop more) :
    ElementsBlame g stop ls := by
  unfold ElementsBlame
  have hdisjunction : g.Has .disjunction := trivial
  rw [readElements_eq]
  refine (hfirst hdisjunction).bind fun ⟨first, afterFirst⟩ hread => ?_
  have hshorter := length_of_read g stop hread
  have hsuffix := suffix_of_read hdisjunction hread
  have hrest : FailsWith (Blamed g stop ls) (readMore g stop afterFirst) := by
    unfold readMore
    cases hcomma : Lexeme.expect? .comma afterFirst with
    | some comma =>
        obtain ⟨comma, more⟩ := comma
        exact (hmore afterFirst hshorter comma more hcomma).suffix
          ((suffix_of_expect? hcomma).trans hsuffix)
    | none =>
        cases hclose : Lexeme.expect? .closeBracket afterFirst with
        | some bracket => exact .ok _
        | none => exact .error (blamed_brokenList hsuffix)
  exact hrest.bind fun _ _ => .ok _

/-- Every reader blames a lexeme that it is given, or the end of the text. The induction is on the
calls that the readers make. -/
theorem readers_blame (g : Grammar) (stop : Nat) :
    (∀ level ls, ReadBlames g stop level ls) ∧ (∀ level ls, StepsBlame g stop level ls) ∧
      (∀ ls, IndicesBlame g stop ls) ∧ (∀ ls, PrimaryBlames g stop ls) ∧
      ∀ ls, ElementsBlame g stop ls := by
  apply take.mutual_induct g (ReadBlames g stop) (StepsBlame g stop) (IndicesBlame g stop)
    (PrimaryBlames g stop) (ElementsBlame g stop)
  case case1 =>
    intro ls hprimary hindices hexponent
    exact readBlames_power hprimary hindices hexponent
  case case2 =>
    intro level hne hunary ih
    exact readBlames_of_below (read_prefix_nil g stop hne hunary) ih
  case case3 =>
    intro level hne hunary l ls hop ih
    exact readBlames_of_below (read_prefix_none g stop hne hunary hop) ih
  case case4 =>
    intro level hne hunary l ls op hop ih
    exact readBlames_unary hne hunary hop ih
  case case5 =>
    intro level ls hne hunary hfirst hsteps
    exact readBlames_binary hne hunary hfirst hsteps
  case case6 =>
    intro level _
    rw [readSteps_nil]
    exact .ok _
  case case7 =>
    intro level l ls hop _
    rw [readSteps_none g stop hop]
    exact .ok _
  case case8 =>
    intro level l ls op hop hsupports hoperand hsteps
    exact stepsBlame_cons hop hsupports hoperand hsteps
  case case9 =>
    intro level l ls op hop hsupports _
    rw [readSteps_some g stop hop, if_neg hsupports]
    exact .error (blamed_unsupported List.mem_cons_self hop hsupports)
  case case10 =>
    intro ls hopen
    unfold IndicesBlame
    rw [readIndices_none g stop hopen]
    exact .ok _
  case case11 =>
    intro ls pos afterOpen hopen _ hsubscript hindices
    exact indicesBlame_cons hopen hsubscript hindices
  case case12 =>
    unfold PrimaryBlames
    rw [readPrimary_nil]
    exact .error .endOfInput
  case case13 =>
    intro l ls leaf hleaf
    unfold PrimaryBlames
    rw [readPrimary_leaf g stop hleaf]
    exact (failsWith_leaf List.mem_cons_self hleaf).bind fun _ _ => .ok _
  case case14 =>
    intro l ls _ hopen hinner
    exact primaryBlames_paren hopen hinner
  case case15 =>
    intro l ls _ _ hopen close after hclose _
    refine primaryBlames_array hopen fun hnone => ?_
    rw [hclose] at hnone
    cases hnone
  case case16 =>
    intro l ls _ _ hopen hclose helements
    exact primaryBlames_array hopen fun _ => helements
  case case17 =>
    intro l ls hleaf hparen hbracket
    unfold PrimaryBlames
    rw [readPrimary_unexpected g stop hleaf hparen hbracket]
    exact .error (blamed_unexpected List.mem_cons_self)
  case case18 =>
    intro ls hfirst hmore
    exact elementsBlame hfirst hmore

end Expr

end Formula
