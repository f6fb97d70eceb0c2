import Formula.Proofs.Reading.Equations
import Formula.Proofs.Reading.Tables

/-! # Completeness of the readers

A reader returns whatever the lexemes derive, and stops where the derivation ends, as long as what
follows does not go on with the expression. Derivations grow to the left while readers go on to the
right, so the statement for a level of binary operators is also about the operands that follow. -/

namespace Formula

variable {g : Grammar}

/-! ## The first lexeme -/

def Category.rank : Category → Nat
  | level l => l.rank
  | chain _ => Level.comparison.rank
  | indexed | primary | opened => 0

/-- The lexemes begin with one that closes no bracket and is no operator before an operand of a
looser level. -/
def Begins (g : Grammar) (rank : Nat) (ls : List Lexeme) : Prop :=
  ∃ l rest, ls = l :: rest ∧ l.token ≠ .symbol .closeBracket ∧
    ∀ looser : Level, rank < looser.rank → g.prefixOp? looser l.token = none

theorem Begins.append {rank : Nat} {ls : List Lexeme} (h : Begins g rank ls)
    (rest : List Lexeme) : Begins g rank (ls ++ rest) := by
  obtain ⟨l, tail, rfl, hclose, hop⟩ := h
  exact ⟨l, tail ++ rest, rfl, hclose, hop⟩

theorem Begins.mono {rank rank' : Nat} {ls : List Lexeme} (h : Begins g rank ls)
    (hle : rank ≤ rank') : Begins g rank' ls := by
  obtain ⟨l, rest, rfl, hclose, hop⟩ := h
  refine ⟨l, rest, rfl, hclose, ?_⟩
  intro looser hlt
  exact hop looser (Nat.lt_of_le_of_lt hle hlt)

theorem Begins.expect?_eq_none {rank : Nat} {ls : List Lexeme} (h : Begins g rank ls) :
    Lexeme.expect? .closeBracket ls = none := by
  obtain ⟨l, rest, rfl, hclose, -⟩ := h
  simp only [Lexeme.expect?, if_neg hclose]

theorem begins_leaf {token : Token} {pos : Nat} (h : ∀ s, token ≠ .symbol s) :
    Begins g 0 [⟨token, pos⟩] := by
  refine ⟨⟨token, pos⟩, [], rfl, h _, ?_⟩
  intro looser _
  exact Grammar.prefixOp?_of_not_symbol h

theorem begins_open {s : Symbol} {pos : Nat} {ls : List Lexeme}
    (h : s = .openParen ∨ s = .openBracket) : Begins g 0 (⟨.symbol s, pos⟩ :: ls) := by
  refine ⟨⟨.symbol s, pos⟩, ls, rfl, ?_, ?_⟩
  · rcases h with rfl | rfl <;> exact fun h => nomatch h
  · intro looser _
    rcases h with rfl | rfl <;> cases looser <;> rfl

theorem Derives.begins {category : Category} {ls : List Lexeme} {e : Expr}
    (h : Derives g category ls e) : Begins g category.rank ls := by
  induction h with
  | operand hover _ ih => exact ih.mono (Nat.le_of_lt hover.rank_lt)
  | @unary here s op pos ls e hop _ _ =>
      refine ⟨⟨.symbol s, pos⟩, ls, rfl, ?_, ?_⟩
      · cases hop <;> exact fun h => nomatch h
      · intro looser hlt
        exact hop.prefixOp?_of_rank_lt hlt
  | binary _ _ _ _ _ ihleft _ => exact ihleft.append _
  | compare hover _ _ _ ihleft _ =>
      exact (ihleft.append _).mono (Nat.le_of_lt hover.rank_lt)
  | extend _ _ _ _ ihleft _ => exact ihleft.append _
  | chain _ ih => exact ih
  | base _ ih => exact ih.mono (Nat.zero_le _)
  | power _ _ ihleft _ => exact (ihleft.append _).mono (Nat.zero_le _)
  | primary _ ih => exact ih
  | index _ _ ihleft _ => exact (ihleft.append _).append _
  | literal value pos =>
      apply begins_leaf
      cases value <;> exact fun _ h => nomatch h
  | name id pos => exact begins_leaf (fun _ h => nomatch h)
  | paren _ _ => exact begins_open (.inl rfl)
  | empty pos close => exact begins_open (.inr rfl)
  | array _ ih => exact ih.append _
  | first _ _ => exact begins_open (.inr rfl)
  | more _ _ ihleft _ => exact ihleft.append _

/-! ## Joining one more operand -/

namespace Expr

theorem joinLeft_append (first : Expr) (steps : List Step) (step : Step) :
    joinLeft first (steps ++ [step]) =
      binary step.op (joinLeft first steps) step.operand step.pos := by
  rw [joinLeft, List.foldl_append]
  rfl

theorem adjacent_append (first : Expr) (steps : List Step) (last step : Step) :
    adjacent first (steps ++ [last] ++ [step]) =
      adjacent first (steps ++ [last]) ++ [binary step.op last.operand step.operand step.pos] := by
  induction steps generalizing first with
  | nil => rfl
  | cons head steps ih =>
      simp only [List.cons_append, adjacent]
      rw [ih]

theorem joinComparisons_append (first : Expr) (steps : List Step) (last step : Step) :
    joinComparisons first (steps ++ [last] ++ [step]) =
      binary .bitAnd (joinComparisons first (steps ++ [last]))
        (binary step.op last.operand step.operand step.pos) step.pos := by
  have hadjacent := adjacent_append first steps last step
  rw [joinComparisons, hadjacent, joinComparisons]
  cases steps <;> simp only [List.cons_append, List.nil_append, adjacent, List.foldl_append] <;> rfl

end Expr

open Formula.Expr

/-! ## What the readers return -/

section Readers

variable (g)

def Reads (level : Level) (used : List Lexeme) (e : Expr) : Prop :=
  ∀ stop rest, g.Stops level rest → read g stop level (used ++ rest) = .ok (e, rest)

/-- The reader of a level goes on with the steps that follow the ones in `used`. -/
def ReadsSteps (level : Level) (used : List Lexeme) (first : Expr) (steps : List Step) : Prop :=
  ∀ stop rest, g.Stops (g.below level) rest →
    read g stop level (used ++ rest) = (do
      let (more, after) ← readSteps g stop level rest
      return (join level first (steps ++ more), after))

def ReadsIndices (used : List Lexeme) (base : Expr) (indices : List (Nat × Expr)) : Prop :=
  ∀ stop rest, ∃ between, readPrimary g stop (used ++ rest) = .ok (base, between) ∧
    readIndices g stop between = (do
      let (more, after) ← readIndices g stop rest
      return (indices ++ more, after))

def ReadsElements (body : List Lexeme) (es : List Expr) : Prop :=
  ∀ stop rest, g.Stops .disjunction rest →
    readElements g stop (body ++ rest) = (do
      let (more, after) ← readMore g stop rest
      return (es ++ more, after))

end Readers

/-- Items before the ones that are read can be put in front one by one or together. -/
theorem bind_prepend {α β γ : Type} (f : List α → γ) (as : List α) (a : α)
    (x : Except SyntaxError (List α × β)) :
    (do
      let (more, after) ← (do
        let (more, after) ← x
        return (a :: more, after))
      return (f (as ++ more), after)) = (do
      let (more, after) ← x
      return (f (as ++ [a] ++ more), after)) := by
  cases x with
  | error e => rfl
  | ok more => simp only [ok_bind, pure_eq_ok, List.append_assoc, List.singleton_append]

theorem readSteps_of_stops {stop : Nat} {level : Level} {ls : List Lexeme}
    (hlevel : g.Has level) (h : g.Stops level ls) :
    readSteps g stop level ls = .ok ([], ls) := by
  cases ls with
  | nil => exact readSteps_nil g stop level
  | cons l ls =>
      obtain ⟨-, -, hop⟩ := h l rfl
      exact readSteps_none g stop (hop level hlevel (Nat.le_refl _))

theorem readIndices_of_stops {stop : Nat} {level : Level} {ls : List Lexeme}
    (h : g.Stops level ls) : readIndices g stop ls = .ok ([], ls) := by
  apply readIndices_none
  cases ls with
  | nil => rfl
  | cons l ls => exact if_neg (h l rfl).2.1

theorem expect?_power_of_stops {level : Level} {ls : List Lexeme} (h : g.Stops level ls) :
    Lexeme.expect? .power ls = none := by
  cases ls with
  | nil => rfl
  | cons l ls => exact if_neg (h l rfl).1

theorem ReadsSteps.reads {level : Level} {used : List Lexeme} {first : Expr} {steps : List Step}
    (h : ReadsSteps g level used first steps) (hlevel : g.Has level) (hne : level ≠ .power) :
    Reads g level used (join level first steps) := by
  intro stop rest hstops
  have hover := Grammar.over_below hlevel hne
  rw [h stop rest (hover.stops hstops), readSteps_of_stops hlevel hstops]
  simp only [ok_bind, pure_eq_ok, List.append_nil]

theorem Reads.readsSteps {upper lower : Level} {used : List Lexeme} {e : Expr}
    (h : Reads g lower used e) (hover : g.Over upper lower)
    (hunary : ¬ upper.isPrefix = true) : ReadsSteps g upper used e [] := by
  intro stop rest hstops
  rw [hover.below_eq] at hstops
  rw [read_binary g stop hover.ne_power hunary, hover.below_eq, h stop rest hstops, ok_bind]
  rfl

/-- One more operator and its operand are one more step. -/
theorem ReadsSteps.snoc {upper lower : Level} {s : Symbol} {op : BinaryOp}
    {ls rs : List Lexeme} {first b : Expr} {steps : List Step} (pos : Nat)
    (hover : g.Over upper lower) (hop : g.Between upper s op)
    (hleft : ReadsSteps g upper ls first steps) (hright : Reads g lower rs b) :
    ReadsSteps g upper (ls ++ ⟨.symbol s, pos⟩ :: rs) first (steps ++ [⟨op, pos, b⟩]) := by
  intro stop rest hstops
  have hoperator : g.Stops (g.below upper) (⟨.symbol s, pos⟩ :: (rs ++ rest)) := by
    rw [hover.below_eq]
    exact hop.stops hover
  rw [hover.below_eq] at hstops
  rw [List.append_assoc, List.cons_append, hleft stop _ hoperator,
    readSteps_some g stop hop.infixOp?, if_pos hop.supports, hover.below_eq,
    hright stop rest hstops]
  exact bind_prepend (join upper first) steps ⟨op, pos, b⟩ (readSteps g stop upper rest)

theorem reads_of_below {upper lower : Level} {ls : List Lexeme} {e : Expr}
    (hover : g.Over upper lower) (hunary : upper.isPrefix = true) (h : Reads g lower ls e)
    (hbegins : Begins g lower.rank ls) : Reads g upper ls e := by
  intro stop rest hstops
  obtain ⟨l, tail, rfl, -, hop⟩ := hbegins
  rw [List.cons_append, read_prefix_none g stop hover.ne_power hunary (hop upper hover.rank_lt),
    hover.below_eq, ← List.cons_append]
  exact h stop rest (hover.stops hstops)

theorem reads_unary {here : Level} {s : Symbol} {op : UnaryOp} {pos : Nat} {ls : List Lexeme}
    {e : Expr} (hop : g.Before here s op) (h : Reads g here ls e) :
    Reads g here (⟨.symbol s, pos⟩ :: ls) (.unary op e pos) := by
  intro stop rest hstops
  rw [List.cons_append, read_prefix_some g stop hop.ne_power hop.isPrefix hop.prefixOp?,
    h stop rest hstops, ok_bind]
  rfl

theorem reads_base {ls : List Lexeme} {base : Expr} {indices : List (Nat × Expr)}
    (h : ReadsIndices g ls base indices) : Reads g .power ls (applyIndices base indices) := by
  intro stop rest hstops
  obtain ⟨between, hprimary, hindices⟩ := h stop rest
  rw [readIndices_of_stops hstops, ok_bind] at hindices
  rw [read_power, hprimary, ok_bind]
  simp only [hindices, pure_eq_ok, ok_bind, expect?_power_of_stops hstops, List.append_nil]

theorem reads_power {pos : Nat} {ls rs : List Lexeme} {base b : Expr}
    {indices : List (Nat × Expr)} (hleft : ReadsIndices g ls base indices)
    (hright : Reads g .signed rs b) :
    Reads g .power (ls ++ ⟨.symbol .power, pos⟩ :: rs)
      (binary .pow (applyIndices base indices) b pos) := by
  intro stop rest hstops
  obtain ⟨between, hprimary, hindices⟩ := hleft stop (⟨.symbol .power, pos⟩ :: (rs ++ rest))
  have hnone : readIndices g stop (⟨.symbol .power, pos⟩ :: (rs ++ rest)) =
      .ok ([], ⟨.symbol .power, pos⟩ :: (rs ++ rest)) := readIndices_none g stop rfl
  rw [hnone, ok_bind] at hindices
  rw [List.append_assoc, List.cons_append, read_power, hprimary, ok_bind]
  simp only [hindices, pure_eq_ok, ok_bind, List.append_nil, Lexeme.expect?, if_true,
    hright stop rest hstops.signed]

theorem ReadsIndices.snoc {pos close : Nat} {ls rs : List Lexeme} {base b : Expr}
    {indices : List (Nat × Expr)} (hleft : ReadsIndices g ls base indices)
    (hright : Reads g .disjunction rs b) :
    ReadsIndices g (ls ++ ⟨.symbol .openBracket, pos⟩ :: rs ++ [⟨.symbol .closeBracket, close⟩])
      base (indices ++ [(pos, b)]) := by
  intro stop rest
  obtain ⟨between, hprimary, hindices⟩ := hleft stop
    (⟨.symbol .openBracket, pos⟩ :: (rs ++ ⟨.symbol .closeBracket, close⟩ :: rest))
  have hstops : g.Stops .disjunction (⟨.symbol .closeBracket, close⟩ :: rest) :=
    Grammar.stops_of_binaryOp? rfl (fun h => nomatch h)
  refine ⟨between, ?_, ?_⟩
  · simp only [List.append_assoc, List.cons_append, List.nil_append]
    exact hprimary
  · rw [hindices, readIndices_some g stop rfl, hright stop _ hstops, ok_bind]
    exact bind_prepend id indices (pos, b) (readIndices g stop rest)

theorem readPrimary_of_leaf? {l : Lexeme} {e : Expr} (stop : Nat) (rest : List Lexeme)
    (h : l.leaf? = some (.ok e)) : readPrimary g stop ([l] ++ rest) = .ok (e, rest) := by
  rw [List.singleton_append, readPrimary_leaf g stop h]
  rfl

theorem readPrimary_of_paren {pos close : Nat} {ls : List Lexeme} {e : Expr} (stop : Nat)
    (rest : List Lexeme) (h : Reads g .disjunction ls e) :
    readPrimary g stop (⟨.symbol .openParen, pos⟩ :: ls ++ [⟨.symbol .closeParen, close⟩] ++ rest) =
      .ok (e, rest) := by
  have hstops : g.Stops .disjunction (⟨.symbol .closeParen, close⟩ :: rest) :=
    Grammar.stops_of_binaryOp? rfl (fun h => nomatch h)
  simp only [List.append_assoc, List.cons_append, List.nil_append]
  rw [readPrimary_paren g stop rfl, h stop _ hstops, ok_bind]
  rfl

theorem Reads.readsElements {ls : List Lexeme} {e : Expr} (h : Reads g .disjunction ls e) :
    ReadsElements g ls [e] := by
  intro stop rest hstops
  rw [readElements_eq, h stop rest hstops, ok_bind]
  rfl

theorem ReadsElements.snoc {comma : Nat} {ls rs : List Lexeme} {es : List Expr} {e : Expr}
    (hleft : ReadsElements g ls es) (hright : Reads g .disjunction rs e) :
    ReadsElements g (ls ++ ⟨.symbol .comma, comma⟩ :: rs) (es ++ [e]) := by
  intro stop rest hstops
  have hcomma : g.Stops .disjunction (⟨.symbol .comma, comma⟩ :: (rs ++ rest)) :=
    Grammar.stops_of_binaryOp? rfl (fun h => nomatch h)
  have hmore : readMore g stop (⟨.symbol .comma, comma⟩ :: (rs ++ rest)) =
      readElements g stop (rs ++ rest) := rfl
  rw [List.append_assoc, List.cons_append, hleft stop _ hcomma, hmore,
    hright.readsElements stop rest hstops]
  exact bind_prepend id es e (readMore g stop rest)

theorem readPrimary_of_array {pos close : Nat} {body : List Lexeme} {es : List Expr} (stop : Nat)
    (rest : List Lexeme) (hbegins : Begins g Level.disjunction.rank body)
    (h : ReadsElements g body es) :
    readPrimary g stop
      (⟨.symbol .openBracket, pos⟩ :: body ++ [⟨.symbol .closeBracket, close⟩] ++ rest) =
      .ok (array es pos, rest) := by
  have hstops : g.Stops .disjunction (⟨.symbol .closeBracket, close⟩ :: rest) :=
    Grammar.stops_of_binaryOp? rfl (fun h => nomatch h)
  have hmore : readMore g stop (⟨.symbol .closeBracket, close⟩ :: rest) = .ok ([], rest) := rfl
  simp only [List.append_assoc, List.cons_append, List.nil_append]
  rw [readPrimary_bracket g stop rfl, (hbegins.append _).expect?_eq_none, h stop _ hstops, hmore]
  simp only [ok_bind, pure_eq_ok, List.append_nil]

/-- What the readers make of lexemes that derive an expression. -/
def Complete (g : Grammar) : Category → List Lexeme → Expr → Prop
  | .level level, used, e =>
    Reads g level used e ∧
      (level ≠ .power → ¬ level.isPrefix = true →
        ∃ first steps, e = join level first steps ∧ ReadsSteps g level used first steps)
  | .chain last, used, e =>
    ∃ first steps step, step.operand = last ∧ e = joinComparisons first (steps ++ [step]) ∧
      ReadsSteps g .comparison used first (steps ++ [step])
  | .indexed, used, e =>
    ∃ base indices, e = applyIndices base indices ∧ ReadsIndices g used base indices
  | .primary, used, e => ∀ stop rest, readPrimary g stop (used ++ rest) = .ok (e, rest)
  | .opened, used, e =>
    ∃ pos body es, used = ⟨.symbol .openBracket, pos⟩ :: body ∧ e = array es pos ∧
      Begins g Level.disjunction.rank body ∧ ReadsElements g body es

theorem complete_of_steps {level : Level} {used : List Lexeme} {first : Expr} {steps : List Step}
    (hlevel : g.Has level) (hne : level ≠ .power) (h : ReadsSteps g level used first steps) :
    Complete g (.level level) used (join level first steps) :=
  ⟨h.reads hlevel hne, fun _ _ => ⟨first, steps, rfl, h⟩⟩

/-- The induction is on the derivation: each rule adds one token to what the readers go through. -/
theorem Derives.complete {category : Category} {used : List Lexeme} {e : Expr}
    (h : Derives g category used e) : Complete g category used e := by
  induction h with
  | @operand upper lower ls e hover hderives ih =>
      obtain ⟨hreads, -⟩ := ih
      by_cases hunary : upper.isPrefix = true
      · refine ⟨reads_of_below hover hunary hreads hderives.begins, ?_⟩
        intro _ hbinary
        exact absurd hunary hbinary
      · have hsteps := hreads.readsSteps hover hunary
        have hjoin : join upper e [] = e := by
          cases upper <;> rfl
        have hcomplete := complete_of_steps hover.has hover.ne_power hsteps
        rw [hjoin] at hcomplete
        exact hcomplete
  | unary hop _ ih =>
      refine ⟨reads_unary hop ih.1, ?_⟩
      intro _ hbinary
      exact absurd hop.isPrefix hbinary
  | @binary upper lower s op pos ls rs a b hover hlevel hop _ _ ihleft ihright =>
      obtain ⟨first, steps, rfl, hleft⟩ := ihleft.2 hop.ne_power hop.not_isPrefix
      have hsteps := hleft.snoc pos hover hop ihright.1
      have hcomplete := complete_of_steps hover.has hop.ne_power hsteps
      rw [join, if_neg hlevel, joinLeft_append] at hcomplete
      rw [join, if_neg hlevel]
      exact hcomplete
  | @compare lower s op pos ls rs a b hover hop _ _ ihleft ihright =>
      have hfirst := ihleft.1.readsSteps hover hop.not_isPrefix
      exact ⟨a, [], ⟨op, pos, b⟩, rfl, rfl, hfirst.snoc pos hover hop ihright.1⟩
  | @extend lower s op pos ls rs a b e hover hop _ _ ihleft ihright =>
      obtain ⟨first, steps, step, rfl, rfl, hleft⟩ := ihleft
      refine ⟨first, steps ++ [step], ⟨op, pos, b⟩, rfl, ?_, hleft.snoc pos hover hop ihright.1⟩
      rw [joinComparisons_append]
  | chain _ ih =>
      obtain ⟨first, steps, step, -, rfl, hsteps⟩ := ih
      exact complete_of_steps trivial Level.noConfusion hsteps
  | base _ ih =>
      obtain ⟨base, indices, rfl, h⟩ := ih
      exact ⟨reads_base h, fun hne _ => absurd rfl hne⟩
  | power _ _ ihleft ihright =>
      obtain ⟨base, indices, rfl, hleft⟩ := ihleft
      exact ⟨reads_power hleft ihright.1, fun hne _ => absurd rfl hne⟩
  | primary _ ih =>
      refine ⟨_, [], rfl, ?_⟩
      intro stop rest
      refine ⟨rest, ih stop rest, ?_⟩
      cases readIndices g stop rest <;> rfl
  | @index pos close ls rs a b _ _ ihleft ihright =>
      obtain ⟨base, indices, rfl, hleft⟩ := ihleft
      refine ⟨base, indices ++ [(pos, b)], ?_, hleft.snoc ihright.1⟩
      rw [applyIndices, applyIndices, List.foldl_append]
      rfl
  | literal value pos =>
      intro stop rest
      apply readPrimary_of_leaf?
      cases value <;> rfl
  | name id pos =>
      intro stop rest
      exact readPrimary_of_leaf? stop rest rfl
  | paren _ ih =>
      intro stop rest
      exact readPrimary_of_paren stop rest ih.1
  | empty pos close =>
      intro stop rest
      exact readPrimary_bracket g stop rfl
  | array _ ih =>
      obtain ⟨pos, body, es, rfl, rfl, hbegins, helements⟩ := ih
      intro stop rest
      exact readPrimary_of_array stop rest hbegins helements
  | @first pos ls e hderives ih =>
      exact ⟨pos, ls, [e], rfl, rfl, hderives.begins, ih.1.readsElements⟩
  | @more pos comma ls rs es e _ _ ihleft ihright =>
      obtain ⟨_, body, _, rfl, heq, hbegins, helements⟩ := ihleft
      cases heq
      exact ⟨pos, body ++ ⟨.symbol .comma, comma⟩ :: rs, es ++ [e], rfl, rfl, hbegins.append _,
        helements.snoc ihright.1⟩

theorem read_of_derives {level : Level} {used rest : List Lexeme} {e : Expr} (stop : Nat)
    (h : Derives g (.level level) used e) (hstops : g.Stops level rest) :
    read g stop level (used ++ rest) = .ok (e, rest) :=
  h.complete.1 stop rest hstops

end Formula
