import Formula.Proofs.Lexing.Tiling
import Formula.Proofs.Reading.Beginnings
import Formula.Proofs.Reading.Correctness
import Formula.Proofs.Reading.Levels

/-! # Tokens of statements

Where an expression is broken off by a token that belongs to an assignment or separates statements,
and which error this gives: it depends on the brackets that are open there and on whether an operand
is missing. -/

namespace Formula

variable {g : Grammar}

/-! ## Readers at a token of a statement -/

theorem Token.isStatement_cases {t : Token} (h : t.isStatement = true) :
    t = .symbol .assign ∨ t = .symbol .semicolon ∨ ∃ op, t = .update op := by
  cases t with
  | update op => exact .inr (.inr ⟨op, rfl⟩)
  | symbol s =>
      cases s with
      | assign => exact .inl rfl
      | semicolon => exact .inr (.inl rfl)
      | _ => cases h
  | _ => cases h

section Statement

variable {stop : Nat} {l : Lexeme} (hl : l.token.isStatement = true) (after : List Lexeme)
include hl

theorem stops_statement (level : Level) : g.Stops level (l :: after) := by
  obtain ⟨token, pos⟩ := l
  rcases Token.isStatement_cases hl with rfl | rfl | ⟨op, rfl⟩
  · exact Grammar.stops_of_binaryOp? rfl Symbol.noConfusion
  · exact Grammar.stops_of_binaryOp? rfl Symbol.noConfusion
  · rintro _ ⟨⟩
    exact ⟨Token.noConfusion, Token.noConfusion, fun _ _ _ => rfl⟩

theorem expect?_statement {s : Symbol} (h : (Token.symbol s).isStatement = false) :
    Lexeme.expect? s (l :: after) = none := by
  refine if_neg fun htoken => ?_
  rw [htoken, h] at hl
  cases hl

theorem prefixOp?_statement (level : Level) : g.prefixOp? level l.token = none := by
  rcases Token.isStatement_cases hl with h | h | ⟨op, h⟩ <;> rw [h] <;> cases level <;> rfl

theorem readPrimary_statement : Expr.readPrimary g stop (l :: after) = .error l.leftover := by
  have hunexpected : l.unexpected = l.leftover := if_pos hl
  obtain ⟨token, pos⟩ := l
  rcases Token.isStatement_cases hl with rfl | rfl | ⟨op, rfl⟩
  all_goals
    rw [← hunexpected]
    exact Expr.readPrimary_unexpected g stop rfl (fun h => nomatch h) (fun h => nomatch h)

theorem read_statement (level : Level) :
    Expr.read g stop level (l :: after) = .error l.leftover := by
  by_cases hne : level = .power
  · rw [hne, Expr.read_power, readPrimary_statement hl]
    rfl
  · have hbelow := read_statement (g.below level)
    by_cases hunary : level.isPrefix = true
    · rw [Expr.read_prefix_none g stop hne hunary (prefixOp?_statement hl level), hbelow]
    · rw [Expr.read_binary g stop hne hunary, hbelow]
      rfl
  termination_by level.rank
  decreasing_by exact Grammar.rank_below_lt g hne

end Statement

/-! ## Halting -/

/-- A reader that comes to the token `l` of a statement either has just completed what it reads, or
refuses the token. -/
inductive Halts {α : Type} (l : Lexeme) (after : List Lexeme) (opened : List Opening) :
    Progress → Except SyntaxError (α × List Lexeme) → Prop where
  | complete (a : α) : Halts l after opened ⟨opened, false⟩ (.ok (a, l :: after))
  | refused (p : Progress) : Halts l after opened p (.error (p.refusal l))

theorem Halts.bind {α β : Type} {l : Lexeme} {after : List Lexeme} {opened opened' : List Opening}
    {p : Progress} {x : Except SyntaxError (α × List Lexeme)}
    {k : α × List Lexeme → Except SyntaxError (β × List Lexeme)} (h : Halts l after opened p x)
    (hnext : ∀ a, p = ⟨opened, false⟩ → Halts l after opened' p (k (a, l :: after))) :
    Halts l after opened' p (x >>= k) := by
  cases h with
  | complete a => exact hnext a rfl
  | refused p => exact .refused p

namespace Expr

variable {stop : Nat}

/-- Reads a primary expression with its indices. -/
def readIndexed (g : Grammar) (stop : Nat) (ls : List Lexeme) :
    Except SyntaxError (Expr × List Lexeme) := do
  let (base, afterBase) ← readPrimary g stop ls
  let (indices, afterIndices) ← readIndices g stop afterBase
  return (applyIndices base indices, afterIndices)

theorem read_power_eq (ls : List Lexeme) :
    read g stop .power ls = (do
      let (base, afterBase) ← readIndexed g stop ls
      match Lexeme.expect? .power afterBase with
      | none => return (base, afterBase)
      | some (pos, rest) => do
        let (exponent, after) ← read g stop .signed rest
        return (binary .pow base exponent pos, after)) := by
  rw [read_power, readIndexed]
  cases readPrimary g stop ls with
  | error e => rfl
  | ok base =>
      simp only [ok_bind]
      cases readIndices g stop base.2 with
      | error e => rfl
      | ok indices => rfl

/-- The reader of a category. An array is read from its opening bracket on. -/
def readAt (g : Grammar) (stop : Nat) : Category → List Lexeme →
    Except SyntaxError (Expr × List Lexeme)
  | .level level => read g stop level
  | .chain _ => read g stop .comparison
  | .indexed => readIndexed g stop
  | .primary | .opened => readPrimary g stop

end Expr

open Formula.Expr

theorem ReadsIndices.readIndexed {stop : Nat} {used : List Lexeme} {base : Expr}
    {indices : List (Nat × Expr)} (h : ReadsIndices g used base indices) (rest : List Lexeme) :
    readIndexed g stop (used ++ rest) = (do
      let (more, after) ← readIndices g stop rest
      return (applyIndices base (indices ++ more), after)) := by
  obtain ⟨between, hprimary, hindices⟩ := h stop rest
  rw [Expr.readIndexed, hprimary, ok_bind]
  simp only [hindices]
  cases readIndices g stop rest <;> rfl

section Readers

variable {stop : Nat} {l : Lexeme} {after ls : List Lexeme} {opened : List Opening} {p : Progress}

theorem halts_of_below (hl : l.token.isStatement = true) {upper lower : Level}
    (hover : g.Over upper lower) (hunary : ¬ upper.isPrefix = true)
    (h : Halts l after opened p (read g stop lower ls)) :
    Halts l after opened p (read g stop upper ls) := by
  rw [read_binary g stop hover.ne_power hunary, hover.below_eq]
  refine h.bind fun first hp => ?_
  simp only [readSteps_of_stops hover.has (stops_statement hl after upper)]
  rw [hp]
  exact .complete _

/-- Behind the first operands of a level the reader halts where that of the next operand halts. -/
theorem halts_of_operand (hl : l.token.isStatement = true) {upper lower : Level} {s : Symbol}
    {op : BinaryOp} {used : List Lexeme} {first : Expr} {steps : List Step} (pos : Nat)
    (hover : g.Over upper lower) (hop : g.Between upper s op)
    (hleft : ReadsSteps g upper used first steps)
    (h : Halts l after opened p (read g stop lower ls)) :
    Halts l after opened p (read g stop upper (used ++ ⟨.symbol s, pos⟩ :: ls)) := by
  have hstops : g.Stops (g.below upper) (⟨.symbol s, pos⟩ :: ls) := by
    rw [hover.below_eq]
    exact hop.stops hover
  rw [hleft stop _ hstops, readSteps_some g stop hop.infixOp?, if_pos hop.supports,
    hover.below_eq]
  refine @Halts.bind _ _ _ _ opened opened _ _ _ (h.bind fun operand hp => ?_) fun more hp => ?_
  · simp only [readSteps_of_stops hover.has (stops_statement hl after upper)]
    rw [hp]
    exact .complete _
  · rw [hp]
    exact .complete _

theorem halts_power (hl : l.token.isStatement = true)
    (h : Halts l after opened p (readIndexed g stop ls)) :
    Halts l after opened p (read g stop .power ls) := by
  rw [read_power_eq]
  refine h.bind fun base hp => ?_
  simp only [expect?_statement hl after (s := .power) rfl]
  rw [hp]
  exact .complete _

/-- An array that is open is left to its elements. -/
theorem halts_elements (hl : l.token.isStatement = true)
    (h : Halts l after (.array :: opened) p (read g stop .disjunction ls)) :
    readElements g stop ls = .error (p.refusal l) := by
  rw [readElements_eq]
  generalize read g stop .disjunction ls = outcome at h
  cases h with
  | refused p => rfl
  | complete e =>
      rw [ok_bind]
      simp only [readMore, expect?_statement hl after (s := .comma) rfl,
        expect?_statement hl after (s := .closeBracket) rfl]
      rfl

end Readers

/-! ## Broken expressions -/

/-- The reader of a category halts at a token of a statement behind every beginning of the
lexemes. -/
def HaltsIn (g : Grammar) (category : Category) (used : List Lexeme) : Prop :=
  ∀ (stop : Nat) (l : Lexeme) (after before more : List Lexeme) (opened : List Opening),
    l.token.isStatement = true → used = before ++ more →
      Halts l after opened ((⟨opened, true⟩ : Progress).after before)
        (readAt g stop category (before ++ l :: after))

/-- What is broken off in the middle is broken off in its front or behind the lexeme `a`. -/
theorem append_cons_cases {α : Type} {ls rs before more : List α} {a : α}
    (h : ls ++ a :: rs = before ++ more) :
    (∃ between, ls = before ++ between) ∨
      ∃ between, before = ls ++ a :: between ∧ rs = between ++ more := by
  rcases List.append_eq_append_iff.mp h with ⟨between, rfl, hmore⟩ | ⟨between, rfl, -⟩
  · cases between with
    | nil => exact .inl ⟨[], (List.append_nil _).symm.trans (List.append_nil _).symm⟩
    | cons b between =>
        obtain ⟨rfl, rfl⟩ := List.cons.inj hmore
        exact .inr ⟨between, rfl, rfl⟩
  · exact .inl ⟨between, rfl⟩

theorem append_singleton_cases {α : Type} {ls before more : List α} {a : α}
    (h : ls ++ [a] = before ++ more) :
    (∃ between, ls = before ++ between) ∨ before = ls ++ [a] := by
  rcases append_cons_cases h with hfront | ⟨between, rfl, hnil⟩
  · exact .inl hfront
  · obtain ⟨rfl, rfl⟩ := List.append_eq_nil_iff.mp hnil.symm
    exact .inr rfl

section Rules

variable {stop : Nat} {l : Lexeme} {used ls rs : List Lexeme} {e : Expr}

theorem halts_nil (hl : l.token.isStatement = true) (after : List Lexeme) (category : Category)
    (opened : List Opening) :
    Halts l after opened ⟨opened, true⟩ (readAt g stop category (l :: after)) := by
  have hread : readAt g stop category (l :: after) = .error l.leftover := by
    cases category with
    | level level => exact read_statement hl after level
    | chain _ => exact read_statement hl after .comparison
    | indexed =>
        rw [readAt, Expr.readIndexed, readPrimary_statement hl]
        rfl
    | primary | opened => exact readPrimary_statement hl after
  rw [hread]
  exact .refused ⟨opened, true⟩

theorem Derives.halts_primary (h : Derives g .primary used e) (l : Lexeme) (after : List Lexeme)
    (opened : List Opening) :
    Halts l after opened ((⟨opened, true⟩ : Progress).after used)
      (readPrimary g stop (used ++ l :: after)) := by
  rw [h.progress, h.complete stop (l :: after)]
  exact .complete e

theorem Derives.halts_indexed (h : Derives g .indexed used e) (hl : l.token.isStatement = true)
    (after : List Lexeme) (opened : List Opening) :
    Halts l after opened ((⟨opened, true⟩ : Progress).after used)
      (readIndexed g stop (used ++ l :: after)) := by
  obtain ⟨base, indices, -, hindices⟩ := h.complete
  rw [h.progress, hindices.readIndexed,
    readIndices_of_stops (stops_statement (g := g) hl after .disjunction)]
  exact .complete _

theorem haltsIn_of_below {upper lower : Level} (hover : g.Over upper lower)
    (hbegins : Begins g lower.rank used) (h : HaltsIn g (.level lower) used) :
    HaltsIn g (.level upper) used := by
  intro stop l after before more opened hl hused
  have hlower := h stop l after before more opened hl hused
  by_cases hunary : upper.isPrefix = true
  · cases before with
    | nil => exact halts_nil hl after _ opened
    | cons b before =>
        obtain ⟨_, rest, hcons, -, hop⟩ := hbegins
        rw [hused] at hcons
        cases hcons
        rw [List.cons_append, readAt, read_prefix_none g stop hover.ne_power hunary
          (hop upper hover.rank_lt), hover.below_eq]
        exact hlower
  · exact halts_of_below hl hover hunary hlower

theorem haltsIn_unary {here : Level} {s : Symbol} {op : UnaryOp} (pos : Nat)
    (hop : g.Before here s op) (h : HaltsIn g (.level here) ls) :
    HaltsIn g (.level here) (⟨.symbol s, pos⟩ :: ls) := by
  intro stop l after before more opened hl hused
  rcases List.cons_eq_append_iff.mp hused with ⟨rfl, -⟩ | ⟨between, rfl, hls⟩
  · exact halts_nil hl after _ opened
  · rw [List.cons_append, readAt, read_prefix_some g stop hop.ne_power hop.isPrefix hop.prefixOp?,
      Progress.after_cons, hop.next]
    refine (h stop l after between more opened hl hls).bind fun operand hp => ?_
    rw [hp]
    exact .complete _

/-- Behind the first operands of a level the reader halts where that of the next operand does. -/
theorem haltsIn_operator {upper lower : Level} {s : Symbol} {op : BinaryOp} {first : Expr}
    {steps : List Step} (pos : Nat) (hover : g.Over upper lower) (hop : g.Between upper s op)
    (hprogress : ∀ opened, (⟨opened, true⟩ : Progress).after ls = ⟨opened, false⟩)
    (hsteps : ReadsSteps g upper ls first steps) (hleft : HaltsIn g (.level upper) ls)
    (hright : HaltsIn g (.level lower) rs) :
    HaltsIn g (.level upper) (ls ++ ⟨.symbol s, pos⟩ :: rs) := by
  intro stop l after before more opened hl hused
  rcases append_cons_cases hused with ⟨between, hls⟩ | ⟨between, rfl, hrs⟩
  · exact hleft stop l after before between opened hl hls
  · rw [Progress.after_append, hprogress, Progress.after_cons, hop.next, List.append_assoc,
      List.cons_append]
    exact halts_of_operand hl pos hover hop hsteps
      (hright stop l after between more opened hl hrs)

theorem haltsIn_power (pos : Nat) {a : Expr} (h : Derives g .indexed ls a)
    (hleft : HaltsIn g .indexed ls) (hright : HaltsIn g (.level .signed) rs) :
    HaltsIn g (.level .power) (ls ++ ⟨.symbol .power, pos⟩ :: rs) := by
  intro stop l after before more opened hl hused
  rcases append_cons_cases hused with ⟨between, hls⟩ | ⟨between, rfl, hrs⟩
  · exact halts_power hl (hleft stop l after before between opened hl hls)
  · obtain ⟨base, indices, -, hindices⟩ := h.complete
    have hnone : readIndices g stop (⟨.symbol .power, pos⟩ :: (between ++ l :: after)) =
        .ok ([], ⟨.symbol .power, pos⟩ :: (between ++ l :: after)) :=
      readIndices_none g stop rfl
    rw [Progress.after_append, h.progress, List.append_assoc, List.cons_append, readAt,
      read_power_eq, hindices.readIndexed, hnone]
    refine (hright stop l after between more opened hl hrs).bind fun exponent hp => ?_
    rw [hp]
    exact .complete _

theorem haltsIn_primary (h : HaltsIn g .primary ls) : HaltsIn g .indexed ls := by
  intro stop l after before more opened hl hused
  refine (h stop l after before more opened hl hused).bind fun base hp => ?_
  simp only [readIndices_of_stops (stops_statement (g := g) hl after .disjunction)]
  rw [hp]
  exact .complete _

/-- Behind the expression in the brackets of an index the opening bracket is refused. -/
theorem haltsIn_index {pos close : Nat} {a b : Expr} (ha : Derives g .indexed ls a)
    (hb : Derives g (.level .disjunction) rs b) (hleft : HaltsIn g .indexed ls)
    (hright : HaltsIn g (.level .disjunction) rs) :
    HaltsIn g .indexed
      (ls ++ ⟨.symbol .openBracket, pos⟩ :: rs ++ [⟨.symbol .closeBracket, close⟩]) := by
  intro stop l after before more opened hl hused
  rcases append_singleton_cases hused with ⟨between, hinner⟩ | rfl
  · rcases append_cons_cases hinner with ⟨between, hls⟩ | ⟨between, rfl, hrs⟩
    · exact hleft stop l after before between opened hl hls
    · obtain ⟨base, indices, -, hindices⟩ := ha.complete
      have hsubscript := hright stop l after between _ (.index pos :: opened) hl hrs
      rw [Progress.after_append, ha.progress, List.append_assoc, List.cons_append, readAt,
        hindices.readIndexed, readIndices_some g stop rfl]
      refine @Halts.bind _ _ _ _ opened opened _ _ _
        (hsubscript.bind fun subscript hp => ?_) fun more hp => ?_
      · simp only [expect?_statement hl after (s := .closeBracket) rfl]
        rw [hp]
        exact .refused ⟨.index pos :: opened, false⟩
      · rw [hp]
        exact .complete _
  · exact (ha.index hb).halts_indexed hl after opened

theorem haltsIn_singleton {l : Lexeme} (h : Derives g .primary [l] e) : HaltsIn g .primary [l] := by
  intro stop l after before more opened hl hused
  rcases List.cons_eq_append_iff.mp hused with ⟨rfl, -⟩ | ⟨between, rfl, hnil⟩
  · exact halts_nil hl after _ opened
  · obtain ⟨rfl, -⟩ := List.append_eq_nil_iff.mp hnil.symm
    exact h.halts_primary l after opened

theorem haltsIn_paren {pos close : Nat} (h : Derives g (.level .disjunction) ls e)
    (hinner : HaltsIn g (.level .disjunction) ls) :
    HaltsIn g .primary (⟨.symbol .openParen, pos⟩ :: ls ++ [⟨.symbol .closeParen, close⟩]) := by
  intro stop l after before more opened hl hused
  rcases append_singleton_cases hused with ⟨between, hopen⟩ | rfl
  · rcases List.cons_eq_append_iff.mp hopen with ⟨rfl, -⟩ | ⟨between, rfl, hls⟩
    · exact halts_nil hl after _ opened
    · rw [List.cons_append, readAt, readPrimary_paren g stop rfl, Progress.after_cons,
        Progress.next_openParen]
      refine (hinner stop l after between _ (.paren :: opened) hl hls).bind fun inner hp => ?_
      simp only [expect?_statement hl after (s := .closeParen) rfl]
      rw [hp, Lexeme.unclosedParen, if_pos hl]
      exact .refused ⟨.paren :: opened, false⟩
  · exact h.paren.halts_primary l after opened

theorem haltsIn_empty (pos close : Nat) :
    HaltsIn g .primary [⟨.symbol .openBracket, pos⟩, ⟨.symbol .closeBracket, close⟩] := by
  intro stop l after before more opened hl hused
  rcases List.cons_eq_append_iff.mp hused with ⟨rfl, -⟩ | ⟨between, rfl, hclose⟩
  · exact halts_nil hl after _ opened
  rcases List.cons_eq_append_iff.mp hclose with ⟨rfl, -⟩ | ⟨between, rfl, hnil⟩
  · have hnil : Halts l after (.array :: opened) ⟨.array :: opened, true⟩
        (read g stop .disjunction (l :: after)) :=
      halts_nil hl after (.level .disjunction) (.array :: opened)
    rw [List.singleton_append, readAt, readPrimary_bracket g stop rfl,
      expect?_statement hl after rfl, halts_elements hl hnil]
    exact .refused ⟨.array :: opened, true⟩
  · obtain ⟨rfl, -⟩ := List.append_eq_nil_iff.mp hnil.symm
    exact (Derives.empty pos close).halts_primary l after opened

theorem haltsIn_array {close : Nat} (h : Derives g .opened ls e) (hopened : HaltsIn g .opened ls) :
    HaltsIn g .primary (ls ++ [⟨.symbol .closeBracket, close⟩]) := by
  intro stop l after before more opened hl hused
  rcases append_singleton_cases hused with ⟨between, hls⟩ | rfl
  · exact hopened stop l after before between opened hl hls
  · exact h.array.halts_primary l after opened

theorem haltsIn_first (pos : Nat) (h : Derives g (.level .disjunction) ls e)
    (hfirst : HaltsIn g (.level .disjunction) ls) :
    HaltsIn g .opened (⟨.symbol .openBracket, pos⟩ :: ls) := by
  intro stop l after before more opened hl hused
  rcases List.cons_eq_append_iff.mp hused with ⟨rfl, -⟩ | ⟨between, rfl, hls⟩
  · exact halts_nil hl after _ opened
  · have hclose : Lexeme.expect? .closeBracket (between ++ l :: after) = none := by
      cases between with
      | nil => exact expect?_statement hl after rfl
      | cons b between =>
          obtain ⟨_, rest, hbegins, hclose, -⟩ := h.begins
          rw [hls] at hbegins
          cases hbegins
          exact if_neg hclose
    have helements := halts_elements hl
      (hfirst stop l after between more (.array :: opened) hl hls)
    rw [List.cons_append, readAt, readPrimary_bracket g stop rfl, hclose, helements]
    exact .refused _

theorem haltsIn_more {pos comma : Nat} {es : List Expr} (h : Derives g .opened ls (.array es pos))
    (hleft : HaltsIn g .opened ls) (hright : HaltsIn g (.level .disjunction) rs) :
    HaltsIn g .opened (ls ++ ⟨.symbol .comma, comma⟩ :: rs) := by
  intro stop l after before more opened hl hused
  rcases append_cons_cases hused with ⟨between, hls⟩ | ⟨between, rfl, hrs⟩
  · exact hleft stop l after before between opened hl hls
  · obtain ⟨_, body, _, rfl, -, hbegins, helements⟩ := h.complete
    have hcomma : g.Stops .disjunction (⟨.symbol .comma, comma⟩ :: (between ++ l :: after)) :=
      Grammar.stops_of_binaryOp? rfl (fun h => nomatch h)
    have hmore : readMore g stop (⟨.symbol .comma, comma⟩ :: (between ++ l :: after)) =
        readElements g stop (between ++ l :: after) := rfl
    have hnext := halts_elements hl (hright stop l after between more (.array :: opened) hl hrs)
    rw [Progress.after_append, h.progress, List.append_assoc, List.cons_append, List.cons_append,
      readAt, readPrimary_bracket g stop rfl, (hbegins.append _).expect?_eq_none,
      helements stop _ hcomma, hmore, hnext]
    exact .refused _

end Rules

/-- Readers halt behind every beginning of what lexemes derive. The induction is on the derivation,
the cases of each rule are the parts in which it can be broken off. -/
theorem Derives.haltsIn {category : Category} {used : List Lexeme} {e : Expr}
    (h : Derives g category used e) : HaltsIn g category used := by
  induction h with
  | operand hover h ih => exact haltsIn_of_below hover h.begins ih
  | @unary _ _ _ pos _ _ hop _ ih => exact haltsIn_unary pos hop ih
  | @binary _ _ _ _ pos _ _ _ _ hover hlevel hop hleft _ ihleft ihright =>
      obtain ⟨first, steps, -, hsteps⟩ := hleft.complete.2 hop.ne_power hop.not_isPrefix
      exact haltsIn_operator pos hover hop hleft.progress hsteps ihleft ihright
  | @compare _ _ _ pos _ _ _ _ hover hop hleft _ ihleft ihright =>
      have hsteps := hleft.complete.1.readsSteps hover hop.not_isPrefix
      have hfirst := haltsIn_of_below hover hleft.begins ihleft
      exact haltsIn_operator pos hover hop hleft.progress hsteps hfirst ihright
  | @extend _ _ _ pos _ _ _ _ _ hover hop hleft _ ihleft ihright =>
      obtain ⟨first, steps, step, -, -, hsteps⟩ := hleft.complete
      exact haltsIn_operator pos hover hop hleft.progress hsteps ihleft ihright
  | chain _ ih => exact ih
  | base _ ih =>
      intro stop l after before more opened hl hused
      exact halts_power hl (ih stop l after before more opened hl hused)
  | @power pos _ _ _ _ hleft _ ihleft ihright => exact haltsIn_power pos hleft ihleft ihright
  | primary _ ih => exact haltsIn_primary ih
  | index hleft hright ihleft ihright => exact haltsIn_index hleft hright ihleft ihright
  | literal value pos => exact haltsIn_singleton (.literal value pos)
  | name id pos => exact haltsIn_singleton (.name id pos)
  | paren hinner ih => exact haltsIn_paren hinner ih
  | empty pos close => exact haltsIn_empty pos close
  | array hopened ih => exact haltsIn_array hopened ih
  | @first pos _ _ hfirst ih => exact haltsIn_first pos hfirst ih
  | more hleft _ ihleft ihright => exact haltsIn_more hleft ihleft ihright

/-- A text that has come as far as `before` when a token of a statement follows is refused. -/
theorem ofText_eq_refusal {source : String} {before after more : List Lexeme} {l : Lexeme}
    {tree : Expr} (hls : Lexeme.ofText source = .ok (before ++ l :: after))
    (hl : l.token.isStatement = true)
    (h : Derives g (.level .disjunction) (before ++ more) tree) :
    Expr.ofText g source = .error ((Progress.start.after before).refusal l) := by
  have hblank : ¬ source.toList.all Text.isBlank = true :=
    Lexeme.not_blank_of_mem hls List.mem_append_cons_self
  have hhalts : Halts l after [] (Progress.start.after before)
      (read g source.utf8ByteSize .disjunction (before ++ l :: after)) :=
    h.haltsIn _ l after before more [] hl rfl
  rw [Expr.ofText, if_neg hblank, hls, ok_bind, ofLexemes_eq_read]
  generalize read g source.utf8ByteSize .disjunction (before ++ l :: after) = outcome at hhalts ⊢
  generalize Progress.start.after before = p at hhalts ⊢
  cases hhalts with
  | complete e => rfl
  | refused p => rfl

/-! ## The error for statements -/

/-- The error that is meant for a token of a statement. -/
def Lexeme.statementError (l : Lexeme) : SyntaxError :=
  .located (if l.token = .symbol .semicolon then .statement else .assignment) l.pos

theorem leftover_eq_statementError {l : Lexeme} (hl : l.token.isStatement = true) :
    l.leftover = l.statementError := by
  obtain ⟨token, pos⟩ := l
  rcases Token.isStatement_cases hl with rfl | rfl | ⟨op, rfl⟩ <;> rfl

theorem refusal_eq_statementError_iff {l : Lexeme} (hl : l.token.isStatement = true)
    (p : Progress) : p.refusal l = l.statementError ↔ p.behindItem = false := by
  have hbrackets (pos pos' : Nat) (t : Token) :
      SyntaxError.located (.unexpectedInList t) pos ≠ l.statementError ∧
        SyntaxError.located .unclosedBracket pos' ≠ l.statementError := by
    rw [Lexeme.statementError]
    split <;> exact ⟨(fun h => nomatch h), fun h => nomatch h⟩
  rw [← leftover_eq_statementError hl] at hbrackets ⊢
  obtain ⟨opened, awaits⟩ := p
  cases awaits with
  | true => exact ⟨fun _ => rfl, fun _ => rfl⟩
  | false =>
      rcases opened with _ | ⟨_ | _ | pos, opened⟩
      · exact ⟨fun _ => rfl, fun _ => rfl⟩
      · exact ⟨fun _ => rfl, fun _ => rfl⟩
      · exact ⟨fun h => absurd h (hbrackets _ 0 _).1, Bool.noConfusion⟩
      · exact ⟨fun h => absurd h (hbrackets 0 pos l.token).2, Bool.noConfusion⟩

/-- The error of an expression that is broken off by a token of a statement is the one that is meant
for this token, except directly behind an operand in square brackets. -/
theorem ofText_statement {source : String} {before after more : List Lexeme} {l : Lexeme}
    {tree : Expr} (hls : Lexeme.ofText source = .ok (before ++ l :: after))
    (hl : l.token.isStatement = true)
    (h : Derives g (.level .disjunction) (before ++ more) tree) :
    Expr.ofText g source = .error ((Progress.start.after before).refusal l) ∧
      (Expr.ofText g source = .error l.statementError ↔
        (Progress.start.after before).behindItem = false) := by
  have hrefusal := ofText_eq_refusal hls hl h
  refine ⟨hrefusal, ?_⟩
  rw [hrefusal, Except.error.injEq]
  exact refusal_eq_statementError_iff hl _

/-- In parentheses in an index. -/
theorem ofText_statement_paren :
    Lexeme.ofText "f[(a = 1)]" = .ok ([⟨.name "f", 0⟩, ⟨.symbol .openBracket, 1⟩,
        ⟨.symbol .openParen, 2⟩, ⟨.name "a", 3⟩] ++ ⟨.symbol .assign, 5⟩ ::
        [⟨.integer (some 1), 7⟩, ⟨.symbol .closeParen, 8⟩, ⟨.symbol .closeBracket, 9⟩]) ∧
      Expr.ofText .strict "f[(a = 1)]" = .error (.located .assignment 5) := by
  have hls : Lexeme.ofText "f[(a = 1)]" = .ok ([⟨.name "f", 0⟩, ⟨.symbol .openBracket, 1⟩,
      ⟨.symbol .openParen, 2⟩, ⟨.name "a", 3⟩] ++ ⟨.symbol .assign, 5⟩ ::
      [⟨.integer (some 1), 7⟩, ⟨.symbol .closeParen, 8⟩, ⟨.symbol .closeBracket, 9⟩]) := by
    rw [Lexeme.ofText_eq_readWithin]
    rfl
  have hname (id : String) (pos : Nat) :
      Derives .strict .indexed [⟨.name id, pos⟩] (.name id pos) :=
    .primary (.name id pos)
  have hindex : Derives .strict .indexed ([⟨.name "f", 0⟩, ⟨.symbol .openBracket, 1⟩,
      ⟨.symbol .openParen, 2⟩, ⟨.name "a", 3⟩] ++
      [⟨.symbol .closeParen, 4⟩, ⟨.symbol .closeBracket, 5⟩])
      (.index (.name "f" 0) (.name "a" 3) 1) :=
    (hname "f" 0).index (.ofIndexed (.primary (.paren ((hname "a" 3).ofIndexed trivial))) trivial)
  obtain ⟨-, hmeant⟩ := ofText_statement hls rfl (hindex.ofIndexed trivial)
  exact ⟨hls, hmeant.mpr rfl⟩

/-- Directly behind an element of an array the token is only an unexpected one. -/
theorem ofText_assignment_in_array :
    Lexeme.ofText "[a = 1]" = .ok ([⟨.symbol .openBracket, 0⟩, ⟨.name "a", 1⟩] ++
        ⟨.symbol .assign, 3⟩ :: [⟨.integer (some 1), 5⟩, ⟨.symbol .closeBracket, 6⟩]) ∧
      Derives .extended (.level .disjunction) ([⟨.symbol .openBracket, 0⟩, ⟨.name "a", 1⟩] ++
        [⟨.symbol .closeBracket, 2⟩]) (.array [.name "a" 1] 0) ∧
      Expr.ofText .extended "[a = 1]" ≠ .error (.located .assignment 3) := by
  have hls : Lexeme.ofText "[a = 1]" = .ok ([⟨.symbol .openBracket, 0⟩, ⟨.name "a", 1⟩] ++
      ⟨.symbol .assign, 3⟩ :: [⟨.integer (some 1), 5⟩, ⟨.symbol .closeBracket, 6⟩]) := by
    rw [Lexeme.ofText_eq_readWithin]
    rfl
  have hname : Derives .extended (.level .disjunction) [⟨.name "a", 1⟩] (.name "a" 1) :=
    .ofIndexed (.primary (.name "a" 1)) trivial
  have harray : Derives .extended (.level .disjunction) ([⟨.symbol .openBracket, 0⟩,
      ⟨.name "a", 1⟩] ++ [⟨.symbol .closeBracket, 2⟩]) (.array [.name "a" 1] 0) :=
    .ofIndexed (.primary (.array (.first hname))) trivial
  refine ⟨hls, harray, ?_⟩
  rw [ofText_eq_refusal hls rfl harray]
  exact fun h => nomatch h

end Formula
