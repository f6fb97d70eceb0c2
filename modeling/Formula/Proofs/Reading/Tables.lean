import Formula.Proofs.Reading.Semantics

/-! # The tables and the readers' choices

Which level a reader descends to and which tokens it takes for operators, in terms of the tables of
the grammar; and which tokens can go on with an expression that has been read. -/

namespace Formula.Grammar

/-- The levels that a grammar has: only the strict one has levels of `|` and `&` alone. -/
def Has (g : Grammar) : Level → Prop
  | .bitOr | .bitAnd => g = .strict
  | _ => True

variable {g : Grammar}

theorem Over.below_eq {upper lower : Level} (h : g.Over upper lower) : g.below upper = lower := by
  cases h <;> first | rfl | (subst g; rfl)

theorem Over.ne_power {upper lower : Level} (h : g.Over upper lower) : upper ≠ .power := by
  cases h <;> exact Level.noConfusion

theorem Over.rank_lt {upper lower : Level} (h : g.Over upper lower) : lower.rank < upper.rank :=
  h.below_eq ▸ rank_below_lt g h.ne_power

theorem Over.has {upper lower : Level} (h : g.Over upper lower) : g.Has upper := by
  cases h <;> trivial

theorem over_below {level : Level} (hlevel : g.Has level) (hne : level ≠ .power) :
    g.Over level (g.below level) := by
  cases level
  case comparison =>
    cases g
    · exact .comparison rfl
    · exact .comparisonStrict rfl
  case bitOr => exact .bitOr hlevel
  case bitAnd => exact .bitAnd hlevel
  case power => exact absurd rfl hne
  all_goals constructor

theorem has_below {level : Level} (hlevel : g.Has level) : g.Has (g.below level) := by
  cases level
  case comparison => cases g <;> trivial
  case bitOr => exact hlevel
  all_goals trivial

theorem rank_power_le (level : Level) : Level.power.rank ≤ level.rank := by
  cases level <;> decide

theorem rank_le_disjunction (level : Level) : level.rank ≤ Level.disjunction.rank := by
  cases level <;> decide

theorem rank_injective {level level' : Level} (h : level.rank = level'.rank) :
    level = level' := by
  cases level <;> cases level' <;> first | rfl | cases h

/-- A grammar has no level between one of its levels and the one below it. -/
theorem rank_le_below {level upper : Level} (hlevel : g.Has level) (hupper : g.Has upper)
    (h : level.rank < upper.rank) : level.rank ≤ (g.below upper).rank := by
  cases g <;> cases upper <;> cases level <;>
    first
      | (simp only [Level.rank] at h; omega)
      | exact absurd hlevel Grammar.noConfusion
      | exact absurd hupper Grammar.noConfusion
      | decide

/-! ## Operators -/

theorem Between.infixOp? {level : Level} {s : Symbol} {op : BinaryOp} (h : g.Between level s op) :
    g.infixOp? level (.symbol s) = some op := by
  cases h <;> first | rfl | (subst g; rfl)

theorem Between.supports {level : Level} {s : Symbol} {op : BinaryOp} (h : g.Between level s op) :
    g.supports op = true := by
  cases h <;> first | rfl | (subst g; rfl)

theorem Between.has {level : Level} {s : Symbol} {op : BinaryOp} (h : g.Between level s op) :
    g.Has level := by
  cases h <;> trivial

theorem Between.ne_power {level : Level} {s : Symbol} {op : BinaryOp}
    (h : g.Between level s op) : level ≠ .power := by
  cases h <;> exact Level.noConfusion

theorem Between.isComparison {s : Symbol} {op : BinaryOp} (h : g.Between .comparison s op) :
    op.isComparison = true := by
  cases h <;> rfl

theorem Between.not_isPrefix {level : Level} {s : Symbol} {op : BinaryOp}
    (h : g.Between level s op) : ¬ level.isPrefix = true := by
  cases h <;> exact Bool.false_ne_true

theorem Before.prefixOp? {level : Level} {s : Symbol} {op : UnaryOp} (h : g.Before level s op) :
    g.prefixOp? level (.symbol s) = some op := by
  cases h <;> first | rfl | (subst g; rfl)

/-- At a level that the grammar has, the spelling and the operator determine each other. -/
theorem between_of_binaryOp? {level : Level} {s : Symbol} {op : BinaryOp}
    (hlevel : g.Has level) (hop : g.binaryOp? s = some op) (hjoins : g.joins level op = true)
    (hsupports : g.supports op = true) : g.Between level s op := by
  cases s <;> cases hop <;> cases g <;> cases level <;>
    first
      | contradiction
      | exact absurd hlevel Grammar.noConfusion
      | (constructor; done)
      | (constructor; rfl)

theorem between_of_infixOp? {level : Level} {t : Token} {op : BinaryOp} (hlevel : g.Has level)
    (h : g.infixOp? level t = some op) (hsupports : g.supports op = true) :
    ∃ s, t = .symbol s ∧ g.Between level s op := by
  obtain ⟨htoken, hjoins⟩ := Option.filter_eq_some_iff.mp h
  cases t with
  | symbol s => exact ⟨s, rfl, between_of_binaryOp? hlevel htoken hjoins hsupports⟩
  | _ => cases htoken

theorem before_of_prefixOp? {level : Level} {t : Token} {op : UnaryOp}
    (h : g.prefixOp? level t = some op) : ∃ s, t = .symbol s ∧ g.Before level s op := by
  unfold prefixOp? at h
  split at h
  · cases h
    cases g
    · exact ⟨_, rfl, .notElementwise rfl⟩
    · exact ⟨_, rfl, .not rfl⟩
  · cases h
    exact ⟨_, rfl, .minus⟩
  · cases h
    exact ⟨_, rfl, .plus⟩
  · cases h
    exact ⟨_, rfl, .tilde⟩
  · cases h

theorem Before.has {level : Level} {s : Symbol} {op : UnaryOp} (h : g.Before level s op) :
    g.Has level := by
  cases h <;> trivial

theorem Before.isPrefix {level : Level} {s : Symbol} {op : UnaryOp} (h : g.Before level s op) :
    level.isPrefix = true := by
  cases h <;> rfl

theorem Before.ne_power {level : Level} {s : Symbol} {op : UnaryOp} (h : g.Before level s op) :
    level ≠ .power := by
  cases h <;> exact Level.noConfusion

/-- An operator that stands before the operands of a level begins nothing at a looser level. -/
theorem Before.prefixOp?_of_rank_lt {level looser : Level} {s : Symbol} {op : UnaryOp}
    (h : g.Before level s op) (hrank : level.rank < looser.rank) :
    g.prefixOp? looser (.symbol s) = none := by
  cases h <;> cases looser <;> first | rfl | (simp only [Level.rank] at hrank; omega)

theorem prefixOp?_of_not_symbol {level : Level} {t : Token} (h : ∀ s, t ≠ .symbol s) :
    g.prefixOp? level t = none := by
  cases t with
  | symbol s => exact absurd rfl (h s)
  | _ => cases level <;> rfl

/-! ## What may follow -/

/-- The lexemes do not go on with an expression of the level: they begin with no operator of the
level or of a tighter one, and with no index. -/
def Stops (g : Grammar) (level : Level) (ls : List Lexeme) : Prop :=
  ∀ l ∈ ls.head?, l.token ≠ .symbol .power ∧ l.token ≠ .symbol .openBracket ∧
    ∀ tighter, g.Has tighter → tighter.rank ≤ level.rank → g.infixOp? tighter l.token = none

theorem stops_nil (level : Level) : g.Stops level [] := by
  intro l hl
  cases hl

theorem Stops.mono {level tighter : Level} {ls : List Lexeme} (h : g.Stops level ls)
    (hrank : tighter.rank ≤ level.rank) : g.Stops tighter ls := by
  intro l hl
  obtain ⟨hpower, hbracket, hop⟩ := h l hl
  refine ⟨hpower, hbracket, ?_⟩
  intro inner hinner hle
  exact hop inner hinner (by omega)

theorem Over.stops {upper lower : Level} {ls : List Lexeme} (hover : g.Over upper lower)
    (h : g.Stops upper ls) : g.Stops lower ls :=
  h.mono (Nat.le_of_lt hover.rank_lt)

/-- No binary operator but the power stands between the operands of the two tightest levels. -/
theorem Stops.signed {ls : List Lexeme} (h : g.Stops .power ls) : g.Stops .signed ls := by
  intro l hl
  obtain ⟨hpower, hbracket, hop⟩ := h l hl
  refine ⟨hpower, hbracket, ?_⟩
  intro inner hinner hle
  cases inner with
  | power => exact hop .power trivial (Nat.le_refl _)
  | signed => exact Option.filter_eq_none_iff.mpr (fun _ _ => Bool.false_ne_true)
  | _ => simp only [Level.rank] at hle; omega

/-- The operators of a level are not among those of tighter levels. -/
theorem Between.infixOp?_of_rank_lt {level tighter : Level} {s : Symbol} {op : BinaryOp}
    (h : g.Between level s op) (htighter : g.Has tighter) (hrank : tighter.rank < level.rank) :
    g.infixOp? tighter (.symbol s) = none := by
  cases h <;> subst_vars <;> cases tighter <;>
    first
      | rfl
      | exact absurd htighter Grammar.noConfusion
      | (simp only [Level.rank] at hrank; omega)

theorem Between.stops {upper lower : Level} {s : Symbol} {op : BinaryOp} {pos : Nat}
    {ls : List Lexeme} (hover : g.Over upper lower) (h : g.Between upper s op) :
    g.Stops lower (⟨.symbol s, pos⟩ :: ls) := by
  intro l hl
  cases hl
  refine ⟨?_, ?_, ?_⟩
  · cases h <;> exact fun h => nomatch h
  · cases h <;> exact fun h => nomatch h
  · intro inner hinner hle
    exact h.infixOp?_of_rank_lt hinner (Nat.lt_of_le_of_lt hle hover.rank_lt)

theorem stops_of_binaryOp? {level : Level} {s : Symbol} {pos : Nat} {ls : List Lexeme}
    (h : g.binaryOp? s = none) (hbracket : s ≠ .openBracket) :
    g.Stops level (⟨.symbol s, pos⟩ :: ls) := by
  intro l hl
  cases hl
  refine ⟨?_, ?_, ?_⟩
  · rintro ⟨⟩
    cases h
  · rintro ⟨⟩
    exact hbracket rfl
  · intro inner _ _
    simp only [infixOp?, tokenOp?, h, Option.filter_none]

end Formula.Grammar
