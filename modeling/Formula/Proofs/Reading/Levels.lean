import Formula.Proofs.Reading.Tables

/-! # From tight levels to loose ones

An expression of a tight level is an expression of every looser level of its grammar. -/

namespace Formula

variable {g : Grammar} {ls : List Lexeme} {e : Expr}

/-- What holds at a level holds at every looser level of the grammar when it passes from the
operands of a level to the level. -/
theorem Grammar.climb {motive : Level → Prop} {level upper : Level} (hlevel : g.Has level)
    (hupper : g.Has upper) (hle : level.rank ≤ upper.rank) (here : motive level)
    (step : ∀ upper lower, g.Over upper lower → level.rank ≤ lower.rank → motive lower →
      motive upper) : motive upper := by
  induction hrank : upper.rank using Nat.strongRecOn generalizing upper with
  | ind rank ih =>
      by_cases heq : level = upper
      · exact heq ▸ here
      · have hlt : level.rank < upper.rank :=
          Nat.lt_of_le_of_ne hle fun hranks => heq (rank_injective hranks)
        have hne : upper ≠ .power := by
          rintro rfl
          exact Nat.not_lt.mpr (rank_power_le level) hlt
        have hbelow := rank_le_below hlevel hupper hlt
        exact step upper _ (over_below hupper hne) hbelow
          (ih (g.below upper).rank (hrank ▸ rank_below_lt g hne) (has_below hupper) hbelow rfl)

/-- What is derived at a level is derived at every looser level. -/
theorem Derives.loosen {level upper : Level} (h : Derives g (.level level) ls e)
    (hlevel : g.Has level) (hupper : g.Has upper) (hle : level.rank ≤ upper.rank) :
    Derives g (.level upper) ls e :=
  Grammar.climb (motive := fun upper => Derives g (.level upper) ls e) hlevel hupper hle h
    fun _ _ hover _ hlower => .operand hover hlower

theorem Derives.ofIndexed {upper : Level} (h : Derives g .indexed ls e) (hupper : g.Has upper) :
    Derives g (.level upper) ls e :=
  (Derives.base h).loosen trivial hupper (Grammar.rank_power_le upper)

theorem Derives.inParens {level : Level} {pos close : Nat} (h : Derives g (.level level) ls e)
    (hlevel : g.Has level) :
    Derives g .indexed (⟨.symbol .openParen, pos⟩ :: ls ++ [⟨.symbol .closeParen, close⟩]) e := by
  have hupper : g.Has .disjunction := trivial
  exact .primary (.paren (h.loosen hlevel hupper (Grammar.rank_le_disjunction level)))

end Formula
