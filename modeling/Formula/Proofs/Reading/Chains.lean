import Formula.Proofs.Lexing.Tiling
import Formula.Proofs.Reading.Correctness
import Formula.Proofs.Reading.Levels

/-! # Texts that are chains of operands

A text whose lexemes are operands of one level with the operators of the level above between them
is read as the operands joined at that level. -/

namespace Formula

open Formula.Expr

variable {g : Grammar}

theorem ofText_of_derives {source : String} {ls : List Lexeme} {e : Expr}
    (hsource : Lexeme.ofText source = .ok ls) (h : Derives g (.level .disjunction) ls e) :
    ofText g source = .ok e := by
  have hblank : ¬ source.toList.all Text.isBlank = true := by
    obtain ⟨l, rest, rfl, -⟩ := h.begins
    exact Lexeme.not_blank_of_mem hsource List.mem_cons_self
  exact ofText_eq_ok_iff.mpr ⟨hblank, ls, hsource, h⟩

theorem ofText_of_follows {level : Level} {source : String} {used rest : List Lexeme}
    {first : Expr} {steps : List Step} (hlevel : g.Has level) (hne : level ≠ .power)
    (hsource : Lexeme.ofText source = .ok (used ++ rest))
    (hfirst : Derives g (.level (g.below level)) used first)
    (hsteps : Follows g level (g.below level) rest steps) :
    ofText g source = .ok (join level first steps) := by
  have hjoin := hsteps.join (Grammar.over_below hlevel hne) hfirst
  have hupper : g.Has .disjunction := trivial
  exact ofText_of_derives hsource
    (hjoin.loosen hlevel hupper (Grammar.rank_le_disjunction level))

/-- The operators of a chain are operators of its level. -/
theorem Expr.Follows.forall_op {upper lower : Level} {ls : List Lexeme} {steps : List Step}
    {P : BinaryOp → Prop} (h : Follows g upper lower ls steps)
    (hP : ∀ s op, g.Between upper s op → P op) : ∀ step ∈ steps, P step.op := by
  induction h with
  | nil => exact fun step hstep => nomatch hstep
  | cons hop _ _ ih => exact List.forall_mem_cons.mpr ⟨hP _ _ hop, ih⟩

/-! ## Chains of comparisons -/

theorem Grammar.over_comparison : g.Over .comparison (g.below .comparison) :=
  over_below trivial Level.noConfusion

theorem derives_operand (id : String) (pos : Nat) :
    Derives g (.level (g.below .comparison)) [⟨.name id, pos⟩] (.name id pos) :=
  Derives.ofIndexed (.primary (.name id pos)) (Grammar.has_below trivial)

/-- An operand between two others stands in both comparisons. -/
theorem Derives.between {ls₁ ls₂ ls₃ : List Lexeme} {e₁ e₂ e₃ : Expr}
    (h₁ : Derives g (.level (g.below .comparison)) ls₁ e₁)
    (h₂ : Derives g (.level (g.below .comparison)) ls₂ e₂)
    (h₃ : Derives g (.level (g.below .comparison)) ls₃ e₃) (pos pos' : Nat) :
    Derives g (.chain e₃) (ls₁ ++ ⟨.symbol .less, pos⟩ :: ls₂ ++ ⟨.symbol .less, pos'⟩ :: ls₃)
      (.binary .bitAnd (.binary .less e₁ e₂ pos) (.binary .less e₂ e₃ pos') pos') :=
  .extend Grammar.over_comparison .less (.compare Grammar.over_comparison .less h₁ h₂) h₃

theorem ofText_of_chain {source : String} {ls : List Lexeme} {last e : Expr}
    (hls : Lexeme.ofText source = .ok ls) (h : Derives g (.chain last) ls e) :
    ofText g source = .ok e :=
  ofText_of_derives hls
    ((Derives.chain h).loosen trivial trivial (Grammar.rank_le_disjunction _))

end Formula
