import Formula.Proofs.Reading.Correctness
import Formula.Proofs.Rendering.Rereading
import Formula.Proofs.Rendering.Texts

/-! # Rendered expressions are read back

The text of a rendered expression is read as the expression, up to positions. -/

namespace Formula

variable {g : Grammar}

/-- The leaves that are read are legible, except that the texts of reals and the characters of texts
have to be asked for. -/
theorem legible_of_placed {pos : Nat} {cs : List Char} {ls : List Lexeme} {node : Expr}
    (hls : Lexeme.ofChars pos cs = .ok ls) (h : Placed g ls node)
    (htext : ∀ s pos', node = .literal (.text s) pos' → ∀ c ∈ s.toList, Token.Keeps c)
    (hreal : ∀ x pos', node = .literal (.real x) pos' →
      ∃ start, Lexeme.ofText (Written.literal x) = .ok [⟨.real x, start⟩]) : node.Legible := by
  cases h with
  | @literal value pos' hmem =>
      obtain ⟨c, rest, tail, hscan⟩ := Lexeme.scan?_of_mem hls hmem
      cases value with
      | integer n => exact Token.nonneg_of_scan? hscan
      | real x => exact hreal x pos' rfl
      | bool b => trivial
      | text s => exact htext s pos' rfl
  | name hmem =>
      obtain ⟨c, rest, tail, hscan⟩ := Lexeme.scan?_of_mem hls hmem
      exact Token.isName_of_scan? hscan
  | _ => trivial

/-- A rendered expression is read as the same expression up to positions, when its texts have only
characters that quoting and reading keep and its reals are written as they are read. What the
extended grammar reads, the strict one reads from the rendered text as well. -/
theorem Expr.ofText_render {g : Grammar} {source : String} {t : Expr}
    (h : Expr.ofText g source = .ok t)
    (htext : ∀ s pos, .literal (.text s) pos ∈ t.nodes → ∀ c ∈ s.toList, Token.Keeps c)
    (hreal : ∀ x pos, .literal (.real x) pos ∈ t.nodes →
      ∃ start, Lexeme.ofText (Written.literal x) = .ok [⟨.real x, start⟩]) :
    ∃ t', t'.unplaced = t.unplaced ∧ Expr.ofText g t.render = .ok t' ∧
      (g = .extended → Expr.ofText .strict t.render = .ok t') := by
  obtain ⟨-, ls, hls, hderives⟩ := ofText_eq_ok_iff.mp h
  have hlegible : t.AllLegible := by
    intro node hnode
    apply legible_of_placed hls (hderives.placed node hnode)
    · rintro s pos rfl
      exact htext s pos hnode
    · rintro x pos rfl
      exact hreal x pos hnode
  have hwritten : t.AllWritten g := hderives.placed.mono fun _ hnode => hnode.writes
  obtain ⟨hblank, rendered, hrendered, htokens⟩ := (spells_render hlegible).ofText
  obtain ⟨t', hsame, hreread⟩ := rereads t rendered htokens
  have hread : ∀ g' : Grammar, t.AllWritten g' → Expr.ofText g' t.render = .ok t' := by
    intro g' hg'
    have hlevel : g'.Has .disjunction := trivial
    exact ofText_eq_ok_iff.mpr ⟨hblank, rendered, hrendered, (hreread g' hg').ofIndexed hlevel⟩
  refine ⟨t', hsame, hread g hwritten, ?_⟩
  rintro rfl
  exact hread .strict (hwritten.mono fun _ hnode => hnode.strict)

/-- The tree of a comparison of a text that has an escape with a real, under a `not`. -/
def negatedComparison : Expr :=
  .unary .invert (.binary .less (.literal (.text "a\n") 4) (.literal (.real 1.5) 12) 10) 0

theorem ofText_negatedComparison :
    Expr.ofText .extended "not \"a\\n\" < 1.5" = .ok negatedComparison := by
  have hls : Lexeme.ofText "not \"a\\n\" < 1.5" =
      .ok [⟨.symbol .not, 0⟩, ⟨.text "a\n", 4⟩, ⟨.symbol .less, 10⟩, ⟨.real 1.5, 12⟩] := by
    rw [Lexeme.ofText_eq_readWithin]
    rfl
  have hleft : Derives .extended .indexed [⟨.text "a\n", 4⟩] (.literal (.text "a\n") 4) :=
    .primary (.literal (.text "a\n") 4)
  have hright : Derives .extended .indexed [⟨.real 1.5, 12⟩] (.literal (.real 1.5) 12) :=
    .primary (.literal (.real 1.5) 12)
  have hcomparison : Derives .extended (.level .comparison)
      [⟨.text "a\n", 4⟩, ⟨.symbol .less, 10⟩, ⟨.real 1.5, 12⟩]
      (.binary .less (.literal (.text "a\n") 4) (.literal (.real 1.5) 12) 10) :=
    .chain (.compare (.comparison rfl) .less (hleft.ofIndexed trivial) (hright.ofIndexed trivial))
  have hnegation : Derives .extended (.level .negation)
      [⟨.symbol .not, 0⟩, ⟨.text "a\n", 4⟩, ⟨.symbol .less, 10⟩, ⟨.real 1.5, 12⟩]
      negatedComparison :=
    .unary (.notElementwise rfl) (.operand .negation hcomparison)
  have hderives := Derives.operand .disjunction (.operand .conjunction hnegation)
  exact ofText_eq_ok_iff.mpr ⟨by decide, _, hls, hderives⟩

theorem ofText_render_negatedComparison :
    ∃ t', t'.unplaced = negatedComparison.unplaced ∧
      Expr.ofText .extended negatedComparison.render = .ok t' ∧
      Expr.ofText .strict negatedComparison.render = .ok t' := by
  have htext : ∀ s pos, .literal (.text s) pos ∈ negatedComparison.nodes →
      ∀ c ∈ s.toList, Token.Keeps c := by
    intro s pos hmem c hc
    simp only [negatedComparison, Expr.nodes, List.mem_cons, List.mem_append, List.not_mem_nil,
      reduceCtorEq, Expr.literal.injEq, Literal.text.injEq, false_and, or_false, false_or] at hmem
    obtain ⟨rfl, -⟩ := hmem
    have hchars : ("a\n").toList = ['a', '\n'] := rfl
    rw [hchars, List.mem_cons, List.mem_singleton] at hc
    rcases hc with rfl | rfl
    · exact .inl rfl
    · exact .inr (.inr (.inr (.inl rfl)))
  have hreal : ∀ x pos, .literal (.real x) pos ∈ negatedComparison.nodes →
      ∃ start, Lexeme.ofText (Written.literal x) = .ok [⟨.real x, start⟩] := by
    intro x pos hmem
    simp only [negatedComparison, Expr.nodes, List.mem_cons, List.mem_append, List.not_mem_nil,
      reduceCtorEq, Expr.literal.injEq, Literal.real.injEq, false_and, or_false, false_or] at hmem
    obtain ⟨rfl, -⟩ := hmem
    refine ⟨0, ?_⟩
    rw [Lexeme.ofText_eq_readWithin]
    rfl
  obtain ⟨t', hsame, hextended, hstrict⟩ :=
    Expr.ofText_render ofText_negatedComparison htext hreal
  exact ⟨t', hsame, hextended, hstrict rfl⟩

end Formula
