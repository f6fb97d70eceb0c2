import Formula.Proofs.Lexing.Texts
import Formula.Proofs.Reading.Correspondence
import Formula.Proofs.Reading.Soundness

/-! # What the grammars share

Without the tokens that the two grammars treat differently a text is read alike in both, on texts
that are no expressions as well. -/

namespace Formula

/-! ## Tokens -/

/-- The symbols that the grammars treat differently. -/
def Symbol.disputed : List Symbol := [.and, .or, .not, .ampersand, .bar, .floorDivide]

/-- Both grammars treat the token alike. -/
def Token.IsShared (t : Token) : Prop := ∀ s ∈ Symbol.disputed, t ≠ .symbol s

theorem Token.IsShared.not_mem_disputed {s : Symbol} (h : (symbol s).IsShared) :
    s ∉ Symbol.disputed :=
  fun hs => h s hs rfl

theorem Grammar.samePart_of_not_disputed {s : Symbol} (h : s ∉ Symbol.disputed) :
    Grammar.extended.SamePart .strict s s where
  prefixOp? level := by
    cases s <;> first | exact absurd (by decide) h | (cases level <;> rfl)
  infixOp? level := by
    cases s <;> first | exact absurd (by decide) h | (cases level <;> rfl)
  supports := by
    refine .inr fun op hop => ?_
    cases s <;> first | exact absurd (by decide) h | (cases hop; decide) | cases hop
  mark _ _ := Iff.rfl

theorem Token.IsShared.like {t : Token} (h : t.IsShared) : t.Like .extended .strict t := by
  cases t with
  | symbol s => exact .symbol (Grammar.samePart_of_not_disputed h.not_mem_disputed)
  | _ => exact .same fun s => Token.noConfusion

theorem infixOp?_bitwise {t : Token} (h : t.IsShared) :
    Grammar.strict.infixOp? .bitOr t = none ∧ Grammar.strict.infixOp? .bitAnd t = none := by
  cases t with
  | symbol s =>
      have hs := h.not_mem_disputed
      cases s <;> first | exact absurd (by decide) hs | exact ⟨rfl, rfl⟩
  | _ => exact ⟨rfl, rfl⟩

/-- The tokens are the same and both grammars treat them alike. -/
def Token.Shared (t t' : Token) : Prop := t.IsShared ∧ t = t'

theorem corresponds_iff {l l' : Lexeme} :
    l.Corresponds Token.Shared id l' ↔ l.token.IsShared ∧ l = l' := by
  constructor
  · rintro ⟨⟨hshared, htoken⟩, hpos⟩
    refine ⟨hshared, ?_⟩
    rw [Lexeme.mk.injEq]
    exact ⟨htoken, hpos.symm⟩
  · rintro ⟨hshared, rfl⟩
    exact ⟨⟨hshared, rfl⟩, rfl⟩

theorem forall₂_corresponds_iff {ls ls' : List Lexeme} :
    ls.Forall₂ (Lexeme.Corresponds Token.Shared id) ls' ↔
      (∀ l ∈ ls, l.token.IsShared) ∧ ls = ls' := by
  have hsame : Lexeme.Corresponds Token.Shared id = fun l l' => l.token.IsShared ∧ l = l' := by
    funext l l'
    exact propext corresponds_iff
  rw [hsame, List.forall₂_and_left, List.forall₂_eq_eq_eq]

/-- Alike results over shared tokens are the same. -/
theorem Alike.eq_of_shared {x x' : Except SyntaxError (Expr × List Lexeme)}
    (h : Alike Token.Shared id (Expr.relocate id) x x') : x' = x := by
  cases h with
  | ok e hrest => rw [Expr.relocate_id, (forall₂_corresponds_iff.mp hrest).2]
  | error h =>
      cases h with
      | located pos h =>
          cases h with
          | same fault => rfl
          | unexpected h | unexpectedInList h | trailing h => rw [h.2, id]

namespace Expr

/-! ## Levels without operators -/

variable {g : Grammar} {stop : Nat}

/-- A level none of whose operators is among the lexemes reads what the level below it reads. -/
theorem read_eq_below {level : Level} {ls : List Lexeme} (hlevel : g.Has level)
    (hne : level ≠ .power) (hunary : ¬ level.isPrefix = true)
    (h : ∀ l ∈ ls, g.infixOp? level l.token = none) :
    read g stop level ls = read g stop (g.below level) ls := by
  rw [read_binary g stop hne hunary]
  cases hread : read g stop (g.below level) ls with
  | error e => rfl
  | ok taken =>
      obtain ⟨first, after⟩ := taken
      have hsteps : readSteps g stop level after = .ok ([], after) := by
        obtain ⟨used, rfl, -⟩ := derives_of_read (Grammar.has_below hlevel) hread
        cases after with
        | nil => exact readSteps_nil g stop level
        | cons l after => exact readSteps_none g stop (h l List.mem_append_cons_self)
      simp only [ok_bind, hsteps, join_nil]
      rfl

theorem read_bitOr_eq_additive {ls : List Lexeme} (h : ∀ l ∈ ls, l.token.IsShared) :
    read .strict stop .bitOr ls = read .strict stop .additive ls := by
  have hbitOr : Grammar.strict.Has .bitOr := rfl
  have hbitAnd : Grammar.strict.Has .bitAnd := rfl
  calc
    _ = read .strict stop .bitAnd ls :=
      read_eq_below hbitOr Level.noConfusion Bool.false_ne_true
        fun l hl => (infixOp?_bitwise (h l hl)).1
    _ = read .strict stop .additive ls :=
      read_eq_below hbitAnd Level.noConfusion Bool.false_ne_true
        fun l hl => (infixOp?_bitwise (h l hl)).2

theorem correspondence_shared (stop : Nat) :
    Correspondence .extended .strict Token.Shared id stop where
  like := by
    rintro t _ ⟨h, rfl⟩
    exact h.like
  below level ls ls' h := by
    obtain ⟨hshared, rfl⟩ := forall₂_corresponds_iff.mp h
    cases level with
    | comparison => exact read_bitOr_eq_additive hshared
    | _ => rfl

/-- The grammars read a text alike, into the same tree or with the same error, when it has none of
the tokens that they treat differently. -/
theorem ofText_strict_eq_extended {source : String}
    (h : ∀ ls, Lexeme.ofText source = .ok ls → ∀ l ∈ ls, l.token.IsShared) :
    Expr.ofText .strict source = Expr.ofText .extended source := by
  rw [Expr.ofText, Expr.ofText]
  split
  · rfl
  · cases hls : Lexeme.ofText source with
    | error e => rfl
    | ok ls =>
        obtain ⟨hread, -⟩ := readers_alike (correspondence_shared source.utf8ByteSize)
        have halike := hread .disjunction ls ls (forall₂_corresponds_iff.mpr ⟨h ls hls, rfl⟩)
        have hsame : read .strict source.utf8ByteSize .disjunction ls =
            read .extended source.utf8ByteSize .disjunction ls := halike.eq_of_shared
        simp only [ok_bind, ofLexemes_eq_read, hsame]

/-- A chain of comparisons and what is left over behind it. -/
theorem ofText_strict_eq_extended_chain :
    (∀ ls, Lexeme.ofText "-a[0] < b <= 2 ** c = 1" = .ok ls → ∀ l ∈ ls, l.token.IsShared) ∧
      Expr.ofText .strict "-a[0] < b <= 2 ** c = 1" =
        Expr.ofText .extended "-a[0] < b <= 2 ** c = 1" := by
  have hls : Lexeme.ofText "-a[0] < b <= 2 ** c = 1" = .ok [⟨.symbol .minus, 0⟩, ⟨.name "a", 1⟩,
      ⟨.symbol .openBracket, 2⟩, ⟨.integer (some 0), 3⟩, ⟨.symbol .closeBracket, 4⟩,
      ⟨.symbol .less, 6⟩, ⟨.name "b", 8⟩, ⟨.symbol .lessEqual, 10⟩, ⟨.integer (some 2), 13⟩,
      ⟨.symbol .power, 15⟩, ⟨.name "c", 18⟩, ⟨.symbol .assign, 20⟩,
      ⟨.integer (some 1), 22⟩] := by
    rw [Lexeme.ofText_eq_readWithin]
    rfl
  have hshared : ∀ ls, Lexeme.ofText "-a[0] < b <= 2 ** c = 1" = .ok ls →
      ∀ l ∈ ls, l.token.IsShared := by
    intro ls h
    rw [hls] at h
    cases h
    unfold Token.IsShared
    decide
  exact ⟨hshared, ofText_strict_eq_extended hshared⟩

end Expr

end Formula
