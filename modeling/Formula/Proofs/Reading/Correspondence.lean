import Formula.Proofs.Reading.Equations
import Formula.Proofs.Reading.Relocation
import Formula.Proofs.Reading.Tables
import Mathlib.Data.List.Forall2

/-! # Corresponding readings

Two runs of the readers, on lexemes that correspond one by one, give corresponding results: trees
that are the same once positions are moved, or errors of the same kind at corresponding
positions. -/

namespace Formula

/-! ## Lexemes -/

/-- The symbols that the readers look for by themselves and not through a grammar. -/
def Symbol.isMark : Symbol → Bool
  | openParen | closeParen | openBracket | closeBracket | comma | power | assign | semicolon => true
  | _ => false

/-- One symbol plays in the grammar `g` the part that the other plays in `g'`. -/
structure Grammar.SamePart (g g' : Grammar) (s s' : Symbol) : Prop where
  prefixOp? : ∀ level, g'.prefixOp? level (.symbol s') = g.prefixOp? level (.symbol s)
  infixOp? : ∀ level, g'.infixOp? level (.symbol s') = g.infixOp? level (.symbol s)
  supports : g' = g ∨ ∀ op, g.binaryOp? s = some op → g.supports op = true ∧ g'.supports op = true
  mark : ∀ mark : Symbol, mark.isMark = true → (s' = mark ↔ s = mark)

theorem Grammar.SamePart.refl (g : Grammar) (s : Symbol) : g.SamePart g s s where
  prefixOp? _ := rfl
  infixOp? _ := rfl
  supports := .inl rfl
  mark _ _ := Iff.rfl

/-- One token is in the grammar `g` what the other is in `g'`. -/
inductive Token.Like (g g' : Grammar) : Token → Token → Prop where
  | same {t : Token} (h : ∀ s, t ≠ .symbol s) : Like g g' t t
  | symbol {s s' : Symbol} (h : g.SamePart g' s s') : Like g g' (.symbol s) (.symbol s')

namespace Token

theorem isStatement_symbol (s : Symbol) :
    (symbol s).isStatement = decide (s = .assign ∨ s = .semicolon) := by
  cases s <;> rfl

namespace Like

variable {g g' : Grammar} {t t' : Token}

theorem refl (g : Grammar) (t : Token) : t.Like g g t := by
  cases t with
  | symbol s => exact .symbol (.refl g s)
  | _ => exact .same nofun

theorem mark (h : t.Like g g' t') {s : Symbol} (hs : s.isMark = true) :
    t' = .symbol s ↔ t = .symbol s := by
  cases h with
  | same => rfl
  | symbol hpart => rw [symbol.injEq, symbol.injEq, hpart.mark s hs]

theorem isStatement (h : t.Like g g' t') : t'.isStatement = t.isStatement := by
  cases h with
  | same => rfl
  | symbol hpart =>
      rw [isStatement_symbol, isStatement_symbol, decide_eq_decide, hpart.mark .assign rfl,
        hpart.mark .semicolon rfl]

theorem prefixOp? (h : t.Like g g' t') (level : Level) :
    g'.prefixOp? level t' = g.prefixOp? level t := by
  cases h with
  | same hsymbol =>
      rw [Grammar.prefixOp?_of_not_symbol hsymbol, Grammar.prefixOp?_of_not_symbol hsymbol]
  | symbol hpart => exact hpart.prefixOp? level

theorem infixOp? (h : t.Like g g' t') (level : Level) :
    g'.infixOp? level t' = g.infixOp? level t := by
  cases h with
  | same hsymbol =>
      cases t with
      | symbol s => exact absurd rfl (hsymbol s)
      | _ => rfl
  | symbol hpart => exact hpart.infixOp? level

/-- An operator that only one of the grammars supports spells no such token. -/
theorem supports (h : t.Like g g' t') {level : Level} {op : BinaryOp}
    (hop : g.infixOp? level t = some op) :
    g' = g ∨ g.supports op = true ∧ g'.supports op = true := by
  obtain ⟨htoken, -⟩ := Option.filter_eq_some_iff.mp hop
  cases h with
  | same hsymbol =>
      cases t with
      | symbol s => exact absurd rfl (hsymbol s)
      | _ => cases htoken
  | symbol hpart => exact hpart.supports.imp_right fun h => h op htoken

end Like

end Token

/-- The tokens of the lexemes are related, and the position of one is that of the other, moved. -/
structure Lexeme.Corresponds (related : Token → Token → Prop) (move : Nat → Nat)
    (l l' : Lexeme) : Prop where
  token : related l.token l'.token
  pos : l'.pos = move l.pos

/-! ## Results -/

section Results

variable (related : Token → Token → Prop) (move : Nat → Nat)

/-- The faults are the same, except that the tokens they show may only be related. -/
inductive SyntaxFault.Like : SyntaxFault → SyntaxFault → Prop where
  | same (fault : SyntaxFault) : Like fault fault
  | unexpected {t t' : Token} (h : related t t') : Like (.unexpected t) (.unexpected t')
  | unexpectedInList {t t' : Token} (h : related t t') :
      Like (.unexpectedInList t) (.unexpectedInList t')
  | trailing {t t' : Token} (h : related t t') : Like (.trailing t) (.trailing t')

inductive SyntaxError.Like : SyntaxError → SyntaxError → Prop where
  | located {fault fault' : SyntaxFault} (pos : Nat) (h : fault.Like related fault') :
      Like (.located fault pos) (.located fault' (move pos))

/-- The results are corresponding errors, or else values with what is left over, the lexemes left
over corresponding and one value made of the other by `f`. -/
inductive Alike {α : Type} (f : α → α) :
    Except SyntaxError (α × List Lexeme) → Except SyntaxError (α × List Lexeme) → Prop where
  | ok (a : α) {rest rest' : List Lexeme}
      (hrest : rest.Forall₂ (Lexeme.Corresponds related move) rest') :
      Alike f (.ok (a, rest)) (.ok (f a, rest'))
  | error {e e' : SyntaxError} (h : e.Like related move e') : Alike f (.error e) (.error e')

end Results

/-- The outcomes for all lexemes are corresponding errors, or else the same expression with its
positions moved. -/
inductive AlikeAll (related : Token → Token → Prop) (move : Nat → Nat) :
    Except SyntaxError Expr → Except SyntaxError Expr → Prop where
  | ok (e : Expr) : AlikeAll related move (.ok e) (.ok (e.relocate move))
  | error {e e' : SyntaxError} (h : e.Like related move e') :
      AlikeAll related move (.error e) (.error e')

variable {related : Token → Token → Prop} {move : Nat → Nat}

/-- Results stay alike when what is done next with values is alike. -/
theorem Alike.bind {α β : Type} {f : α → α} {f' : β → β}
    {x x' : Except SyntaxError (α × List Lexeme)}
    {k k' : α × List Lexeme → Except SyntaxError (β × List Lexeme)}
    (h : Alike related move f x x')
    (hnext : ∀ a rest rest', x = .ok (a, rest) →
      rest.Forall₂ (Lexeme.Corresponds related move) rest' →
        Alike related move f' (k (a, rest)) (k' (f a, rest'))) :
    Alike related move f' (x >>= k) (x' >>= k') := by
  cases h with
  | ok a hrest => exact hnext a _ _ rfl hrest
  | error h => exact .error h

/-- The relation tells nothing apart that the readers in `g` and those in `g'` treat differently,
and the operands that they descend to are read alike. -/
structure Correspondence (g g' : Grammar) (related : Token → Token → Prop) (move : Nat → Nat)
    (stop : Nat) : Prop where
  like : ∀ t t', related t t' → t.Like g g' t'
  below : ∀ (level : Level) (ls ls' : List Lexeme),
    ls.Forall₂ (Lexeme.Corresponds related move) ls' →
      Expr.read g' stop (g'.below level) ls' = Expr.read g' stop (g.below level) ls'

namespace Lexeme

variable {g g' : Grammar} {l l' : Lexeme} {ls ls' : List Lexeme}

theorem leftover_of_not_isStatement (h : l.token.isStatement = false) :
    l.leftover = .located (.trailing l.token) l.pos := by
  obtain ⟨token, pos⟩ := l
  cases token with
  | update op => cases h
  | symbol s => cases s <;> first | rfl | cases h
  | _ => rfl

theorem brokenList_like (stop : Nat) (h : ls.Forall₂ (Corresponds related move) ls') :
    (brokenList stop ls).Like related move (brokenList (move stop) ls') := by
  cases h with
  | nil => exact .located stop (.same _)
  | cons hl _ =>
      rw [brokenList, brokenList, hl.pos]
      exact .located _ (.unexpectedInList hl.token)

section Like

variable (hlike : ∀ t t', related t t' → t.Like g g' t')
include hlike

theorem expect?_alike {s : Symbol}
    (hs : s.isMark = true) (h : ls.Forall₂ (Corresponds related move) ls') :
    expect? s ls = none ∧ expect? s ls' = none ∨
      ∃ pos rest rest', expect? s ls = some (pos, rest) ∧ expect? s ls' = some (move pos, rest') ∧
        rest.Forall₂ (Corresponds related move) rest' := by
  cases h with
  | nil => exact .inl ⟨rfl, rfl⟩
  | @cons l l' rest rest' hl hrest =>
      obtain ⟨token, pos⟩ := l
      obtain ⟨token', pos'⟩ := l'
      obtain ⟨htoken, rfl⟩ := hl
      have hmark := (hlike _ _ htoken).mark hs
      by_cases hsymbol : token = .symbol s
      · exact .inr ⟨pos, rest, rest', if_pos hsymbol, if_pos (hmark.mpr hsymbol), hrest⟩
      · exact .inl ⟨if_neg hsymbol, if_neg (mt hmark.mp hsymbol)⟩

theorem leaf?_alike (h : l.Corresponds related move l') :
    l.leaf? = none ∧ l'.leaf? = none ∨
      ∃ leaf leaf', l.leaf? = some leaf ∧ l'.leaf? = some leaf' ∧
        ∀ rest rest', rest.Forall₂ (Corresponds related move) rest' →
          Alike related move (Expr.relocate move) (do return (← leaf, rest))
            (do return (← leaf', rest')) := by
  obtain ⟨token, pos⟩ := l
  obtain ⟨token', pos'⟩ := l'
  obtain ⟨htoken, rfl⟩ := h
  cases hlike _ _ htoken with
  | symbol => exact .inl ⟨rfl, rfl⟩
  | same hsymbol =>
      cases token with
      | symbol s => exact absurd rfl (hsymbol s)
      | update op => exact .inl ⟨rfl, rfl⟩
      | integer n =>
          cases n with
          | none => exact .inr ⟨_, _, rfl, rfl, fun _ _ _ => .error (.located pos (.same _))⟩
          | some n =>
              exact .inr ⟨_, _, rfl, rfl, fun _ _ => .ok (Expr.literal (.integer n) pos)⟩
      | real x => exact .inr ⟨_, _, rfl, rfl, fun _ _ => .ok (Expr.literal (.real x) pos)⟩
      | bool b => exact .inr ⟨_, _, rfl, rfl, fun _ _ => .ok (Expr.literal (.bool b) pos)⟩
      | text s => exact .inr ⟨_, _, rfl, rfl, fun _ _ => .ok (Expr.literal (.text s) pos)⟩
      | name id => exact .inr ⟨_, _, rfl, rfl, fun _ _ => .ok (Expr.name id pos)⟩

theorem leftover_like (h : l.Corresponds related move l') :
    l.leftover.Like related move l'.leftover := by
  cases hstatement : l.token.isStatement with
  | false =>
      rw [leftover_of_not_isStatement hstatement,
        leftover_of_not_isStatement ((hlike _ _ h.token).isStatement.trans hstatement), h.pos]
      exact .located _ (.trailing h.token)
  | true =>
      obtain ⟨token, pos⟩ := l
      obtain ⟨token', pos'⟩ := l'
      obtain ⟨htoken, rfl⟩ := h
      cases hlike _ _ htoken with
      | same hsymbol =>
          cases token with
          | update op => exact .located pos (.same .assignment)
          | symbol s => exact absurd rfl (hsymbol s)
          | _ => cases hstatement
      | @symbol s s' hpart =>
          rw [Token.isStatement_symbol, decide_eq_true_eq] at hstatement
          rcases hstatement with rfl | rfl
          · rw [(hpart.mark .assign rfl).mpr rfl]
            exact .located pos (.same .assignment)
          · rw [(hpart.mark .semicolon rfl).mpr rfl]
            exact .located pos (.same .statement)

theorem unexpected_like (h : l.Corresponds related move l') :
    l.unexpected.Like related move l'.unexpected := by
  rw [unexpected, unexpected, (hlike _ _ h.token).isStatement]
  split
  · exact leftover_like hlike h
  · rw [h.pos]
    exact .located _ (.unexpected h.token)

theorem unclosedParen_like (pos : Nat) (h : ls.Forall₂ (Corresponds related move) ls') :
    (unclosedParen pos ls).Like related move (unclosedParen (move pos) ls') := by
  cases h with
  | nil => exact .located pos (.same _)
  | cons hl _ =>
      rw [unclosedParen, unclosedParen, (hlike _ _ hl.token).isStatement]
      split
      · exact leftover_like hlike hl
      · exact .located pos (.same _)

end Like

end Lexeme

namespace Expr

/-! ## Readers -/

section Motives

variable (g g' : Grammar) (related : Token → Token → Prop) (move : Nat → Nat) (stop : Nat)

/-- Corresponding lexemes are read alike at the level. -/
def ReadAlike (level : Level) (ls : List Lexeme) : Prop :=
  ∀ ls', ls.Forall₂ (Lexeme.Corresponds related move) ls' →
    Alike related move (relocate move) (read g stop level ls) (read g' (move stop) level ls')

def StepsAlike (level : Level) (ls : List Lexeme) : Prop :=
  ∀ ls', ls.Forall₂ (Lexeme.Corresponds related move) ls' →
    Alike related move (List.map (Step.relocate move)) (readSteps g stop level ls)
      (readSteps g' (move stop) level ls')

def PrimaryAlike (ls : List Lexeme) : Prop :=
  ∀ ls', ls.Forall₂ (Lexeme.Corresponds related move) ls' →
    Alike related move (relocate move) (readPrimary g stop ls) (readPrimary g' (move stop) ls')

def IndicesAlike (ls : List Lexeme) : Prop :=
  ∀ ls', ls.Forall₂ (Lexeme.Corresponds related move) ls' →
    Alike related move (List.map (Prod.map move (relocate move))) (readIndices g stop ls)
      (readIndices g' (move stop) ls')

def ElementsAlike (ls : List Lexeme) : Prop :=
  ∀ ls', ls.Forall₂ (Lexeme.Corresponds related move) ls' →
    Alike related move (relocateItems move) (readElements g stop ls)
      (readElements g' (move stop) ls')

end Motives

variable {g g' : Grammar} {stop : Nat} {level : Level} {l : Lexeme} {ls : List Lexeme}

section Like

variable (hlike : ∀ t t', related t t' → t.Like g g' t')
include hlike

theorem readAlike_power (hprimary : PrimaryAlike g g' related move stop ls)
    (hindices : ∀ afterBase : List Lexeme, afterBase.length < ls.length →
      IndicesAlike g g' related move stop afterBase)
    (hexponent : ∀ afterBase : List Lexeme, afterBase.length < ls.length →
      ∀ afterIndices : List Lexeme, afterIndices.length ≤ afterBase.length → ∀ pos rest,
      Lexeme.expect? .power afterIndices = some (pos, rest) →
        ReadAlike g g' related move stop .signed rest) :
    ReadAlike g g' related move stop .power ls := by
  intro ls' hls
  rw [read_power, read_power]
  refine (hprimary ls' hls).bind fun base afterBase afterBase' hbase hafter => ?_
  have hshorter := length_of_readPrimary g stop hbase
  refine (hindices afterBase hshorter afterBase' hafter).bind
    fun indices afterIndices afterIndices' hpeel hafter => ?_
  have hnotLonger := length_of_readIndices g stop hpeel
  simp only [applyIndices_relocate]
  rcases Lexeme.expect?_alike hlike (s := .power) rfl hafter with
    ⟨hnone, hnone'⟩ | ⟨pos, rest, rest', hsome, hsome', hrest⟩
  · simp only [hnone, hnone']
    exact .ok _ hafter
  · simp only [hsome, hsome']
    refine (hexponent _ hshorter _ hnotLonger pos rest hsome rest' hrest).bind
      fun exponent after after' _ hafter => ?_
    exact .ok (binary .pow (applyIndices base indices) exponent pos) hafter

theorem readAlike_unary {op : UnaryOp} (hne : level ≠ .power)
    (hunary : level.isPrefix = true) (hop : g.prefixOp? level l.token = some op)
    (ih : ReadAlike g g' related move stop level ls) :
    ReadAlike g g' related move stop level (l :: ls) := by
  rintro _ (⟨⟩ | @⟨_, l', _, ls', hl, hls⟩)
  have hop' := ((hlike _ _ hl.token).prefixOp? level).trans hop
  rw [read_prefix_some g stop hne hunary hop, read_prefix_some g' _ hne hunary hop', hl.pos]
  refine (ih ls' hls).bind fun operand after after' _ hafter => ?_
  exact .ok (unary op operand l.pos) hafter

theorem stepsAlike_unsupported {op : BinaryOp}
    (hop : g.infixOp? level l.token = some op) (hsupports : ¬ g.supports op = true) :
    StepsAlike g g' related move stop level (l :: ls) := by
  rintro _ (⟨⟩ | @⟨_, l', _, ls', hl, hls⟩)
  have htoken := hlike _ _ hl.token
  have hop' := (htoken.infixOp? level).trans hop
  rcases htoken.supports hop with rfl | ⟨hsupports', -⟩
  · rw [readSteps_some _ stop hop, if_neg hsupports, readSteps_some _ _ hop', if_neg hsupports,
      hl.pos]
    exact .error (.located l.pos (.same _))
  · exact absurd hsupports' hsupports

theorem indicesAlike_cons {afterOpen : List Lexeme} {pos : Nat}
    (hopen : Lexeme.expect? .openBracket ls = some (pos, afterOpen))
    (hsubscript : ReadAlike g g' related move stop .disjunction afterOpen)
    (hindices : ∀ afterIndex, afterIndex.length < afterOpen.length → ∀ close afterBracket,
      Lexeme.expect? .closeBracket afterIndex = some (close, afterBracket) →
      IndicesAlike g g' related move stop afterBracket) :
    IndicesAlike g g' related move stop ls := by
  intro ls' hls
  rcases Lexeme.expect?_alike hlike (s := .openBracket) rfl hls with
    ⟨hnone, -⟩ | ⟨_, _, afterOpen', hsome, hopen', hafterOpen⟩
  · rw [hopen] at hnone
    cases hnone
  rw [hopen] at hsome
  cases hsome
  rw [readIndices_some g stop hopen, readIndices_some g' _ hopen']
  refine (hsubscript afterOpen' hafterOpen).bind
    fun subscript afterIndex afterIndex' hread hafter => ?_
  have hshorter := length_of_read g stop hread
  rcases Lexeme.expect?_alike hlike (s := .closeBracket) rfl hafter with
    ⟨hnone, hnone'⟩ | ⟨close, afterBracket, afterBracket', hclose, hclose', hbracket⟩
  · simp only [hnone, hnone']
    exact .error (.located pos (.same _))
  · simp only [hclose, hclose']
    refine (hindices afterIndex hshorter close afterBracket hclose afterBracket' hbracket).bind
      fun indices after after' _ hafter => ?_
    exact .ok ((pos, subscript) :: indices) hafter

theorem primaryAlike_paren (hopen : l.token = .symbol .openParen)
    (hinner : ReadAlike g g' related move stop .disjunction ls) :
    PrimaryAlike g g' related move stop (l :: ls) := by
  rintro _ (⟨⟩ | @⟨_, l', _, ls', hl, hls⟩)
  have hopen' := ((hlike _ _ hl.token).mark (s := .openParen) rfl).mpr hopen
  rw [readPrimary_paren g stop hopen, readPrimary_paren g' _ hopen', hl.pos]
  refine (hinner ls' hls).bind fun inner afterInner afterInner' _ hafter => ?_
  rcases Lexeme.expect?_alike hlike (s := .closeParen) rfl hafter with
    ⟨hnone, hnone'⟩ | ⟨close, after, after', hclose, hclose', hafter⟩
  · simp only [hnone, hnone']
    exact .error (Lexeme.unclosedParen_like hlike l.pos hafter)
  · simp only [hclose, hclose']
    exact .ok inner hafter

theorem primaryAlike_bracket (hopen : l.token = .symbol .openBracket)
    (helements : Lexeme.expect? .closeBracket ls = none → ElementsAlike g g' related move stop ls) :
    PrimaryAlike g g' related move stop (l :: ls) := by
  rintro _ (⟨⟩ | @⟨_, l', _, ls', hl, hls⟩)
  have hopen' := ((hlike _ _ hl.token).mark (s := .openBracket) rfl).mpr hopen
  rw [readPrimary_bracket g stop hopen, readPrimary_bracket g' _ hopen', hl.pos]
  rcases Lexeme.expect?_alike hlike (s := .closeBracket) rfl hls with
    ⟨hnone, hnone'⟩ | ⟨close, after, after', hclose, hclose', hafter⟩
  · simp only [hnone, hnone']
    refine (helements hnone ls' hls).bind fun elements after after' _ hafter => ?_
    exact .ok (array elements l.pos) hafter
  · simp only [hclose, hclose']
    exact .ok (array [] l.pos) hafter

theorem elementsAlike (hfirst : ReadAlike g g' related move stop .disjunction ls)
    (hmore : ∀ afterFirst, afterFirst.length < ls.length → ∀ comma more,
      Lexeme.expect? .comma afterFirst = some (comma, more) →
        ElementsAlike g g' related move stop more) :
    ElementsAlike g g' related move stop ls := by
  intro ls' hls
  rw [readElements_eq, readElements_eq]
  refine (hfirst ls' hls).bind fun first afterFirst afterFirst' hread hafter => ?_
  have hshorter := length_of_read g stop hread
  have hrest : Alike related move (relocateItems move) (readMore g stop afterFirst)
      (readMore g' (move stop) afterFirst') := by
    unfold readMore
    rcases Lexeme.expect?_alike hlike (s := .comma) rfl hafter with
      ⟨hnone, hnone'⟩ | ⟨comma, more, more', hcomma, hcomma', hmore'⟩
    · simp only [hnone, hnone']
      rcases Lexeme.expect?_alike hlike (s := .closeBracket) rfl hafter with
        ⟨hnone, hnone'⟩ | ⟨close, after, after', hclose, hclose', hafter⟩
      · simp only [hnone, hnone']
        exact .error (Lexeme.brokenList_like stop hafter)
      · simp only [hclose, hclose']
        exact .ok ([] : List Expr) hafter
    · simp only [hcomma, hcomma']
      exact hmore afterFirst hshorter comma more hcomma more' hmore'
  refine hrest.bind fun elements after after' _ hafter => ?_
  exact .ok (first :: elements) hafter

end Like

section Correspondence

variable (h : Correspondence g g' related move (move stop))
include h

theorem readAlike_of_below
    (hread : read g stop level ls = read g stop (g.below level) ls)
    (hread' : ∀ ls', ls.Forall₂ (Lexeme.Corresponds related move) ls' →
      read g' (move stop) level ls' = read g' (move stop) (g'.below level) ls')
    (ih : ReadAlike g g' related move stop (g.below level) ls) :
    ReadAlike g g' related move stop level ls := by
  intro ls' hls
  rw [hread, hread' ls' hls, h.below level ls ls' hls]
  exact ih ls' hls

theorem readAlike_binary (hne : level ≠ .power) (hunary : ¬ level.isPrefix = true)
    (hfirst : ReadAlike g g' related move stop (g.below level) ls)
    (hsteps : ∀ afterFirst, afterFirst.length < ls.length →
      StepsAlike g g' related move stop level afterFirst) :
    ReadAlike g g' related move stop level ls := by
  intro ls' hls
  rw [read_binary g stop hne hunary, read_binary g' _ hne hunary, h.below level ls ls' hls]
  refine (hfirst ls' hls).bind fun first afterFirst afterFirst' hread hafter => ?_
  have hshorter := length_of_read g stop hread
  refine (hsteps afterFirst hshorter afterFirst' hafter).bind
    fun steps after after' _ hafter => ?_
  simp only [join_relocate]
  exact .ok _ hafter

theorem stepsAlike_cons {op : BinaryOp}
    (hop : g.infixOp? level l.token = some op) (hsupports : g.supports op = true)
    (hoperand : ReadAlike g g' related move stop (g.below level) ls)
    (hsteps : ∀ after, after.length < ls.length →
      StepsAlike g g' related move stop level after) :
    StepsAlike g g' related move stop level (l :: ls) := by
  rintro _ (⟨⟩ | @⟨_, l', _, ls', hl, hls⟩)
  have htoken := h.like _ _ hl.token
  have hop' := (htoken.infixOp? level).trans hop
  have hsupports' : g'.supports op = true := by
    rcases htoken.supports hop with rfl | ⟨-, hsupports'⟩
    · exact hsupports
    · exact hsupports'
  rw [readSteps_some g stop hop, if_pos hsupports, readSteps_some g' _ hop', if_pos hsupports',
    hl.pos, h.below level ls ls' hls]
  refine (hoperand ls' hls).bind fun operand afterOperand afterOperand' hread hafter => ?_
  have hshorter := length_of_read g stop hread
  refine (hsteps afterOperand hshorter afterOperand' hafter).bind
    fun steps after after' _ hafter => ?_
  exact .ok (⟨op, l.pos, operand⟩ :: steps) hafter

/-- Every reader reads corresponding lexemes alike. The induction is on the calls that the readers
make in the first run. -/
theorem readers_alike :
    (∀ level ls, ReadAlike g g' related move stop level ls) ∧
      (∀ level ls, StepsAlike g g' related move stop level ls) ∧
      (∀ ls, IndicesAlike g g' related move stop ls) ∧
      (∀ ls, PrimaryAlike g g' related move stop ls) ∧
      ∀ ls, ElementsAlike g g' related move stop ls := by
  apply take.mutual_induct g (ReadAlike g g' related move stop)
    (StepsAlike g g' related move stop) (IndicesAlike g g' related move stop)
    (PrimaryAlike g g' related move stop) (ElementsAlike g g' related move stop)
  case case1 =>
    intro ls hprimary hindices hexponent
    exact readAlike_power h.like hprimary hindices hexponent
  case case2 =>
    intro level hne hunary ih
    refine readAlike_of_below h (read_prefix_nil g stop hne hunary) ?_ ih
    rintro _ ⟨⟩
    exact read_prefix_nil g' _ hne hunary
  case case3 =>
    intro level hne hunary l ls hop ih
    refine readAlike_of_below h (read_prefix_none g stop hne hunary hop) ?_ ih
    rintro _ (⟨⟩ | ⟨hl, -⟩)
    exact read_prefix_none g' _ hne hunary (((h.like _ _ hl.token).prefixOp? level).trans hop)
  case case4 =>
    intro level hne hunary l ls op hop ih
    exact readAlike_unary h.like hne hunary hop ih
  case case5 =>
    intro level ls hne hunary hfirst hsteps
    exact readAlike_binary h hne hunary hfirst hsteps
  case case6 =>
    rintro level _ ⟨⟩
    rw [readSteps_nil, readSteps_nil]
    exact .ok [] .nil
  case case7 =>
    rintro level l ls hop _ (⟨⟩ | ⟨hl, hls⟩)
    rw [readSteps_none g stop hop,
      readSteps_none g' _ (((h.like _ _ hl.token).infixOp? level).trans hop)]
    exact .ok [] (.cons hl hls)
  case case8 =>
    intro level l ls op hop hsupports hoperand hsteps
    exact stepsAlike_cons h hop hsupports hoperand hsteps
  case case9 =>
    intro level l ls op hop hsupports
    exact stepsAlike_unsupported h.like hop hsupports
  case case10 =>
    intro ls hopen ls' hls
    rcases Lexeme.expect?_alike h.like (s := .openBracket) rfl hls with
      ⟨-, hopen'⟩ | ⟨pos, rest, rest', hsome, -⟩
    · rw [readIndices_none g stop hopen, readIndices_none g' _ hopen']
      exact .ok [] hls
    · rw [hopen] at hsome
      cases hsome
  case case11 =>
    intro ls pos afterOpen hopen _ hsubscript hindices
    exact indicesAlike_cons h.like hopen hsubscript hindices
  case case12 =>
    rintro _ ⟨⟩
    rw [readPrimary_nil, readPrimary_nil]
    exact .error (.located stop (.same _))
  case case13 =>
    rintro l ls leaf hleaf _ (⟨⟩ | ⟨hl, hls⟩)
    rcases Lexeme.leaf?_alike h.like hl with ⟨hnone, -⟩ | ⟨_, leaf', hsome, hleaf', halike⟩
    · rw [hleaf] at hnone
      cases hnone
    · rw [hleaf] at hsome
      cases hsome
      rw [readPrimary_leaf g stop hleaf, readPrimary_leaf g' _ hleaf']
      exact halike _ _ hls
  case case14 =>
    intro l ls _ hopen hinner
    exact primaryAlike_paren h.like hopen hinner
  case case15 =>
    intro l ls _ _ hopen close after hclose _
    refine primaryAlike_bracket h.like hopen fun hnone => ?_
    rw [hclose] at hnone
    cases hnone
  case case16 =>
    intro l ls _ _ hopen hclose helements
    exact primaryAlike_bracket h.like hopen fun _ => helements
  case case17 =>
    rintro l ls hleaf hparen hbracket _ (⟨⟩ | ⟨hl, hls⟩)
    rcases Lexeme.leaf?_alike h.like hl with ⟨-, hleaf'⟩ | ⟨leaf, leaf', hsome, -⟩
    · have htoken := h.like _ _ hl.token
      rw [readPrimary_unexpected g stop hleaf hparen hbracket,
        readPrimary_unexpected g' _ hleaf' (mt (htoken.mark rfl).mp hparen)
          (mt (htoken.mark rfl).mp hbracket)]
      exact .error (Lexeme.unexpected_like h.like hl)
    · rw [hleaf] at hsome
      cases hsome
  case case18 =>
    intro ls hfirst hmore
    exact elementsAlike h.like hfirst hmore

theorem readAll_alike {ls' : List Lexeme} (hls : ls.Forall₂ (Lexeme.Corresponds related move) ls') :
    AlikeAll related move (readAll g stop ls) (readAll g' (move stop) ls') := by
  obtain ⟨hread, -⟩ := readers_alike h
  have halike := hread .disjunction ls ls' hls
  unfold readAll
  generalize read g stop .disjunction ls = taken at halike ⊢
  generalize read g' (move stop) .disjunction ls' = taken' at halike ⊢
  cases halike with
  | error h => exact .error h
  | ok e hrest =>
      cases hrest with
      | nil => exact .ok e
      | cons hl _ => exact .error (Lexeme.leftover_like h.like hl)

end Correspondence

end Expr

end Formula
