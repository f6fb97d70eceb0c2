import Formula.Proofs.Reading.Equations
import Formula.Proofs.Reading.Tables

/-! # Soundness of the readers

What a reader returns is derived by the lexemes that it has used up. -/

namespace Formula.Expr

variable {g : Grammar} {stop : Nat}

theorem of_expect? {s : Symbol} {ls rest : List Lexeme} {pos : Nat}
    (h : Lexeme.expect? s ls = some (pos, rest)) : ls = ⟨.symbol s, pos⟩ :: rest := by
  cases ls with
  | nil => cases h
  | cons l ls =>
      obtain ⟨token, at_⟩ := l
      simp only [Lexeme.expect?] at h
      split at h
      · rename_i htoken
        cases h
        rw [htoken]
      · cases h

theorem derives_of_leaf? {l : Lexeme} {e : Expr} (h : l.leaf? = some (.ok e)) :
    Derives g .primary [l] e := by
  obtain ⟨token, pos⟩ := l
  cases token with
  | real x =>
      cases h
      exact .literal (.real x) pos
  | integer n =>
      cases n with
      | none => cases h
      | some n =>
          cases h
          exact .literal (.integer n) pos
  | bool b =>
      cases h
      exact .literal (.bool b) pos
  | text s =>
      cases h
      exact .literal (.text s) pos
  | name id =>
      cases h
      exact .name id pos
  | update op => cases h
  | symbol s => cases h

/-! ## Steps -/

/-- Lexemes that are operators of a level, each with the operand on its right. -/
inductive Follows (g : Grammar) (upper lower : Level) : List Lexeme → List Step → Prop where
  | nil : Follows g upper lower [] []
  | cons {s : Symbol} {op : BinaryOp} {pos : Nat} {rs ls : List Lexeme} {operand : Expr}
      {steps : List Step} (hop : g.Between upper s op)
      (hright : Derives g (.level lower) rs operand) (hsteps : Follows g upper lower ls steps) :
      Follows g upper lower (⟨.symbol s, pos⟩ :: (rs ++ ls)) (⟨op, pos, operand⟩ :: steps)

theorem Follows.joinLeft {upper lower : Level} {used ls : List Lexeme} {steps : List Step}
    {first : Expr} (h : Follows g upper lower ls steps) (hover : g.Over upper lower)
    (hlevel : upper ≠ .comparison) (hfirst : Derives g (.level upper) used first) :
    Derives g (.level upper) (used ++ ls) (Expr.joinLeft first steps) := by
  induction h generalizing used first with
  | nil =>
      rw [List.append_nil]
      exact hfirst
  | cons hop hright _ ih =>
      rw [← List.cons_append, ← List.append_assoc]
      exact ih (.binary hover hlevel hop hfirst hright)

/-- Comparisons after the first one extend the chain. -/
theorem Follows.extend {lower : Level} {used ls : List Lexeme} {steps : List Step}
    {chain last : Expr} (h : Follows g .comparison lower ls steps)
    (hover : g.Over .comparison lower) (hchain : Derives g (.chain last) used chain) :
    Derives g (.level .comparison) (used ++ ls)
      ((adjacent last steps).foldl (fun c next => binary .bitAnd c next next.pos) chain) := by
  induction h generalizing used chain last with
  | nil =>
      rw [List.append_nil]
      exact .chain hchain
  | cons hop hright _ ih =>
      rw [← List.cons_append, ← List.append_assoc]
      exact ih (.extend hover hop hchain hright)

theorem Follows.joinComparisons {lower : Level} {used ls : List Lexeme} {steps : List Step}
    {first : Expr} (h : Follows g .comparison lower ls steps)
    (hover : g.Over .comparison lower) (hfirst : Derives g (.level lower) used first) :
    Derives g (.level .comparison) (used ++ ls) (Expr.joinComparisons first steps) := by
  cases h with
  | nil =>
      rw [List.append_nil]
      exact .operand hover hfirst
  | cons hop hright hsteps =>
      rw [← List.cons_append, ← List.append_assoc]
      exact hsteps.extend hover (.compare hover hop hfirst hright)

theorem Follows.join {upper lower : Level} {used ls : List Lexeme} {steps : List Step}
    {first : Expr} (h : Follows g upper lower ls steps) (hover : g.Over upper lower)
    (hfirst : Derives g (.level lower) used first) :
    Derives g (.level upper) (used ++ ls) (Expr.join upper first steps) := by
  unfold Expr.join
  split
  · rename_i hlevel
    subst hlevel
    exact h.joinComparisons hover hfirst
  · rename_i hlevel
    exact h.joinLeft hover hlevel (.operand hover hfirst)

/-! ## Readers -/

section Motives

variable (g : Grammar) (stop : Nat)

/-- What the reader of a level returns can be derived at the level. -/
def ReadSound (level : Level) (ls : List Lexeme) : Prop :=
  g.Has level → ∀ e rest, read g stop level ls = .ok (e, rest) →
    ∃ used, ls = used ++ rest ∧ Derives g (.level level) used e

def StepsSound (level : Level) (ls : List Lexeme) : Prop :=
  g.Has level → ∀ steps rest, readSteps g stop level ls = .ok (steps, rest) →
    ∃ used, ls = used ++ rest ∧ Follows g level (g.below level) used steps

def PrimarySound (ls : List Lexeme) : Prop :=
  ∀ e rest, readPrimary g stop ls = .ok (e, rest) →
    ∃ used, ls = used ++ rest ∧ Derives g .primary used e

/-- The indices that are read can be applied to whatever they follow. -/
def IndicesSound (ls : List Lexeme) : Prop :=
  ∀ indices rest, readIndices g stop ls = .ok (indices, rest) →
    ∃ used, ls = used ++ rest ∧ ∀ left base, Derives g .indexed left base →
      Derives g .indexed (left ++ used) (applyIndices base indices)

/-- The elements that are read can begin an array or go on with one. -/
def ElementsSound (ls : List Lexeme) : Prop :=
  ∀ es rest, readElements g stop ls = .ok (es, rest) →
    ∃ used close, ls = used ++ ⟨.symbol .closeBracket, close⟩ :: rest ∧
      (∀ pos, Derives g .opened (⟨.symbol .openBracket, pos⟩ :: used) (.array es pos)) ∧
      ∀ left before pos comma, Derives g .opened left (.array before pos) →
        Derives g .opened (left ++ ⟨.symbol .comma, comma⟩ :: used) (.array (before ++ es) pos)

end Motives

theorem readSound_of_below {level : Level} {ls : List Lexeme} (hne : level ≠ .power)
    (hread : read g stop level ls = read g stop (g.below level) ls)
    (ih : ReadSound g stop (g.below level) ls) : ReadSound g stop level ls := by
  intro hlevel e rest h
  rw [hread] at h
  obtain ⟨used, hls, hderives⟩ := ih (Grammar.has_below hlevel) e rest h
  exact ⟨used, hls, .operand (Grammar.over_below hlevel hne) hderives⟩

theorem readSound_power {ls : List Lexeme} (hprimary : PrimarySound g stop ls)
    (hindices : ∀ afterBase : List Lexeme, afterBase.length < ls.length →
      IndicesSound g stop afterBase)
    (hexponent : ∀ afterBase : List Lexeme, afterBase.length < ls.length →
      ∀ afterIndices : List Lexeme, afterIndices.length ≤ afterBase.length → ∀ pos rest,
      Lexeme.expect? .power afterIndices = some (pos, rest) → ReadSound g stop .signed rest) :
    ReadSound g stop .power ls := by
  intro _ e rest h
  rw [read_power] at h
  obtain ⟨⟨base, afterBase⟩, hbase, hrest⟩ := bind_eq_ok.mp h
  obtain ⟨⟨indices, afterIndices⟩, hpeel, hresult⟩ := bind_eq_ok.mp hrest
  have hshorter := length_of_readPrimary g stop hbase
  obtain ⟨front, rfl, hfront⟩ := hprimary base afterBase hbase
  obtain ⟨used, rfl, hused⟩ := hindices afterBase hshorter indices afterIndices hpeel
  have hindexed := hused front base (.primary hfront)
  cases hpower : Lexeme.expect? .power afterIndices with
  | none =>
      simp only [hpower] at hresult
      cases hresult
      exact ⟨front ++ used, (List.append_assoc ..).symm, .base hindexed⟩
  | some power =>
      obtain ⟨pos, afterPower⟩ := power
      simp only [hpower] at hresult
      obtain ⟨⟨exponent, after⟩, hread, hfinal⟩ := bind_eq_ok.mp hresult
      cases hfinal
      obtain ⟨right, rfl, hright⟩ := hexponent _ hshorter afterIndices
        (length_of_readIndices g stop hpeel) pos afterPower hpower trivial exponent after hread
      refine ⟨front ++ used ++ ⟨.symbol .power, pos⟩ :: right, ?_, .power hindexed hright⟩
      rw [of_expect? hpower]
      simp only [List.append_assoc, List.cons_append]

theorem readSound_unary {level : Level} {l : Lexeme} {ls : List Lexeme} {op : UnaryOp}
    (hne : level ≠ .power) (hunary : level.isPrefix = true)
    (hop : g.prefixOp? level l.token = some op) (ih : ReadSound g stop level ls) :
    ReadSound g stop level (l :: ls) := by
  intro hlevel e rest h
  rw [read_prefix_some g stop hne hunary hop] at h
  obtain ⟨⟨operand, after⟩, hread, hrest⟩ := bind_eq_ok.mp h
  cases hrest
  obtain ⟨used, rfl, hused⟩ := ih hlevel _ _ hread
  obtain ⟨token, pos⟩ := l
  obtain ⟨s, rfl, hbefore⟩ := Grammar.before_of_prefixOp? hop
  exact ⟨⟨.symbol s, pos⟩ :: used, rfl, .unary hbefore hused⟩

theorem readSound_binary {level : Level} {ls : List Lexeme} (hne : level ≠ .power)
    (hunary : ¬ level.isPrefix = true) (hfirst : ReadSound g stop (g.below level) ls)
    (hsteps : ∀ afterFirst, afterFirst.length < ls.length → StepsSound g stop level afterFirst) :
    ReadSound g stop level ls := by
  intro hlevel e rest h
  rw [read_binary g stop hne hunary] at h
  obtain ⟨⟨first, afterFirst⟩, hread, hrest⟩ := bind_eq_ok.mp h
  obtain ⟨⟨steps, after⟩, hpeel, hresult⟩ := bind_eq_ok.mp hrest
  cases hresult
  have hshorter := length_of_read g stop hread
  obtain ⟨front, rfl, hfront⟩ := hfirst (Grammar.has_below hlevel) first afterFirst hread
  obtain ⟨used, rfl, hused⟩ := hsteps afterFirst hshorter hlevel steps rest hpeel
  exact ⟨front ++ used, (List.append_assoc ..).symm,
    hused.join (Grammar.over_below hlevel hne) hfront⟩

theorem stepsSound_cons {level : Level} {l : Lexeme} {ls : List Lexeme} {op : BinaryOp}
    (hop : g.infixOp? level l.token = some op) (hsupports : g.supports op = true)
    (hoperand : ReadSound g stop (g.below level) ls)
    (hsteps : ∀ after, after.length < ls.length → StepsSound g stop level after) :
    StepsSound g stop level (l :: ls) := by
  intro hlevel steps rest h
  rw [readSteps_some g stop hop, if_pos hsupports] at h
  obtain ⟨⟨operand, afterOperand⟩, hread, hrest⟩ := bind_eq_ok.mp h
  obtain ⟨⟨more, after⟩, hpeel, hresult⟩ := bind_eq_ok.mp hrest
  cases hresult
  have hshorter := length_of_read g stop hread
  obtain ⟨right, rfl, hright⟩ := hoperand (Grammar.has_below hlevel) operand afterOperand hread
  obtain ⟨used, rfl, hused⟩ := hsteps afterOperand hshorter hlevel more rest hpeel
  obtain ⟨token, pos⟩ := l
  obtain ⟨s, rfl, hbetween⟩ := Grammar.between_of_infixOp? hlevel hop hsupports
  refine ⟨⟨.symbol s, pos⟩ :: (right ++ used), ?_, .cons hbetween hright hused⟩
  rw [List.cons_append, List.append_assoc]

theorem indicesSound_cons {ls afterOpen : List Lexeme} {pos : Nat}
    (hopen : Lexeme.expect? .openBracket ls = some (pos, afterOpen))
    (hsubscript : ReadSound g stop .disjunction afterOpen)
    (hindices : ∀ afterIndex, afterIndex.length < afterOpen.length → ∀ close afterBracket,
      Lexeme.expect? .closeBracket afterIndex = some (close, afterBracket) →
      IndicesSound g stop afterBracket) :
    IndicesSound g stop ls := by
  intro indices rest h
  rw [readIndices_some g stop hopen] at h
  obtain ⟨⟨subscript, afterIndex⟩, hread, hrest⟩ := bind_eq_ok.mp h
  cases hclose : Lexeme.expect? .closeBracket afterIndex with
  | none =>
      simp only [hclose] at hrest
      cases hrest
  | some bracket =>
      obtain ⟨close, afterBracket⟩ := bracket
      simp only [hclose] at hrest
      obtain ⟨⟨more, after⟩, hpeel, hresult⟩ := bind_eq_ok.mp hrest
      cases hresult
      have hshorter := length_of_read g stop hread
      obtain ⟨inner, hinner, hderives⟩ := hsubscript trivial subscript afterIndex hread
      obtain ⟨used, hused, happly⟩ :=
        hindices afterIndex hshorter close afterBracket hclose _ _ hpeel
      refine ⟨⟨.symbol .openBracket, pos⟩ ::
        (inner ++ ⟨.symbol .closeBracket, close⟩ :: used), ?_, ?_⟩
      · rw [of_expect? hopen, hinner, of_expect? hclose, hused]
        simp only [List.append_assoc, List.cons_append]
      · intro left base hbase
        have hnext := happly (left ++ ⟨.symbol .openBracket, pos⟩ :: inner ++
          [⟨.symbol .closeBracket, close⟩]) _ (.index hbase hderives)
        simp only [List.append_assoc, List.cons_append, List.nil_append] at hnext
        exact hnext

theorem primarySound_paren {l : Lexeme} {ls : List Lexeme} (hopen : l.token = .symbol .openParen)
    (hinner : ReadSound g stop .disjunction ls) : PrimarySound g stop (l :: ls) := by
  intro e rest h
  rw [readPrimary_paren g stop hopen] at h
  obtain ⟨⟨inner, afterInner⟩, hread, hrest⟩ := bind_eq_ok.mp h
  cases hclose : Lexeme.expect? .closeParen afterInner with
  | none =>
      simp only [hclose] at hrest
      cases hrest
  | some paren =>
      obtain ⟨close, after⟩ := paren
      simp only [hclose] at hrest
      cases hrest
      obtain ⟨used, rfl, hused⟩ := hinner trivial e afterInner hread
      obtain ⟨token, pos⟩ := l
      cases hopen
      refine ⟨⟨.symbol .openParen, pos⟩ :: used ++ [⟨.symbol .closeParen, close⟩], ?_,
        .paren hused⟩
      rw [of_expect? hclose]
      simp only [List.append_assoc, List.cons_append, List.nil_append]

theorem primarySound_empty {l : Lexeme} {ls after : List Lexeme} {close : Nat}
    (hopen : l.token = .symbol .openBracket)
    (hclose : Lexeme.expect? .closeBracket ls = some (close, after)) :
    PrimarySound g stop (l :: ls) := by
  intro e rest h
  rw [readPrimary_bracket g stop hopen, hclose] at h
  cases h
  obtain ⟨token, pos⟩ := l
  cases hopen
  rw [of_expect? hclose]
  exact ⟨[_, _], rfl, .empty pos close⟩

theorem primarySound_array {l : Lexeme} {ls : List Lexeme}
    (hopen : l.token = .symbol .openBracket) (hclose : Lexeme.expect? .closeBracket ls = none)
    (helements : ElementsSound g stop ls) : PrimarySound g stop (l :: ls) := by
  intro e rest h
  rw [readPrimary_bracket g stop hopen, hclose] at h
  obtain ⟨⟨elements, after⟩, hread, hrest⟩ := bind_eq_ok.mp h
  cases hrest
  obtain ⟨token, pos⟩ := l
  cases hopen
  obtain ⟨used, close, rfl, hopened, -⟩ := helements elements rest hread
  refine ⟨⟨.symbol .openBracket, pos⟩ :: used ++ [⟨.symbol .closeBracket, close⟩], ?_,
    .array (hopened pos)⟩
  simp only [List.append_assoc, List.cons_append, List.nil_append]

theorem elementsSound {ls : List Lexeme} (hfirst : ReadSound g stop .disjunction ls)
    (hmore : ∀ afterFirst, afterFirst.length < ls.length → ∀ comma more,
      Lexeme.expect? .comma afterFirst = some (comma, more) → ElementsSound g stop more) :
    ElementsSound g stop ls := by
  intro es rest h
  rw [readElements_eq] at h
  obtain ⟨⟨first, afterFirst⟩, hread, hrest⟩ := bind_eq_ok.mp h
  obtain ⟨⟨more, after⟩, hrest, hresult⟩ := bind_eq_ok.mp hrest
  cases hresult
  have hshorter := length_of_read g stop hread
  obtain ⟨front, hfront, hderives⟩ := hfirst trivial first afterFirst hread
  unfold readMore at hrest
  cases hcomma : Lexeme.expect? .comma afterFirst with
  | some comma =>
      obtain ⟨comma, afterComma⟩ := comma
      simp only [hcomma] at hrest
      obtain ⟨used, close, hused, -, hgo⟩ :=
        hmore afterFirst hshorter comma afterComma hcomma more rest hrest
      refine ⟨front ++ ⟨.symbol .comma, comma⟩ :: used, close, ?_, ?_, ?_⟩
      · rw [hfront, of_expect? hcomma, hused]
        simp only [List.append_assoc, List.cons_append]
      · intro pos
        exact hgo _ [first] pos comma (.first hderives)
      · intro left before pos earlier hleft
        have hnext := hgo (left ++ ⟨.symbol .comma, earlier⟩ :: front) _ pos comma
          (.more hleft hderives)
        simp only [List.append_assoc, List.cons_append, List.nil_append] at hnext
        exact hnext
  | none =>
      simp only [hcomma] at hrest
      cases hclose : Lexeme.expect? .closeBracket afterFirst with
      | none =>
          simp only [hclose] at hrest
          cases hrest
      | some bracket =>
          obtain ⟨close, afterBracket⟩ := bracket
          simp only [hclose] at hrest
          cases hrest
          refine ⟨front, close, ?_, ?_, ?_⟩
          · rw [hfront, of_expect? hclose]
          · intro pos
            exact .first hderives
          · intro left before pos comma hleft
            exact .more hleft hderives

/-- Every reader is sound. The induction is on the calls that the readers make. -/
theorem readers_sound (g : Grammar) (stop : Nat) :
    (∀ level ls, ReadSound g stop level ls) ∧ (∀ level ls, StepsSound g stop level ls) ∧
      (∀ ls, IndicesSound g stop ls) ∧ (∀ ls, PrimarySound g stop ls) ∧
      ∀ ls, ElementsSound g stop ls := by
  apply take.mutual_induct g (ReadSound g stop) (StepsSound g stop) (IndicesSound g stop)
    (PrimarySound g stop) (ElementsSound g stop)
  case case1 =>
    intro ls hprimary hindices hexponent
    exact readSound_power hprimary hindices hexponent
  case case2 =>
    intro level hne hunary ih
    exact readSound_of_below hne (read_prefix_nil g stop hne hunary) ih
  case case3 =>
    intro level hne hunary l ls hop ih
    exact readSound_of_below hne (read_prefix_none g stop hne hunary hop) ih
  case case4 =>
    intro level hne hunary l ls op hop ih
    exact readSound_unary hne hunary hop ih
  case case5 =>
    intro level ls hne hunary hfirst hsteps
    exact readSound_binary hne hunary hfirst hsteps
  case case6 =>
    intro level _ steps rest h
    rw [readSteps_nil] at h
    cases h
    exact ⟨[], rfl, .nil⟩
  case case7 =>
    intro level l ls hop _ steps rest h
    rw [readSteps_none g stop hop] at h
    cases h
    exact ⟨[], rfl, .nil⟩
  case case8 =>
    intro level l ls op hop hsupports hoperand hsteps
    exact stepsSound_cons hop hsupports hoperand hsteps
  case case9 =>
    intro level l ls op hop hsupports _ steps rest h
    rw [readSteps_some g stop hop, if_neg hsupports] at h
    cases h
  case case10 =>
    intro ls hopen indices rest h
    rw [readIndices_none g stop hopen] at h
    cases h
    refine ⟨[], rfl, ?_⟩
    intro left base hbase
    rw [List.append_nil]
    exact hbase
  case case11 =>
    intro ls pos afterOpen hopen _ hsubscript hindices
    exact indicesSound_cons hopen hsubscript hindices
  case case12 =>
    intro e rest h
    rw [readPrimary_nil] at h
    cases h
  case case13 =>
    intro l ls leaf hleaf e rest h
    rw [readPrimary_leaf g stop hleaf] at h
    obtain ⟨value, hvalue, hresult⟩ := bind_eq_ok.mp h
    cases hresult
    rw [hvalue] at hleaf
    exact ⟨[l], rfl, derives_of_leaf? hleaf⟩
  case case14 =>
    intro l ls _ hopen hinner
    exact primarySound_paren hopen hinner
  case case15 =>
    intro l ls _ _ hopen close after hclose _
    exact primarySound_empty hopen hclose
  case case16 =>
    intro l ls _ _ hopen hclose helements
    exact primarySound_array hopen hclose helements
  case case17 =>
    intro l ls hleaf hparen hbracket e rest h
    rw [readPrimary_unexpected g stop hleaf hparen hbracket] at h
    cases h
  case case18 =>
    intro ls hfirst hmore
    exact elementsSound hfirst hmore

theorem derives_of_read {level : Level} {ls rest : List Lexeme} {e : Expr}
    (hlevel : g.Has level) (h : read g stop level ls = .ok (e, rest)) :
    ∃ used, ls = used ++ rest ∧ Derives g (.level level) used e :=
  (readers_sound g stop).1 level ls hlevel e rest h

end Formula.Expr
