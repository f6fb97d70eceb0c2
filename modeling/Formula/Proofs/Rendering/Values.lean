import Formula.Expr.Eval
import Formula.Proofs.Reading.Completeness
import Formula.Proofs.Reading.Levels
import Formula.Proofs.Rendering.Rereading
import Formula.Proofs.Rendering.Texts

/-! # What values are shown as

A value of integers, booleans and arrays is shown as tokens that are read as an expression of the
value. Only the smallest integer is not: it is shown as a sign before a literal that is too
large. -/

namespace Formula

namespace Value

/-- The value is made of integers that have the property, booleans and arrays. -/
inductive BuiltFrom (P : Int64 → Prop) : Value → Prop where
  | integer {n : Int64} (h : P n) : BuiltFrom P (.integer n)
  | bool (b : Bool) : BuiltFrom P (.bool b)
  | array {items : List Value} (h : ∀ item ∈ items, BuiltFrom P item) : BuiltFrom P (.array items)

theorem builtFrom_integer {P : Int64 → Prop} {n : Int64} : BuiltFrom P (.integer n) ↔ P n :=
  ⟨fun | .integer h => h, .integer⟩

theorem builtFrom_array {P : Int64 → Prop} {items : List Value} :
    BuiltFrom P (.array items) ↔ ∀ item ∈ items, BuiltFrom P item :=
  ⟨fun | .array h => h, .array⟩

/-! ## Texts -/

mutual

/-- The tokens of what such a value is shown as. A negative integer is a sign and a literal. -/
def tokens : Value → List Token
  | integer n =>
    if n.toInt < 0 then [.symbol .minus, .integer (Integer.neg? n)] else [.integer (some n)]
  | bool b => [.bool b]
  | array [] => [.symbol .openBracket] ++ [.symbol .closeBracket]
  | array (item :: items) =>
    [.symbol .openBracket] ++ item.tokens ++ tokensMore items ++ [.symbol .closeBracket]
  | real _ | text _ => []

def tokensMore : List Value → List Token
  | [] => []
  | item :: items => [.symbol .comma] ++ item.tokens ++ tokensMore items

end

theorem tokensMore_eq (items : List Value) :
    tokensMore items = items.flatMap fun item => [.symbol .comma] ++ item.tokens := by
  induction items with
  | nil => rfl
  | cons item items ih => rw [tokensMore, List.flatMap_cons, ih]

theorem plainItems_eq (items : List Value) : plainItems items = items.map plain := by
  induction items with
  | nil => rfl
  | cons item items ih => rw [plainItems, List.map_cons, ih]

theorem toList_plain_array (item : Value) (items : List Value) :
    (array (item :: items)).plain.toList =
      ['['] ++ item.plain.toList ++ (items.flatMap fun next => [',', ' '] ++ next.plain.toList) ++
        [']'] := by
  rw [plain, String.toList_append, String.toList_append, String.toList_intercalate]
  have hcomma : (", ").toList = [',', ' '] := rfl
  rw [hcomma, plainItems_eq, List.map_map, intercalate_cons_eq, ← List.append_assoc]
  rfl

theorem spells_negative {n : Int64} (h : n.toInt < 0) :
    Spells (toString n.toInt).toList [.symbol .minus, .integer (Integer.neg? n)] := by
  obtain ⟨m, hm⟩ := Int.eq_negSucc_of_lt_zero h
  have hdigits := spells_digits (m + 1)
  have hsign := (lexes_unaryOp .negate).append hdigits.lexes fun rest _ => hdigits.head_append rest
  have htext : (toString n.toInt).toList = '-' :: Nat.toDigits 10 (m + 1) := by
    rw [hm]
    change ("-" ++ Nat.repr (m + 1)).toList = _
    rw [String.toList_append, Nat.toList_repr]
    rfl
  rw [htext, Integer.neg?, hm]
  exact spells_of_visible hsign (by decide) (by decide) (by decide)

theorem spells_plain {P : Int64 → Prop} {v : Value} (h : v.BuiltFrom P) :
    Spells v.plain.toList v.tokens := by
  induction h with
  | @integer n _ =>
      rw [tokens, plain]
      split
      · rename_i hsign
        exact spells_negative hsign
      · rename_i hsign
        exact spells_integer (Int.not_lt.mp hsign)
  | bool b =>
      have hlegible : (Literal.bool b).Legible := trivial
      exact spells_literal hlegible
  | @array items _ ih =>
      cases items with
      | nil => exact spells_brackets
      | cons item items =>
          rw [toList_plain_array, tokens, tokensMore_eq]
          exact spells_items ih

end Value

/-! ## Literals that are too large -/

/-- What is read before `rest` has the property `P` if `fits` holds, and otherwise the reader comes
to a literal that is too large among the lexemes that are used. -/
inductive Settles {α : Type} (fits : Prop) (P : α → Prop) (used rest : List Lexeme) :
    Except SyntaxError (α × List Lexeme) → Prop where
  | done {a : α} (hfits : fits) (h : P a) : Settles fits P used rest (.ok (a, rest))
  | tooLarge {pos : Nat} (hfits : ¬ fits) (hused : ⟨.integer none, pos⟩ ∈ used) :
      Settles fits P used rest (.error (.located .literalTooLarge pos))

theorem Settles.bind {α β : Type} {fits fits' : Prop} {P : α → Prop} {Q : β → Prop}
    {used used' rest rest' : List Lexeme} {x : Except SyntaxError (α × List Lexeme)}
    {k : α × List Lexeme → Except SyntaxError (β × List Lexeme)} (h : Settles fits P used rest x)
    (hfits : fits' → fits) (hused : used ⊆ used')
    (hnext : ∀ a, fits → P a → Settles fits' Q used' rest' (k (a, rest))) :
    Settles fits' Q used' rest' (x >>= k) := by
  cases h with
  | done h ha => exact hnext _ h ha
  | tooLarge h hmem => exact .tooLarge (mt hfits h) (hused hmem)

section

variable {g : Grammar} {stop : Nat} {fits : Prop} {P : Expr → Prop} {ls rest : List Lexeme}

open Formula.Expr

theorem Settles.loosen {level upper : Level}
    (h : Settles fits P ls rest (read g stop level (ls ++ rest))) (hlevel : g.Has level)
    (hupper : g.Has upper) (hle : level.rank ≤ upper.rank) (hbegins : Begins g level.rank ls)
    (hrest : g.Stops .disjunction rest) :
    Settles fits P ls rest (read g stop upper (ls ++ rest)) := by
  refine Grammar.climb
    (motive := fun upper => Settles fits P ls rest (read g stop upper (ls ++ rest)))
    hlevel hupper hle h ?_
  intro upper lower hover hle hlower
  rw [← hover.below_eq] at hlower
  by_cases hprefix : upper.isPrefix = true
  · obtain ⟨l, tail, rfl, -, hop⟩ := hbegins
    rw [List.cons_append, read_prefix_none g stop hover.ne_power hprefix
      (hop upper (Nat.lt_of_le_of_lt hle hover.rank_lt)), ← List.cons_append]
    exact hlower
  · rw [read_binary g stop hover.ne_power hprefix]
    refine hlower.bind id (List.Subset.refl ls) fun e hfits he => ?_
    have hstops : g.Stops upper rest := hrest.mono (Grammar.rank_le_disjunction upper)
    simp only [readSteps_of_stops hover.has hstops, ok_bind, join_nil]
    exact .done hfits he

theorem Settles.ofPrimary {upper : Level}
    (h : Settles fits P ls rest (readPrimary g stop (ls ++ rest))) (hupper : g.Has upper)
    (hbegins : Begins g 0 ls) (hrest : g.Stops .disjunction rest) :
    Settles fits P ls rest (read g stop upper (ls ++ rest)) := by
  have hstops : g.Stops .power rest := hrest.mono (by decide)
  have hpower : Settles fits P ls rest (read g stop .power (ls ++ rest)) := by
    rw [read_power]
    refine h.bind id (List.Subset.refl ls) fun e hfits he => ?_
    simp only [readIndices_of_stops hstops, ok_bind, expect?_power_of_stops hstops]
    exact .done hfits he
  exact hpower.loosen trivial hupper (Grammar.rank_power_le upper)
    (hbegins.mono (Nat.zero_le _)) hrest

theorem Settles.ofLeaf {upper : Level} {token : Token} {pos : Nat} {leaf : Except SyntaxError Expr}
    (hsymbol : ∀ s, token ≠ .symbol s) (hleaf : Lexeme.leaf? ⟨token, pos⟩ = some leaf)
    (h : Settles fits P [⟨token, pos⟩] rest (do return (← leaf, rest))) (hupper : g.Has upper)
    (hrest : g.Stops .disjunction rest) :
    Settles fits P [⟨token, pos⟩] rest (read g stop upper ([⟨token, pos⟩] ++ rest)) := by
  refine Settles.ofPrimary ?_ hupper (begins_leaf hsymbol) hrest
  rw [List.singleton_append, readPrimary_leaf g stop hleaf]
  exact h

end

/-! ## Values -/

/-- Of the integers in the value none is the smallest one, which alone has no negative. -/
def Value.Negatable (v : Value) : Prop := v.BuiltFrom (· ≠ Int64.minValue)

/-- The expression has the value, whatever its names stand for. -/
def Expr.Denotes (v : Value) (e : Expr) : Prop :=
  ∀ terms division, e.eval terms division = .ok v

namespace Value

open Formula.Expr

/-- Lexemes with the tokens of the value are read as an expression of the value, unless an integer
in it is the smallest one. -/
def IsRead (v : Value) : Prop :=
  ∀ (g : Grammar) (stop : Nat) (ls rest : List Lexeme), ls.map Lexeme.token = v.tokens →
    g.Stops .disjunction rest →
    Settles v.Negatable (Denotes v) ls rest (read g stop .disjunction (ls ++ rest))

theorem isRead_bool (b : Bool) : (bool b).IsRead := by
  intro g stop ls rest hls hrest
  obtain ⟨pos, rfl⟩ := eq_singleton_of_map hls
  have hfits : (bool b).Negatable := .bool b
  exact Settles.ofLeaf (fun s => Token.noConfusion) rfl (.done hfits fun _ _ => rfl) trivial hrest

/-- The literal of a negative integer is read unless the integer is the smallest one. -/
theorem settles_negated {g : Grammar} {stop : Nat} {rest : List Lexeme} (n : Int64) (start : Nat)
    (hrest : g.Stops .disjunction rest) :
    Settles (n ≠ Int64.minValue)
      (fun e => ∃ m, Integer.neg? n = some m ∧ e = .literal (.integer m) start)
      [⟨.integer (Integer.neg? n), start⟩] rest
      (read g stop .signed ([⟨.integer (Integer.neg? n), start⟩] ++ rest)) := by
  have hsymbol (i : Option Int64) : ∀ s, Token.integer i ≠ .symbol s := fun s => Token.noConfusion
  cases hneg : Integer.neg? n with
  | none =>
      have hmin := Integer.neg?_eq_none_iff.mp hneg
      exact Settles.ofLeaf (hsymbol _) rfl (.tooLarge (absurd hmin) List.mem_cons_self) trivial
        hrest
  | some m =>
      have hfits : n ≠ Int64.minValue := by
        intro hmin
        rw [Integer.neg?_eq_none_iff.mpr hmin] at hneg
        cases hneg
      exact Settles.ofLeaf (hsymbol _) rfl (.done hfits ⟨m, rfl, rfl⟩) trivial hrest

theorem denotes_negate {m n : Int64} (h : Integer.neg? m = some n) (start pos : Nat) :
    Denotes (integer n) (.unary .negate (.literal (.integer m) start) pos) := by
  intro terms division
  rw [eval, eval, ok_bind]
  change Fault.locate pos (Fault.orElse .overflow ((Integer.neg? m).map integer)) = _
  rw [h]
  rfl

theorem isRead_negative {n : Int64} (h : n.toInt < 0) : (integer n).IsRead := by
  intro g stop ls rest hls hrest
  rw [tokens, if_pos h] at hls
  obtain ⟨⟨_, pos⟩, _, rfl, rfl, hdigits⟩ := List.map_eq_cons_iff.mp hls
  obtain ⟨start, rfl⟩ := eq_singleton_of_map hdigits
  have hsigned : Settles (integer n).Negatable (Denotes (integer n))
      [⟨.symbol .minus, pos⟩, ⟨.integer (Integer.neg? n), start⟩] rest (read g stop .signed
        ([⟨.symbol .minus, pos⟩, ⟨.integer (Integer.neg? n), start⟩] ++ rest)) := by
    have hop : g.prefixOp? .signed (.symbol .minus) = some .negate := rfl
    rw [List.cons_append, read_prefix_some g stop (by decide) rfl hop]
    refine (settles_negated n start hrest).bind builtFrom_integer.mp (List.subset_cons_self _ _) ?_
    rintro _ hfits ⟨m, hm, rfl⟩
    exact .done (.integer hfits) (denotes_negate (Integer.neg?_comm.mp hm) start pos)
  refine hsigned.loosen trivial trivial (by decide) ⟨_, _, rfl, (fun h => nomatch h), ?_⟩ hrest
  intro looser hlt
  exact Grammar.Before.minus.prefixOp?_of_rank_lt hlt

theorem isRead_integer (n : Int64) : (integer n).IsRead := by
  by_cases h : n.toInt < 0
  · exact isRead_negative h
  · intro g stop ls rest hls hrest
    rw [tokens, if_neg h] at hls
    obtain ⟨pos, rfl⟩ := eq_singleton_of_map hls
    have hfits : (integer n).Negatable := by
      refine .integer ?_
      rintro rfl
      exact h (by decide)
    exact Settles.ofLeaf (fun s => Token.noConfusion) rfl (.done hfits fun _ _ => rfl) trivial hrest

/-- The elements of an array are read up to its closing bracket, or up to the first literal that is
too large. -/
theorem settles_elements {g : Grammar} {stop : Nat} {item : Value} {items : List Value}
    (hitems : ∀ next ∈ item :: items, next.IsRead) {ls : List Lexeme}
    (hls : ls.map Lexeme.token = item.tokens ++ tokensMore items ++ [.symbol .closeBracket])
    (rest : List Lexeme) :
    Settles (∀ next ∈ item :: items, next.Negatable)
      (fun es => ∀ terms division, evalItems terms division es = .ok (item :: items)) ls rest
      (readElements g stop (ls ++ rest)) := by
  obtain ⟨hitem, hmore⟩ := List.forall_mem_cons.mp hitems
  induction items generalizing item ls with
  | nil =>
      rw [tokensMore, List.append_nil] at hls
      obtain ⟨first, last, rfl, hfirst, hlast⟩ := List.map_eq_append_iff.mp hls
      obtain ⟨close, rfl⟩ := eq_singleton_of_map hlast
      rw [List.append_assoc, readElements_eq]
      have hstops : g.Stops .disjunction ([⟨.symbol .closeBracket, close⟩] ++ rest) :=
        Grammar.stops_of_binaryOp? rfl Symbol.noConfusion
      refine (hitem g stop first _ hfirst hstops).bind (fun h => h item List.mem_cons_self)
        (List.subset_append_left first _) ?_
      intro e hfits he
      refine .done (List.forall_mem_singleton.mpr hfits) fun terms division => ?_
      rw [evalItems, he terms division]
      rfl
  | cons next items ih =>
      rw [tokensMore, List.append_assoc, List.append_assoc, List.append_assoc] at hls
      obtain ⟨first, more, rfl, hfirst, hrest⟩ := List.map_eq_append_iff.mp hls
      obtain ⟨comma, tail, rfl, hcomma, htail⟩ := List.map_eq_append_iff.mp hrest
      obtain ⟨pos, rfl⟩ := eq_singleton_of_map hcomma
      rw [← List.append_assoc] at htail
      obtain ⟨hnext, hafter⟩ := List.forall_mem_cons.mp hmore
      have hreads := ih hmore htail hnext hafter
      rw [List.append_assoc, readElements_eq]
      have hstops : g.Stops .disjunction ([⟨.symbol .comma, pos⟩] ++ tail ++ rest) :=
        Grammar.stops_of_binaryOp? rfl Symbol.noConfusion
      refine (hitem g stop first _ hfirst hstops).bind (fun h => h item List.mem_cons_self)
        (List.subset_append_left first _) ?_
      intro e hfits he
      have htailUsed : tail ⊆ first ++ ([⟨.symbol .comma, pos⟩] ++ tail) :=
        List.Subset.trans (List.subset_append_right _ tail) (List.subset_append_right first _)
      refine hreads.bind (fun h => (List.forall_mem_cons.mp h).2) htailUsed ?_
      intro es hfitsMore hes
      refine .done (List.forall_mem_cons.mpr ⟨hfits, hfitsMore⟩) fun terms division => ?_
      rw [evalItems, he terms division, ok_bind, hes terms division]
      rfl

theorem tokens_eq_cons {P : Int64 → Prop} {v : Value} (h : v.BuiltFrom P) :
    ∃ token more, v.tokens = token :: more ∧ token ≠ .symbol .closeBracket := by
  cases h with
  | @integer n _ =>
      rw [tokens]
      split <;> exact ⟨_, _, rfl, fun h => nomatch h⟩
  | bool b => exact ⟨_, _, rfl, fun h => nomatch h⟩
  | @array items _ => cases items <;> exact ⟨_, _, rfl, fun h => nomatch h⟩

theorem isRead_array {P : Int64 → Prop} {items : List Value}
    (hbuilt : ∀ item ∈ items, item.BuiltFrom P) (h : ∀ item ∈ items, item.IsRead) :
    (array items).IsRead := by
  intro g stop ls rest hls hrest
  have hbegins (pos : Nat) (ls : List Lexeme) : Begins g 0 (⟨.symbol .openBracket, pos⟩ :: ls) :=
    begins_open (.inr rfl)
  cases items with
  | nil =>
      obtain ⟨front, last, rfl, hfront, hlast⟩ := List.map_eq_append_iff.mp hls
      obtain ⟨pos, rfl⟩ := eq_singleton_of_map hfront
      obtain ⟨close, rfl⟩ := eq_singleton_of_map hlast
      refine Settles.ofPrimary ?_ trivial (hbegins pos _) hrest
      have hfits : (array []).Negatable := .array fun item hitem => nomatch hitem
      have hread : readPrimary g stop ([⟨.symbol .openBracket, pos⟩] ++
          [⟨.symbol .closeBracket, close⟩] ++ rest) = .ok (.array [] pos, rest) :=
        readPrimary_bracket g stop rfl
      rw [hread]
      exact .done hfits fun _ _ => rfl
  | cons item items =>
      rw [tokens, List.append_assoc, List.append_assoc] at hls
      obtain ⟨front, elements, rfl, hfront, helements⟩ := List.map_eq_append_iff.mp hls
      obtain ⟨pos, rfl⟩ := eq_singleton_of_map hfront
      refine Settles.ofPrimary ?_ trivial (hbegins pos _) hrest
      have hopen : Lexeme.expect? .closeBracket (elements ++ rest) = none := by
        obtain ⟨token, more, htokens, hne⟩ := tokens_eq_cons (hbuilt item List.mem_cons_self)
        rw [htokens] at helements
        obtain ⟨l, tail, rfl, rfl, -⟩ := List.map_eq_cons_iff.mp helements
        exact if_neg hne
      rw [← List.append_assoc] at helements
      rw [List.append_assoc, List.singleton_append, List.singleton_append,
        readPrimary_bracket g stop rfl]
      simp only [hopen]
      refine (settles_elements h helements rest).bind builtFrom_array.mp
        (List.subset_cons_self _ elements) ?_
      intro es hfits hes
      refine .done (.array hfits) fun terms division => ?_
      rw [eval, hes terms division]
      rfl

theorem isRead {P : Int64 → Prop} {v : Value} (h : v.BuiltFrom P) : v.IsRead := by
  induction h with
  | integer _ => exact isRead_integer _
  | bool b => exact isRead_bool b
  | array h ih => exact isRead_array h ih

end Value

end Formula
