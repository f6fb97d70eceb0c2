import Formula.Proofs.Reading.Chains
import Formula.Proofs.Reading.Names
import Formula.Proofs.Scope.Resolution

/-! # Names in the order of their first use

A compiled expression lists the names of its text by the place where each first stands, and what
fails to compile fails at the first of them that has no value. -/

namespace Formula

open Lexeme

/-- The names are those among the lexemes, each once, by the place where it first stands. -/
structure NamesInOrder (ls : List Lexeme) (names : List String) : Prop where
  nodup : names.Nodup
  mem : ∀ id, id ∈ names ↔ ∃ pos, ⟨.name id, pos⟩ ∈ ls
  ordered : names.Pairwise fun a b => ∃ p q, FirstAt ls a p ∧ FirstAt ls b q ∧ p < q

/-- The name is the first among the lexemes that has no value in the scope, and the failure says
so. -/
structure FirstMissing (ls : List Lexeme) (scope : Scope) (id : String) (pos : Nat)
    (e : Failure) : Prop where
  first : FirstAt ls id pos
  earlier : ∀ other p, FirstAt ls other p → p < pos →
    ∃ value, scope.resolve other = .ok (some value)
  missing : ∀ value, scope.resolve id ≠ .ok (some value)
  failure : (∃ depth available, e = .contextDepth depth available ∧ scope.resolve id = .error e) ∨
    scope.resolve id = .ok none ∧ e = .unresolved id pos

namespace Compiled

/-- The names of the expression have the values that the scope answers, and nothing else has a
value. -/
structure Binds (c : Compiled) (scope : Scope) : Prop where
  bound : ∀ id ∈ c.names, ∃ value, scope.resolve id = .ok (some value) ∧
    c.terms.get? id = some value
  only : ∀ id, id ∉ c.names → c.terms.get? id = none

variable {ls : List Lexeme}

theorem pairwise_uses (h : (ls.map Lexeme.pos).Pairwise (· < ·)) :
    (uses ls).Pairwise fun a b => a.2 < b.2 := by
  rw [List.pairwise_map] at h
  refine List.Pairwise.filterMap use? ?_ h
  intro l l' hlt use huse use' huse'
  rw [use?_eq_some_iff.mp huse, use?_eq_some_iff.mp huse'] at hlt
  exact hlt

/-- The first uses of names are at the places where they first stand. -/
theorem mem_firstUses_uses (h : (ls.map Lexeme.pos).Pairwise (· < ·)) {id : String} {pos : Nat} :
    (id, pos) ∈ firstUses (uses ls) ↔ FirstAt ls id pos := by
  rw [mem_firstUses_iff (pairwise_uses h), mem_uses]
  constructor
  · rintro ⟨hmem, hleast⟩
    exact ⟨hmem, fun later hlater => hleast (id, later) (mem_uses.mpr hlater) rfl⟩
  · rintro ⟨hmem, hleast⟩
    refine ⟨hmem, ?_⟩
    rintro ⟨_, later⟩ hlater rfl
    exact hleast later (mem_uses.mp hlater)

theorem namesInOrder_firstUses (h : (ls.map Lexeme.pos).Pairwise (· < ·)) :
    NamesInOrder ls ((firstUses (uses ls)).map Prod.fst) where
  nodup := firstUses_nodup (uses ls)
  mem id := by
    rw [mem_firstUses_names]
    constructor
    · intro hid
      obtain ⟨use, huse, rfl⟩ := List.mem_map.mp hid
      exact ⟨use.2, mem_uses.mp huse⟩
    · rintro ⟨pos, hpos⟩
      exact List.mem_map_of_mem (mem_uses.mpr hpos)
  ordered := by
    rw [List.pairwise_map]
    refine ((pairwise_uses h).sublist (firstUses_sublist _)).imp_of_mem ?_
    intro a b ha hb hlt
    exact ⟨a.2, b.2, (mem_firstUses_uses h).mp ha, (mem_firstUses_uses h).mp hb, hlt⟩

/-- What stands before a use in the list of first uses is what first stands before it. -/
theorem mem_before_firstUses (h : (ls.map Lexeme.pos).Pairwise (· < ·))
    {before after : List (String × Nat)} {use : String × Nat}
    (huses : firstUses (uses ls) = before ++ use :: after) {other : String} {p : Nat}
    (hother : FirstAt ls other p) (hlt : p < use.2) : (other, p) ∈ before := by
  have hmem := (mem_firstUses_uses h).mpr hother
  have hpairwise := (pairwise_uses h).sublist (firstUses_sublist _)
  rw [huses] at hmem hpairwise
  obtain ⟨-, htail, -⟩ := List.pairwise_append.mp hpairwise
  rcases List.mem_append.mp hmem with hmem | hmem
  · exact hmem
  · rcases List.mem_cons.mp hmem with rfl | hmem
    · exact absurd hlt (Nat.lt_irrefl _)
    · exact absurd hlt (Nat.not_lt.mpr (Nat.le_of_lt (List.rel_of_pairwise_cons htail hmem)))

theorem Unbound.failure {scope : Scope} {use : String × Nat} {e : Failure}
    (h : Unbound scope use e) :
    (∀ value, scope.resolve use.1 ≠ .ok (some value)) ∧
      ((∃ depth available, e = .contextDepth depth available ∧ scope.resolve use.1 = .error e) ∨
        scope.resolve use.1 = .ok none ∧ e = .unresolved use.1 use.2) := by
  rcases h with herror | ⟨hnone, rfl⟩
  · obtain ⟨stack, -, he⟩ := Scope.resolve_eq_error herror
    rw [herror]
    refine ⟨fun value hvalue => ?_, .inl ⟨_, _, he, rfl⟩⟩
    cases hvalue
  · rw [hnone]
    refine ⟨fun value hvalue => ?_, .inr ⟨rfl, rfl⟩⟩
    cases hvalue

/-- Binding the names of lexemes fails at the first of them that has no value. -/
theorem foldlM_firstUses_eq_error_iff (h : (ls.map Lexeme.pos).Pairwise (· < ·)) {scope : Scope}
    {e : Failure} :
    (firstUses (uses ls)).foldlM (bind scope) Bindings.empty = .error e ↔
      ∃ id pos, FirstMissing ls scope id pos e := by
  constructor
  · intro he
    obtain ⟨before, use, after, hsplit, hmissing, hbefore⟩ := foldlM_bind_eq_error he
    have hmem : use ∈ firstUses (uses ls) := by
      rw [hsplit]
      exact List.mem_append_cons_self
    obtain ⟨hnone, hfailure⟩ := hmissing.failure
    refine ⟨use.1, use.2, (mem_firstUses_uses h).mp hmem, ?_, hnone, hfailure⟩
    exact fun other p hother hlt => hbefore (other, p) (mem_before_firstUses h hsplit hother hlt)
  · rintro ⟨id, pos, hfirst⟩
    have hmem := (mem_firstUses_uses h).mpr hfirst.first
    obtain ⟨before, after, hsplit⟩ := List.append_of_mem hmem
    have hpairwise := (pairwise_uses h).sublist (firstUses_sublist (uses ls))
    rw [hsplit] at hpairwise ⊢
    obtain ⟨-, -, hlt⟩ := List.pairwise_append.mp hpairwise
    refine foldlM_bind_of_unbound _ (fun earlier hearlier => ?_) ?_
    · have hmem' : earlier ∈ firstUses (uses ls) := by
        rw [hsplit]
        exact List.mem_append_left _ hearlier
      exact hfirst.earlier _ _ ((mem_firstUses_uses h).mp hmem')
        (hlt earlier hearlier _ List.mem_cons_self)
    · rcases hfirst.failure with ⟨-, -, -, hresolve⟩ | hunresolved
      · exact .inl hresolve
      · exact .inr hunresolved

/-- A text that parses is compiled with its names in the order in which they first stand in it, each
bound to its value, or else compiling it fails at the first name that has none. -/
theorem ofText_names {source : String} {grammar : Grammar} {tree : Expr}
    (h : Expr.ofText grammar source = .ok tree) (scope : Scope) (engine : String)
    (division : Division) :
    ∃ ls, Lexeme.ofText source = .ok ls ∧
      (∀ c, ofText source grammar scope engine division = .ok c →
        NamesInOrder ls c.names ∧ c.Binds scope) ∧
      ∀ e, ofText source grammar scope engine division = .error e →
        ∃ id pos, FirstMissing ls scope id pos e := by
  obtain ⟨-, ls, hls, hderives⟩ := ofText_eq_ok_iff.mp h
  have hpos : (ls.map Lexeme.pos).Pairwise (· < ·) := pairwise_pos_of_ofText hls
  have huses : firstUses tree.names = firstUses (uses ls) := hderives.sameUses_chain.1
  refine ⟨ls, hls, ?_⟩
  rw [ofText_of_tree h, huses]
  constructor
  · intro c hc
    obtain ⟨terms, hterms, heq⟩ := bind_eq_ok.mp hc
    cases heq
    obtain ⟨hbound, honly⟩ := foldlM_bind_eq_ok hterms
    exact ⟨namesInOrder_firstUses hpos, hbound, honly⟩
  · intro e he
    rcases bind_eq_error.mp he with hterms | ⟨terms, -, heq⟩
    · obtain ⟨before, use, after, hsplit, hmissing, hbefore⟩ := foldlM_bind_eq_error hterms
      have hmem : use ∈ firstUses (uses ls) := by
        rw [hsplit]
        exact List.mem_append_cons_self
      obtain ⟨hnone, hfailure⟩ := hmissing.failure
      exact ⟨use.1, use.2, {
        first := (mem_firstUses_uses hpos).mp hmem
        earlier := fun other p hother hlt =>
          hbefore (other, p) (mem_before_firstUses hpos hsplit hother hlt)
        missing := hnone
        failure := hfailure }⟩
    · cases heq

/-- The tree of a chain of comparisons, whose middle operand stands in it twice. -/
def sharedOperand : Expr :=
  .binary .bitAnd (.binary .less (.name "b" 0) (.name "c" 4) 2)
    (.binary .less (.name "c" 4) (.name "a" 8) 6) 6

theorem ofText_sharedOperand : Expr.ofText .strict "b < c < a" = .ok sharedOperand := by
  have hls : Lexeme.ofText "b < c < a" = .ok [⟨.name "b", 0⟩, ⟨.symbol .less, 2⟩, ⟨.name "c", 4⟩,
      ⟨.symbol .less, 6⟩, ⟨.name "a", 8⟩] := by
    rw [Lexeme.ofText_eq_readWithin]
    rfl
  exact ofText_of_chain hls
    (.between (derives_operand "b" 0) (derives_operand "c" 4) (derives_operand "a" 8) 2 6)

/-- The middle operand is missed once, behind the operand that stands before it. -/
theorem ofText_names_sharedOperand :
    ∃ ls, Lexeme.ofText "b < c < a" = .ok ls ∧
      FirstMissing ls { locals := some (.ofList [("b", .integer 1)]) } "c" 4
        (.unresolved "c" 4) := by
  obtain ⟨ls, hls, -, herror⟩ := ofText_names ofText_sharedOperand
    { locals := some (.ofList [("b", .integer 1)]) } "interpreted" .exact
  have hmissing : ofText "b < c < a" .strict { locals := some (.ofList [("b", .integer 1)]) }
      "interpreted" .exact = .error (.unresolved "c" 4) := by
    rw [ofText_of_tree ofText_sharedOperand]
    rfl
  obtain ⟨id, pos, hfirst⟩ := herror _ hmissing
  rcases hfirst.failure with ⟨depth, available, heq, -⟩ | ⟨-, heq⟩
  · cases heq
  · cases heq
    exact ⟨ls, hls, hfirst⟩

end Compiled

end Formula
