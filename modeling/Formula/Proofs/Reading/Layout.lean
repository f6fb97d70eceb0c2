import Formula.Proofs.Lexing.Offsets
import Formula.Proofs.Reading.Chains
import Formula.Proofs.Reading.Correspondence

/-! # Layout

Where the tokens of a text stand does not matter. Texts with the same tokens are the same
expression, or have the same fault, up to the offsets of the tokens. -/

namespace Formula

/-- `move` takes each offset of a lexeme to that of the lexeme in its place in the other text, and
the end of the text to the end of the other one. -/
structure Moves (source source' : String) (ls ls' : List Lexeme) (move : Nat → Nat) : Prop where
  lexemes : (ls.map Lexeme.pos).map move = ls'.map Lexeme.pos
  stop : move source.utf8ByteSize = source'.utf8ByteSize

/-- The error with its position moved. -/
def SyntaxError.relocate (move : Nat → Nat) : SyntaxError → SyntaxError
  | blank => blank
  | located fault pos => located fault (move pos)

/-- The outcome with all positions moved. -/
def Expr.relocateOutcome (move : Nat → Nat) (x : Except SyntaxError Expr) :
    Except SyntaxError Expr :=
  (x.map (relocate move)).mapError (SyntaxError.relocate move)

/-! ## Offsets -/

/-- Entries that are all different can be taken to any entries, one by one. -/
theorem exists_map_eq {xs ys : List Nat} (hnodup : xs.Nodup) (hlength : xs.length = ys.length) :
    ∃ f : Nat → Nat, xs.map f = ys := by
  refine ⟨fun x => ys[xs.idxOf x]?.getD 0, List.ext_getElem (by simpa using hlength) ?_⟩
  intro i hi hi'
  rw [List.getElem_map, hnodup.idxOf_getElem, List.getElem?_eq_getElem hi', Option.getD_some]

variable {source source' : String} {ls ls' : List Lexeme} {move : Nat → Nat}

/-- The offsets of a text are all different, so that they can be moved to those of a text with as
many tokens. -/
theorem exists_moves (h : Lexeme.ofText source = .ok ls) (hlength : ls.length = ls'.length) :
    ∃ move, Moves source source' ls ls' move := by
  have hnodup : (ls.map Lexeme.pos ++ [source.utf8ByteSize]).Nodup := by
    refine List.nodup_append.mpr ⟨(Lexeme.pairwise_pos_of_ofText h).imp Nat.ne_of_lt,
      List.pairwise_singleton _ _, ?_⟩
    intro pos hpos stop hstop
    obtain ⟨l, hl, rfl⟩ := List.mem_map.mp hpos
    rw [List.mem_singleton.mp hstop]
    exact Nat.ne_of_lt (Lexeme.pos_lt_of_ofText h l hl)
  have hlength : (ls.map Lexeme.pos ++ [source.utf8ByteSize]).length =
      (ls'.map Lexeme.pos ++ [source'.utf8ByteSize]).length := by simp [hlength]
  obtain ⟨move, hmove⟩ := exists_map_eq hnodup hlength
  rw [List.map_append] at hmove
  obtain ⟨hlexemes, hstop⟩ := List.append_inj' hmove rfl
  exact ⟨move, hlexemes, List.singleton_inj.mp hstop⟩

/-! ## Outcomes -/

theorem Lexeme.forall₂_corresponds (htokens : ls.map token = ls'.map token)
    (hpos : (ls.map pos).map move = ls'.map pos) : ls.Forall₂ (Corresponds Eq move) ls' := by
  induction ls generalizing ls' with
  | nil =>
      rw [List.map_nil, eq_comm, List.map_eq_nil_iff] at htokens
      rw [htokens]
      exact .nil
  | cons l ls ih =>
      cases ls' with
      | nil => cases htokens
      | cons l' ls' =>
          obtain ⟨htoken, htokens⟩ := List.cons.inj htokens
          obtain ⟨hl, hpos⟩ := List.cons.inj hpos
          exact .cons ⟨htoken, hl.symm⟩ (ih htokens hpos)

theorem correspondence_eq (g : Grammar) (stop : Nat) : Correspondence g g Eq move stop where
  like := by
    rintro t _ rfl
    exact .refl g t
  below _ _ _ _ := rfl

theorem AlikeAll.eq_relocateOutcome {x x' : Except SyntaxError Expr} (h : AlikeAll Eq move x x') :
    x' = Expr.relocateOutcome move x := by
  cases h with
  | ok e => rfl
  | error h =>
      cases h with
      | located pos h =>
          cases h with
          | same fault => rfl
          | unexpected h | unexpectedInList h | trailing h =>
              rw [h]
              rfl

namespace Expr

theorem ofText_moves (g : Grammar) (h : Lexeme.ofText source = .ok ls)
    (h' : Lexeme.ofText source' = .ok ls')
    (htokens : ls.map Lexeme.token = ls'.map Lexeme.token)
    (hmoves : Moves source source' ls ls' move) :
    ofText g source' = relocateOutcome move (ofText g source) := by
  have hblank : source'.toList.all Text.isBlank = true ↔ source.toList.all Text.isBlank = true := by
    rw [Lexeme.all_isBlank_iff h, Lexeme.all_isBlank_iff h', ← List.map_eq_nil_iff, ← htokens,
      List.map_eq_nil_iff]
  by_cases hsource : source.toList.all Text.isBlank = true
  · rw [ofText, ofText, if_pos hsource, if_pos (hblank.mpr hsource)]
    rfl
  · rw [ofText_eq_readAll _ hsource, ofText_eq_readAll _ (mt hblank.mp hsource), h, h', ok_bind,
      ok_bind, ← hmoves.stop]
    have hls := Lexeme.forall₂_corresponds htokens hmoves.lexemes
    exact (readAll_alike (correspondence_eq g _) hls).eq_relocateOutcome

/-- Texts with the same tokens are read alike: the outcome for one is that for the other with the
offset of each token, and of the end, moved to where it is in that text. -/
theorem ofText_layout (g : Grammar) (h : Lexeme.ofText source = .ok ls)
    (h' : Lexeme.ofText source' = .ok ls')
    (htokens : ls.map Lexeme.token = ls'.map Lexeme.token) :
    (∃ move, Moves source source' ls ls' move) ∧
      ∀ move, Moves source source' ls ls' move →
        ofText g source' = relocateOutcome move (ofText g source) := by
  have hlength : ls.length = ls'.length := by
    simpa using congrArg List.length htokens
  exact ⟨exists_moves h hlength, fun move => ofText_moves g h h' htokens⟩

/-- The tree of the chain `a<b<c`. -/
def denseChain : Expr :=
  .binary .bitAnd (.binary .less (.name "a" 0) (.name "b" 2) 1)
    (.binary .less (.name "b" 2) (.name "c" 4) 3) 3

/-- The lexemes of the chain at the given offsets. -/
def chainLexemes (a first b second c : Nat) : List Lexeme :=
  [⟨.name "a", a⟩, ⟨.symbol .less, first⟩, ⟨.name "b", b⟩, ⟨.symbol .less, second⟩, ⟨.name "c", c⟩]

theorem lexemes_denseChain : Lexeme.ofText "a<b<c" = .ok (chainLexemes 0 1 2 3 4) := by
  rw [Lexeme.ofText_eq_readWithin]
  rfl

theorem ofText_denseChain : Expr.ofText .strict "a<b<c" = .ok denseChain :=
  ofText_of_chain lexemes_denseChain
    (.between (derives_operand "a" 0) (derives_operand "b" 2) (derives_operand "c" 4) 1 3)

/-- Every offset `n` of the chain becomes `2 * n + 1` when its tokens are spaced out. -/
theorem ofText_layout_spacedChain :
    Lexeme.ofText "a<b<c" = .ok (chainLexemes 0 1 2 3 4) ∧
    Lexeme.ofText " a\n< b\t<\x0cc\r" = .ok (chainLexemes 1 3 5 7 9) ∧
    Moves "a<b<c" " a\n< b\t<\x0cc\r" (chainLexemes 0 1 2 3 4) (chainLexemes 1 3 5 7 9)
      (fun n => 2 * n + 1) ∧
    Expr.ofText .strict " a\n< b\t<\x0cc\r" =
      .ok (.binary .bitAnd (.binary .less (.name "a" 1) (.name "b" 5) 3)
        (.binary .less (.name "b" 5) (.name "c" 9) 7) 7) := by
  have hls' : Lexeme.ofText " a\n< b\t<\x0cc\r" = .ok (chainLexemes 1 3 5 7 9) := by
    rw [Lexeme.ofText_eq_readWithin]
    rfl
  have hmoves : Moves "a<b<c" " a\n< b\t<\x0cc\r" (chainLexemes 0 1 2 3 4)
      (chainLexemes 1 3 5 7 9) (fun n => 2 * n + 1) := ⟨rfl, rfl⟩
  refine ⟨lexemes_denseChain, hls', hmoves, ?_⟩
  rw [(ofText_layout .strict lexemes_denseChain hls' rfl).2 _ hmoves, ofText_denseChain]
  rfl

end Expr

end Formula
