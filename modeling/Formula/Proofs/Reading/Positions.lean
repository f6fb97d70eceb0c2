import Formula.Proofs.Lexing.Offsets
import Formula.Proofs.Reading.Blame
import Formula.Proofs.Reading.Chains
import Formula.Proofs.Reading.Places
import Formula.Proofs.Reading.Statements

/-! # Positions in the text

The positions of an expression and of an error are byte offsets at which the text has what they
name. -/

namespace Formula

variable {g : Grammar} {source : String}

/-- Every node of the expression has the position of a lexeme that spells it, every lexeme stands in
the source at its position, and so does every name. -/
structure PlacedIn (g : Grammar) (source : String) (ls : List Lexeme) (t : Expr) : Prop where
  lexemes : Lexeme.ofText source = .ok ls
  stands : ∀ l ∈ ls, l.Stands source
  placed : t.AllNodes (Placed g ls)
  names : ∀ id pos, Expr.name id pos ∈ t.nodes → StandsAt source pos id

/-- The errors of a source: for a blank one, at what is no token, at its end, or at a lexeme that is
to blame. -/
inductive Refused (g : Grammar) (source : String) : SyntaxError → Prop where
  | blank (h : source.toList.all Text.isBlank = true) : Refused g source .blank
  | unreadable {text : String} {pos : Nat} (h : StandsAt source pos text) :
      Refused g source (.located (.unreadable text) pos)
  | endOfInput : Refused g source (.located .endOfInput source.utf8ByteSize)
  | lexeme {ls : List Lexeme} {l : Lexeme} {fault : SyntaxFault}
      (hls : Lexeme.ofText source = .ok ls) (hl : l ∈ ls) (hstands : l.Stands source)
      (h : Blames g l fault) : Refused g source (.located fault l.pos)

theorem placedIn_of_ofText {t : Expr} (h : Expr.ofText g source = .ok t) :
    ∃ ls, PlacedIn g source ls t := by
  obtain ⟨-, ls, hls, hderives⟩ := ofText_eq_ok_iff.mp h
  have hstands := Lexeme.stands_of_ofText hls
  refine ⟨ls, hls, hstands, hderives.placed, fun id pos hnode => ?_⟩
  cases hderives.placed _ hnode with
  | name hl => exact (hstands _ hl).name

theorem refused_of_blamed {ls : List Lexeme} {e : SyntaxError}
    (hls : Lexeme.ofText source = .ok ls) (h : Blamed g source.utf8ByteSize ls e) :
    Refused g source e := by
  cases h with
  | endOfInput => exact .endOfInput
  | lexeme hl h => exact .lexeme hls hl (Lexeme.stands_of_ofText hls _ hl) h

theorem refused_of_ofText {e : SyntaxError} (h : Expr.ofText g source = .error e) :
    Refused g source e := by
  rw [Expr.ofText] at h
  split at h
  · rename_i hblank
    cases h
    exact .blank hblank
  · cases hls : Lexeme.ofText source with
    | error e' =>
        rw [hls] at h
        cases h
        obtain ⟨text, pos, rfl, hstands⟩ := Lexeme.unreadable_of_ofText hls
        exact .unreadable hstands
    | ok ls =>
        have hlevel : g.Has .disjunction := trivial
        obtain ⟨hread, -⟩ := Expr.readers_blame g source.utf8ByteSize
        refine refused_of_blamed hls ?_
        rw [hls, ok_bind, Expr.ofLexemes_eq_read] at h
        refine ((hread .disjunction ls hlevel).bind fun taken htaken => ?_) e h
        obtain ⟨t, rest⟩ := taken
        cases rest with
        | nil => exact .ok t
        | cons l rest =>
            exact .error (blamed_leftover ((Expr.suffix_of_read hlevel htaken).subset
              List.mem_cons_self))

/-- An expression that is read is placed in its source, and a source that is no expression is
refused at its end or at what is wrong. -/
theorem ofText_positions (g : Grammar) (source : String) :
    (∀ t, Expr.ofText g source = .ok t → ∃ ls, PlacedIn g source ls t) ∧
      ∀ e, Expr.ofText g source = .error e → Refused g source e :=
  ⟨fun _ h => placedIn_of_ofText h, fun _ h => refused_of_ofText h⟩

/-- The tree of a chain behind a character of two bytes. -/
def wideChain : Expr :=
  .binary .bitAnd (.binary .less (.literal (.text "é") 0) (.name "a" 7) 5)
    (.binary .less (.name "a" 7) (.name "b" 11) 9) 9

theorem ofText_wideChain : Expr.ofText .strict "'é' < a < b" = .ok wideChain := by
  have hls : Lexeme.ofText "'é' < a < b" = .ok [⟨.text "é", 0⟩, ⟨.symbol .less, 5⟩,
      ⟨.name "a", 7⟩, ⟨.symbol .less, 9⟩, ⟨.name "b", 11⟩] := by
    rw [Lexeme.ofText_eq_readWithin]
    rfl
  have htext : Derives .strict (.level (Grammar.strict.below .comparison)) [⟨.text "é", 0⟩]
      (.literal (.text "é") 0) :=
    .ofIndexed (.primary (.literal (.text "é") 0)) rfl
  exact ofText_of_chain hls
    (.between htext (derives_operand "a" 7) (derives_operand "b" 11) 5 9)

theorem ofText_assignment_to_text :
    Expr.ofText .strict "'é' = a" = .error (.located .assignment 5) := by
  have hls : Lexeme.ofText "'é' = a" =
      .ok ([⟨.text "é", 0⟩] ++ ⟨.symbol .assign, 5⟩ :: [⟨.name "a", 7⟩]) := by
    rw [Lexeme.ofText_eq_readWithin]
    rfl
  have htext : Derives .strict (.level .disjunction) ([⟨.text "é", 0⟩] ++ [])
      (.literal (.text "é") 0) :=
    .ofIndexed (.primary (.literal (.text "é") 0)) trivial
  exact ofText_eq_refusal hls rfl htext

/-- A character of two bytes moves what stands behind it. -/
theorem ofText_positions_wide :
    (∃ ls, PlacedIn .strict "'é' < a < b" ls wideChain) ∧ StandsAt "'é' < a < b" 11 "b" ∧
      Refused .strict "'é' = a" (.located .assignment 5) := by
  obtain ⟨hplaced, -⟩ := ofText_positions .strict "'é' < a < b"
  obtain ⟨-, hrefused⟩ := ofText_positions .strict "'é' = a"
  obtain ⟨ls, hls⟩ := hplaced _ ofText_wideChain
  exact ⟨⟨ls, hls⟩, hls.names "b" 11 (by simp [wideChain]), hrefused _ ofText_assignment_to_text⟩

end Formula
