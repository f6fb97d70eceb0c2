import Formula.Proofs.Reading.Semantics
import Formula.Proofs.Tree

/-! # The lexemes that an expression comes from

Every node of a derived expression stands at the position of a lexeme that says what the node
is. -/

namespace Formula

variable {g : Grammar}

/-- The node has the position of one of the lexemes, and that lexeme spells it. The conjunction that
goes on with a chain has the position of the comparison on its right. -/
inductive Placed (g : Grammar) (ls : List Lexeme) : Expr → Prop where
  | literal {value : Literal} {pos : Nat} (h : ⟨value.token, pos⟩ ∈ ls) :
      Placed g ls (.literal value pos)
  | name {id : String} {pos : Nat} (h : ⟨.name id, pos⟩ ∈ ls) : Placed g ls (.name id pos)
  | unary {level : Level} {s : Symbol} {op : UnaryOp} {operand : Expr} {pos : Nat}
      (hop : g.Before level s op) (h : ⟨.symbol s, pos⟩ ∈ ls) :
      Placed g ls (.unary op operand pos)
  | binary {level : Level} {s : Symbol} {op : BinaryOp} {left right : Expr} {pos : Nat}
      (hop : g.Between level s op) (h : ⟨.symbol s, pos⟩ ∈ ls) :
      Placed g ls (.binary op left right pos)
  | chain {s : Symbol} {op : BinaryOp} {chain left right : Expr} {pos : Nat}
      (hop : g.Between .comparison s op) (h : ⟨.symbol s, pos⟩ ∈ ls) :
      Placed g ls (.binary .bitAnd chain (.binary op left right pos) pos)
  | power {left right : Expr} {pos : Nat} (h : ⟨.symbol .power, pos⟩ ∈ ls) :
      Placed g ls (.binary .pow left right pos)
  | array {elements : List Expr} {pos : Nat} (h : ⟨.symbol .openBracket, pos⟩ ∈ ls) :
      Placed g ls (.array elements pos)
  | index {base subscript : Expr} {pos : Nat} (h : ⟨.symbol .openBracket, pos⟩ ∈ ls) :
      Placed g ls (.index base subscript pos)

theorem Placed.mono {ls ls' : List Lexeme} {node : Expr} (h : Placed g ls node)
    (hsub : ls ⊆ ls') : Placed g ls' node := by
  cases h with
  | literal h => exact .literal (hsub h)
  | name h => exact .name (hsub h)
  | unary hop h => exact .unary hop (hsub h)
  | binary hop h => exact .binary hop (hsub h)
  | chain hop h => exact .chain hop (hsub h)
  | power h => exact .power (hsub h)
  | array h => exact .array (hsub h)
  | index h => exact .index (hsub h)

/-- All nodes of the expression are placed. -/
def AllPlaced (g : Grammar) (ls : List Lexeme) (e : Expr) : Prop := e.AllNodes (Placed g ls)

namespace AllPlaced

variable {ls : List Lexeme} {e : Expr} (h : AllPlaced g ls e)
include h

theorem before (right : List Lexeme) : AllPlaced g (ls ++ right) e :=
  h.mono fun _ hnode => hnode.mono (List.subset_append_left ls right)

theorem after (left : List Lexeme) (l : Lexeme) : AllPlaced g (left ++ l :: ls) e :=
  h.mono fun _ hnode => hnode.mono
    (List.Subset.trans (List.subset_cons_self l ls) (List.subset_append_right left (l :: ls)))

end AllPlaced

open Formula.Expr in
/-- A derivation places what it derives; for a chain that includes the last operand, which the next
comparison takes up again. -/
theorem Derives.allPlaced_chain {category : Category} {ls : List Lexeme} {e : Expr}
    (h : Derives g category ls e) :
    AllPlaced g ls e ∧ ∀ last, category = .chain last → AllPlaced g ls last := by
  induction h with
  | operand _ _ ih => exact ⟨ih.1, fun _ h => nomatch h⟩
  | @unary _ s _ pos _ _ hop _ ih =>
      refine ⟨allNodes_unary.mpr ⟨.unary hop List.mem_cons_self, ?_⟩, fun _ h => nomatch h⟩
      exact ih.1.after [] ⟨.symbol s, pos⟩
  | binary _ _ hop _ _ ihleft ihright =>
      refine ⟨allNodes_binary.mpr ⟨.binary hop List.mem_append_cons_self, ?_, ?_⟩,
        fun _ h => nomatch h⟩
      · exact ihleft.1.before _
      · exact ihright.1.after _ _
  | compare _ hop _ _ ihleft ihright =>
      refine ⟨allNodes_binary.mpr ⟨.binary hop List.mem_append_cons_self, ?_, ?_⟩, ?_⟩
      · exact ihleft.1.before _
      · exact ihright.1.after _ _
      · rintro _ ⟨⟩
        exact ihright.1.after _ _
  | extend _ hop _ _ ihleft ihright =>
      have hlast := ihleft.2 _ rfl
      refine ⟨allNodes_binary.mpr ⟨.chain hop List.mem_append_cons_self, ?_, ?_⟩, ?_⟩
      · exact ihleft.1.before _
      · refine allNodes_binary.mpr ⟨.binary hop List.mem_append_cons_self, ?_, ?_⟩
        · exact hlast.before _
        · exact ihright.1.after _ _
      · rintro _ ⟨⟩
        exact ihright.1.after _ _
  | chain _ ih => exact ⟨ih.1, fun _ h => nomatch h⟩
  | base _ ih => exact ⟨ih.1, fun _ h => nomatch h⟩
  | power _ _ ihleft ihright =>
      refine ⟨allNodes_binary.mpr ⟨.power List.mem_append_cons_self, ?_, ?_⟩,
        fun _ h => nomatch h⟩
      · exact ihleft.1.before _
      · exact ihright.1.after _ _
  | primary _ ih => exact ⟨ih.1, fun _ h => nomatch h⟩
  | index _ _ ihleft ihright =>
      refine ⟨allNodes_index.mpr ⟨.index (List.mem_append_left _ List.mem_append_cons_self),
        ?_, ?_⟩, fun _ h => nomatch h⟩
      · exact (ihleft.1.before _).before _
      · exact (ihright.1.after _ _).before _
  | literal value pos =>
      exact ⟨allNodes_literal.mpr (.literal List.mem_cons_self), fun _ h => nomatch h⟩
  | name id pos =>
      exact ⟨allNodes_name.mpr (.name List.mem_cons_self), fun _ h => nomatch h⟩
  | @paren pos _ _ _ _ ih =>
      exact ⟨(ih.1.after [] ⟨.symbol .openParen, pos⟩).before _, fun _ h => nomatch h⟩
  | empty pos close =>
      refine ⟨allNodes_array.mpr ⟨.array List.mem_cons_self, ?_⟩, fun _ h => nomatch h⟩
      exact fun _ he => nomatch he
  | array _ ih => exact ⟨ih.1.before _, fun _ h => nomatch h⟩
  | @first pos _ _ _ ih =>
      refine ⟨allNodes_array.mpr ⟨.array List.mem_cons_self, ?_⟩, fun _ h => nomatch h⟩
      rw [List.forall_mem_singleton]
      exact ih.1.after [] ⟨.symbol .openBracket, pos⟩
  | more _ _ ihleft ihright =>
      obtain ⟨hopen, helements⟩ := allNodes_array.mp (ihleft.1.before _)
      refine ⟨allNodes_array.mpr ⟨?_, ?_⟩, fun _ h => nomatch h⟩
      · cases hopen with
        | array hopen => exact .array hopen
      · rw [List.forall_mem_append, List.forall_mem_singleton]
        exact ⟨helements, ihright.1.after _ _⟩

theorem Derives.placed {category : Category} {ls : List Lexeme} {e : Expr}
    (h : Derives g category ls e) : AllPlaced g ls e :=
  h.allPlaced_chain.1

end Formula
