import Formula.Proofs.Reading.Chains
import Formula.Proofs.Reading.Places
import Mathlib.Algebra.Group.Nat.Defs

/-! # The size of trees

A chain of comparisons takes each of its middle operands twice, and a middle operand may have
chains of its own. So a tree can have more nodes than its text has lexemes, and how many more
depends on how deep middle operands stand in each other. -/

namespace Formula

namespace Expr

/-! ## Middle operands in each other -/

mutual

/-- The number of middle operands of chains that stand in each other. The conjunction that goes on
with a chain has the position of the comparison on its right, no other conjunction has. -/
def nesting : Expr → Nat
  | literal _ _ | name _ _ => 0
  | unary _ operand _ => operand.nesting
  | binary op left right pos =>
    max (max left.nesting right.nesting)
      (match right with
      | binary comparison middle _ place =>
        if op = .bitAnd ∧ comparison.isComparison ∧ place = pos then middle.nesting + 1 else 0
      | _ => 0)
  | array elements _ => nestingItems elements
  | index base subscript _ => max base.nesting subscript.nesting

def nestingItems : List Expr → Nat
  | [] => 0
  | element :: elements => max element.nesting (nestingItems elements)

end

variable {op : BinaryOp} {left right chain middle last : Expr} {pos : Nat}

theorem nesting_left_le : left.nesting ≤ (binary op left right pos).nesting := by
  cases right <;> simp only [nesting] <;> omega

theorem nesting_right_le : right.nesting ≤ (binary op left right pos).nesting := by
  cases right <;> simp only [nesting] <;> omega

theorem nesting_middle_lt (hop : op.isComparison = true) :
    middle.nesting < (binary .bitAnd chain (binary op middle last pos) pos).nesting := by
  rw [nesting, if_pos ⟨rfl, hop, rfl⟩]
  omega

theorem nesting_last_le :
    last.nesting ≤ (binary .bitAnd chain (binary op middle last pos) pos).nesting :=
  Nat.le_trans nesting_right_le nesting_right_le

/-- No middle operand is added by an operation on an operand that does not have its position. -/
theorem nesting_binary (h : right.pos ≠ pos) :
    (binary op left right pos).nesting = max left.nesting right.nesting := by
  cases right with
  | binary comparison middle last place =>
      have hplace : ¬ (op = .bitAnd ∧ comparison.isComparison = true ∧ place = pos) :=
        fun hjoint => h hjoint.2.2
      rw [nesting, if_neg hplace, Nat.max_zero]
  | _ => simp only [nesting, Nat.max_zero]

theorem nesting_extend (hop : op.isComparison = true) (h : last.pos ≠ pos) :
    (binary .bitAnd chain (binary op middle last pos) pos).nesting =
      max chain.nesting (max (middle.nesting + 1) last.nesting) := by
  rw [nesting, if_pos ⟨rfl, hop, rfl⟩, nesting_binary h]
  omega

theorem nestingItems_append (es es' : List Expr) :
    nestingItems (es ++ es') = max (nestingItems es) (nestingItems es') := by
  induction es with
  | nil => rw [List.nil_append, nestingItems, Nat.zero_max]
  | cons e es ih => rw [List.cons_append, nestingItems, nestingItems, ih, Nat.max_assoc]

theorem nodesItems_append (es es' : List Expr) :
    nodesItems (es ++ es') = nodesItems es ++ nodesItems es' := by
  induction es with
  | nil => rfl
  | cons e es ih => rw [List.cons_append, nodesItems, nodesItems, ih, List.append_assoc]

end Expr

/-! ## Nodes -/

theorem Expr.length_nodes_binary {op : BinaryOp} {left right : Expr} {pos : Nat} :
    (binary op left right pos).nodes.length = left.nodes.length + (1 + right.nodes.length) := by
  rw [nodes, List.length_cons, List.length_append]
  omega

/-- Every lexeme pays for as many nodes as there are copies of what stands in that many middle
operands. -/
def Pays (depth : Nat) (ls : List Lexeme) (count : Nat) : Prop :=
  count ≤ 2 ^ depth * ls.length

namespace Pays

variable {depth depth' count count' : Nat} {ls rs : List Lexeme} {l : Lexeme}

theorem deeper (h : Pays depth ls count) (hdepth : depth ≤ depth') : Pays depth' ls count :=
  Nat.le_trans h (Nat.mul_le_mul_right _ (Nat.pow_le_pow_right (by decide) hdepth))

theorem fewer (h : Pays depth ls count) (hcount : count' ≤ count) : Pays depth ls count' :=
  Nat.le_trans hcount h

theorem twice (h : Pays depth ls count) : Pays (depth + 1) ls (count + count) := by
  unfold Pays at h ⊢
  rw [Nat.pow_succ, Nat.mul_right_comm, Nat.mul_two]
  exact Nat.add_le_add h h

theorem single (l : Lexeme) : Pays depth [l] 1 := by
  rw [Pays, List.length_singleton, Nat.mul_one]
  exact Nat.one_le_two_pow

theorem append (h : Pays depth ls count) (h' : Pays depth rs count') :
    Pays depth (ls ++ rs) (count + count') := by
  rw [Pays, List.length_append, Nat.mul_add]
  exact Nat.add_le_add h h'

theorem before (h : Pays depth ls count) (rs : List Lexeme) : Pays depth (ls ++ rs) count :=
  h.append (Nat.zero_le _)

theorem after (h : Pays depth ls count) (l : Lexeme) : Pays depth (l :: ls) count := by
  have hnone : Pays depth [l] 0 := Nat.zero_le _
  have hpays := hnone.append h
  rw [Nat.zero_add] at hpays
  exact hpays

theorem between (h : Pays depth ls count) (l : Lexeme) (h' : Pays depth' rs count') :
    Pays (max depth depth') (ls ++ l :: rs) (count + (1 + count')) := by
  have hright : Pays (max depth depth') (l :: rs) (1 + count') :=
    (single l).append (h'.deeper (Nat.le_max_right depth depth'))
  exact (h.deeper (Nat.le_max_left depth depth')).append hright

/-- In a middle operand a lexeme pays for two nodes. -/
theorem betweenTwo (h : Pays depth ls count) (l : Lexeme) (h' : Pays depth rs count')
    (hdepth : 0 < depth) : Pays depth (ls ++ l :: rs) (count + (2 + count')) := by
  have hone : Pays 0 [l] 1 := single l
  have hl : Pays depth [l] 2 := hone.twice.deeper hdepth
  exact h.append (hl.append h')

open Formula.Expr in
theorem binary {op : BinaryOp} {a b : Expr} {pos : Nat} (h : Pays a.nesting ls a.nodes.length)
    (h' : Pays b.nesting rs b.nodes.length) :
    Pays (Expr.binary op a b pos).nesting (ls ++ l :: rs)
      (Expr.binary op a b pos).nodes.length := by
  rw [length_nodes_binary]
  exact (h.between l h').deeper (Nat.max_le.mpr ⟨nesting_left_le, nesting_right_le⟩)

end Pays

variable {g : Grammar}

open Formula.Expr in
/-- The lexemes of an expression pay for its nodes. Those of a chain also pay for its last operand
once more, at any depth at which that can stand in the middle of a chain. -/
theorem Derives.pays_chain {category : Category} {ls : List Lexeme} {e : Expr}
    (h : Derives g category ls e) :
    Pays e.nesting ls e.nodes.length ∧
      ∀ last, category = .chain last → ∀ depth, e.nesting ≤ depth → last.nesting < depth →
        Pays depth ls (e.nodes.length + last.nodes.length) := by
  induction h with
  | operand _ _ ih => exact ⟨ih.1, fun _ h => nomatch h⟩
  | unary _ _ ih =>
      rw [nodes, List.length_cons, Nat.add_comm]
      exact ⟨(Pays.single _).append ih.1, fun _ h => nomatch h⟩
  | binary _ _ _ _ _ ihleft ihright | power _ _ ihleft ihright =>
      refine ⟨?_, fun _ h => nomatch h⟩
      exact ihleft.1.binary ihright.1
  | @compare _ s _ pos ls rs a b _ hop _ _ ihleft ihright =>
      refine ⟨ihleft.1.binary ihright.1, ?_⟩
      rintro _ ⟨⟩ depth he hlast
      have hleft := ihleft.1.deeper (Nat.le_trans nesting_left_le he)
      have hright : Pays depth rs (b.nodes.length + b.nodes.length) :=
        ihright.1.twice.deeper hlast
      have hboth := hleft.between ⟨.symbol s, pos⟩ hright
      rw [Nat.max_self] at hboth
      refine hboth.fewer ?_
      rw [length_nodes_binary]
      omega
  | @extend _ s op pos ls rs a b e _ hop _ _ ihleft ihright =>
      -- The last operand so far becomes a middle one: the chain has paid for its second copy.
      have hjoined {depth count : Nat} (he : e.nesting ≤ depth) (hmiddle : a.nesting < depth)
          (hlast : Pays depth rs count) :
          Pays depth (ls ++ ⟨.symbol s, pos⟩ :: rs)
            (e.nodes.length + a.nodes.length + (2 + count)) :=
        (ihleft.2 a rfl depth he hmiddle).betweenTwo _ hlast (Nat.zero_lt_of_lt hmiddle)
      have hmiddle : a.nesting < (Expr.binary .bitAnd e (.binary op a b pos) pos).nesting :=
        nesting_middle_lt hop.isComparison
      refine ⟨?_, ?_⟩
      · refine (hjoined nesting_left_le hmiddle (ihright.1.deeper nesting_last_le)).fewer ?_
        rw [length_nodes_binary, length_nodes_binary]
        omega
      · rintro _ ⟨⟩ depth he hlast
        have hright : Pays depth rs (b.nodes.length + b.nodes.length) :=
          ihright.1.twice.deeper hlast
        refine (hjoined (Nat.le_trans nesting_left_le he)
          (Nat.lt_of_lt_of_le hmiddle he) hright).fewer ?_
        rw [length_nodes_binary, length_nodes_binary]
        omega
  | chain _ ih => exact ⟨ih.1, fun _ h => nomatch h⟩
  | base _ ih => exact ⟨ih.1, fun _ h => nomatch h⟩
  | primary _ ih => exact ⟨ih.1, fun _ h => nomatch h⟩
  | index _ _ ihleft ihright =>
      refine ⟨?_, fun _ h => nomatch h⟩
      refine ((ihleft.1.between _ ihright.1).before _).fewer ?_
      rw [nodes, List.length_cons, List.length_append]
      omega
  | literal value pos => exact ⟨.single _, fun _ h => nomatch h⟩
  | name id pos => exact ⟨.single _, fun _ h => nomatch h⟩
  | paren _ ih => exact ⟨(ih.1.after _).before _, fun _ h => nomatch h⟩
  | empty pos close => exact ⟨(Pays.single _).before _, fun _ h => nomatch h⟩
  | array _ ih => exact ⟨ih.1.before _, fun _ h => nomatch h⟩
  | first _ ih =>
      refine ⟨?_, fun _ h => nomatch h⟩
      rw [nodes, nodesItems, nodesItems, List.append_nil, List.length_cons, Nat.add_comm, nesting,
        nestingItems, nestingItems, Nat.max_zero]
      exact (Pays.single _).append ih.1
  | more _ _ ihleft ihright =>
      refine ⟨?_, fun _ h => nomatch h⟩
      rw [nesting, nestingItems_append, nestingItems, nestingItems, Nat.max_zero]
      refine (ihleft.1.between _ ihright.1).fewer ?_
      rw [nodes, nodes, nodesItems_append, nodesItems, nodesItems, List.append_nil,
        List.length_cons, List.length_cons, List.length_append]
      omega

theorem Derives.pays {category : Category} {ls : List Lexeme} {e : Expr}
    (h : Derives g category ls e) : Pays e.nesting ls e.nodes.length :=
  h.pays_chain.1

/-! ## Lexemes around middle operands -/

/-- A node that is placed has the position of a lexeme. -/
theorem Placed.exists_pos {ls : List Lexeme} {node : Expr} (h : Placed g ls node) :
    ∃ l ∈ ls, l.pos = node.pos := by
  cases h <;> exact ⟨_, ‹_ ∈ ls›, rfl⟩

section

variable {ls rs : List Lexeme} {l : Lexeme}
  (hpos : ((ls ++ l :: rs).map Lexeme.pos).Pairwise (· < ·))
include hpos

theorem pairwise_left : (ls.map Lexeme.pos).Pairwise (· < ·) :=
  hpos.sublist ((List.sublist_append_left ls (l :: rs)).map Lexeme.pos)

theorem pairwise_right : (rs.map Lexeme.pos).Pairwise (· < ·) :=
  hpos.sublist (((List.sublist_cons_self l rs).trans
    (List.sublist_append_right ls (l :: rs))).map Lexeme.pos)

theorem Derives.pos_ne {category : Category} {e : Expr} (h : Derives g category rs e) :
    e.pos ≠ l.pos := by
  obtain ⟨l', hl', hplace⟩ := (h.placed e (Expr.mem_nodes_self e)).exists_pos
  rw [List.map_append, List.pairwise_append] at hpos
  have hlt := List.rel_of_pairwise_cons hpos.2.1 (List.mem_map_of_mem hl')
  omega

end

/-- An expression of the category has this many lexemes, less one, besides six for each of its
middle operands that stand in each other. -/
def Category.spare : Category → Nat
  | level here => if here.rank < Level.comparison.rank then 2 else 0
  | chain _ => 0
  | indexed | primary => 2
  | opened => 1

namespace Grammar

variable {upper lower : Level}

theorem Over.spare_le (h : g.Over upper lower) :
    (Category.level upper).spare ≤ (Category.level lower).spare := by
  cases h <;> decide

theorem Over.spare_eq (h : g.Over .comparison lower) : (Category.level lower).spare = 2 := by
  cases h <;> rfl

end Grammar

open Formula.Expr in
/-- A middle operand that has middle operands stands in parentheses or brackets, between two
comparisons with an operand before and one behind. -/
theorem Derives.nesting_chain {category : Category} {ls : List Lexeme} {e : Expr}
    (h : Derives g category ls e) (hpos : (ls.map Lexeme.pos).Pairwise (· < ·)) :
    6 * e.nesting + category.spare ≤ ls.length + 1 ∧
      ∀ last, category = .chain last → 6 * last.nesting + 3 ≤ ls.length := by
  induction h with
  | operand hover _ ih =>
      have hspare := hover.spare_le
      have hle := (ih hpos).1
      exact ⟨by omega, fun _ h => nomatch h⟩
  | unary _ _ ih =>
      have hle := (ih hpos.of_cons).1
      rw [nesting, List.length_cons]
      exact ⟨by omega, fun _ h => nomatch h⟩
  | binary hover _ _ _ hright ihleft ihright =>
      have hspare := hover.spare_le
      have hlel := (ihleft (pairwise_left hpos)).1
      have hler := (ihright (pairwise_right hpos)).1
      -- A conjunction that is written as one stands before its right operand, so it joins no chain.
      rw [nesting_binary (hright.pos_ne hpos), List.length_append, List.length_cons]
      exact ⟨by omega, fun _ h => nomatch h⟩
  | power _ hright ihleft ihright =>
      have hspare : (Category.level .signed).spare = (Category.level .power).spare := rfl
      have hlel := (ihleft (pairwise_left hpos)).1
      have hler := (ihright (pairwise_right hpos)).1
      rw [nesting_binary (hright.pos_ne hpos), List.length_append, List.length_cons]
      change 6 * _ + (Category.level .power).spare ≤ _ at hlel
      exact ⟨by omega, fun _ h => nomatch h⟩
  | compare hover hop _ hright ihleft ihright =>
      have hlel := (ihleft (pairwise_left hpos)).1
      have hler := (ihright (pairwise_right hpos)).1
      rw [hover.spare_eq] at hlel hler
      rw [nesting_binary (hright.pos_ne hpos), List.length_append, List.length_cons]
      refine ⟨?_, ?_⟩
      · rw [Category.spare]
        omega
      · rintro _ ⟨⟩
        omega
  | extend hover hop _ hright ihleft ihright =>
      obtain ⟨hchain, hmiddle⟩ := ihleft (pairwise_left hpos)
      have hmiddle := hmiddle _ rfl
      have hler := (ihright (pairwise_right hpos)).1
      rw [hover.spare_eq] at hler
      rw [nesting_extend hop.isComparison (hright.pos_ne hpos), List.length_append,
        List.length_cons]
      refine ⟨?_, ?_⟩
      · rw [Category.spare] at hchain ⊢
        omega
      · rintro _ ⟨⟩
        omega
  | chain _ ih => exact ⟨(ih hpos).1, fun _ h => nomatch h⟩
  | base _ ih => exact ⟨(ih hpos).1, fun _ h => nomatch h⟩
  | primary _ ih => exact ⟨(ih hpos).1, fun _ h => nomatch h⟩
  | index _ _ ihleft ihright =>
      have hlel := (ihleft (pairwise_left (pairwise_left hpos))).1
      have hler := (ihright (pairwise_right (pairwise_left hpos))).1
      rw [nesting, List.length_append, List.length_append, List.length_cons, List.length_singleton]
      simp only [Category.spare] at hlel hler ⊢
      exact ⟨by omega, fun _ h => nomatch h⟩
  | literal value pos => exact ⟨Nat.le_refl 2, fun _ h => nomatch h⟩
  | name id pos => exact ⟨Nat.le_refl 2, fun _ h => nomatch h⟩
  | paren _ ih =>
      have hle := (ih (pairwise_left hpos).of_cons).1
      rw [List.length_append, List.length_cons, List.length_singleton]
      simp only [Category.spare] at hle ⊢
      exact ⟨by omega, fun _ h => nomatch h⟩
  | empty pos close => exact ⟨Nat.le_succ 2, fun _ h => nomatch h⟩
  | array _ ih =>
      have hle := (ih (pairwise_left hpos)).1
      rw [List.length_append, List.length_singleton]
      exact ⟨Nat.succ_le_succ hle, fun _ h => nomatch h⟩
  | first _ ih =>
      have hle := (ih hpos.of_cons).1
      rw [nesting, nestingItems, nestingItems, Nat.max_zero, List.length_cons]
      exact ⟨Nat.succ_le_succ hle, fun _ h => nomatch h⟩
  | more _ _ ihleft ihright =>
      have hlel := (ihleft (pairwise_left hpos)).1
      have hler := (ihright (pairwise_right hpos)).1
      rw [nesting] at hlel ⊢
      rw [nestingItems_append, nestingItems, nestingItems, Nat.max_zero, List.length_append,
        List.length_cons]
      simp only [Category.spare] at hlel hler ⊢
      exact ⟨by omega, fun _ h => nomatch h⟩

/-! ## Chains in the middle of chains -/

open Grammar (over_comparison)

/-- The lexemes of `id<(`, of a chain and of `)<id'`. -/
def Lexeme.surround (id id' : String) (pos close : Nat) (ls : List Lexeme) : List Lexeme :=
  [⟨.name id, pos⟩] ++
    ⟨.symbol .less, pos + 1⟩ ::
      (⟨.symbol .openParen, pos + 2⟩ :: ls ++ [⟨.symbol .closeParen, close⟩]) ++
    ⟨.symbol .less, close + 1⟩ :: [⟨.name id', close + 2⟩]

/-- A chain in parentheses is the middle operand of another chain. -/
theorem Derives.surround {last e : Expr} {ls : List Lexeme} (h : Derives g (.chain last) ls e)
    (id id' : String) (pos close : Nat) :
    Derives g (.chain (.name id' (close + 2))) (Lexeme.surround id id' pos close ls)
      (.binary .bitAnd (.binary .less (.name id pos) e (pos + 1))
        (.binary .less e (.name id' (close + 2)) (close + 1)) (close + 1)) := by
  have hmiddle : Derives g (.level (g.below .comparison))
      (⟨.symbol .openParen, pos + 2⟩ :: ls ++ [⟨.symbol .closeParen, close⟩]) e :=
    Derives.ofIndexed ((Derives.chain h).inParens trivial) (Grammar.has_below trivial)
  exact .between (derives_operand id pos) hmiddle (derives_operand id' (close + 2)) _ _

namespace Expr

/-- A tree has at most as many nodes as its text has lexemes, doubled for each middle operand of a
chain that stands in another one. So it has at most eight times as many for three of them, and each
of them takes six lexemes. -/
theorem ofText_length_nodes_le {source : String} {t : Expr} (h : ofText g source = .ok t) :
    ∃ ls, Lexeme.ofText source = .ok ls ∧
      t.nodes.length ≤ 2 ^ t.nesting * ls.length ∧
      (t.nesting ≤ 3 → t.nodes.length ≤ 8 * ls.length) ∧
      6 * t.nesting ≤ ls.length + 1 := by
  obtain ⟨-, ls, hls, hderives⟩ := ofText_eq_ok_iff.mp h
  have hnesting := (hderives.nesting_chain (Lexeme.pairwise_pos_of_ofText hls)).1
  exact ⟨ls, hls, hderives.pays, hderives.pays.deeper, hnesting⟩

/-- The tree of `a<(b<c<d)<e`. -/
def nestedChain : Expr :=
  let middle : Expr := .binary .bitAnd (.binary .less (.name "b" 3) (.name "c" 5) 4)
    (.binary .less (.name "c" 5) (.name "d" 7) 6) 6
  .binary .bitAnd (.binary .less (.name "a" 0) middle 1) (.binary .less middle (.name "e" 10) 9) 9

example : nestedChain.nesting = 2 := by decide

theorem ofText_length_nodes_le_nestedChain :
    Expr.ofText .strict "a<(b<c<d)<e" = .ok nestedChain ∧
      ∃ ls, Lexeme.ofText "a<(b<c<d)<e" = .ok ls ∧
        nestedChain.nodes.length ≤ 2 ^ nestedChain.nesting * ls.length ∧
        (nestedChain.nesting ≤ 3 → nestedChain.nodes.length ≤ 8 * ls.length) ∧
        6 * nestedChain.nesting ≤ ls.length + 1 := by
  have hinner : Derives .strict (.chain (.name "d" 7)) _ _ :=
    .between (derives_operand "b" 3) (derives_operand "c" 5) (derives_operand "d" 7) 4 6
  have hls : Lexeme.ofText "a<(b<c<d)<e" = .ok (Lexeme.surround "a" "e" 0 8 [⟨.name "b", 3⟩,
      ⟨.symbol .less, 4⟩, ⟨.name "c", 5⟩, ⟨.symbol .less, 6⟩, ⟨.name "d", 7⟩]) := by
    rw [Lexeme.ofText_eq_readWithin]
    rfl
  have htree : Expr.ofText .strict "a<(b<c<d)<e" = .ok nestedChain :=
    ofText_of_chain hls (hinner.surround "a" "e" 0 8)
  exact ⟨htree, ofText_length_nodes_le htree⟩

/-- The lexemes of `a<a<…<a`, each one character, with the number of comparisons. -/
def flat (pos : Nat) : Nat → List Lexeme
  | 0 => [⟨.name "a", pos⟩]
  | count + 1 => flat pos count ++
      [⟨.symbol .less, pos + 2 * count + 1⟩, ⟨.name "a", pos + 2 * count + 2⟩]

/-- The lexemes make a chain of the number of nodes. Its last operand is a name. -/
def Chained (g : Grammar) (ls : List Lexeme) (count : Nat) : Prop :=
  ∃ e id pos, Derives g (.chain (.name id pos)) ls e ∧ e.nodes.length = count

theorem chained_flat (pos count : Nat) : Chained g (flat pos (count + 1)) (4 * count + 3) := by
  induction count with
  | zero =>
      exact ⟨_, _, _, .compare over_comparison .less (derives_operand _ _) (derives_operand _ _),
        rfl⟩
  | succ count ih =>
      obtain ⟨e, id, place, hchain, hnodes⟩ := ih
      refine ⟨_, _, _, .extend over_comparison .less hchain (derives_operand _ _), ?_⟩
      rw [length_nodes_binary, hnodes]
      simp only [nodes, List.length_cons, List.length_append, List.length_nil]
      omega

/-- In the middle of a chain all nodes of a chain are there twice. -/
theorem Chained.surround {ls : List Lexeme} {count : Nat} (h : Chained g ls count)
    (id id' : String) (pos close : Nat) :
    Chained g (Lexeme.surround id id' pos close ls) (2 * count + 5) := by
  obtain ⟨e, _, _, hchain, hnodes⟩ := h
  refine ⟨_, _, _, hchain.surround id id' pos close, ?_⟩
  rw [length_nodes_binary, length_nodes_binary, length_nodes_binary]
  simp only [nodes, List.length_singleton]
  omega

def crowded : String := "a<(a<(a<(a<a<a<a<a<a<a<a<a)<a)<a)<a"

/-- With four middle operands in each other a tree can have more than eight times as many nodes as
its text has lexemes. -/
theorem ofText_crowded : ∃ ls t, Lexeme.ofText crowded = .ok ls ∧
    Expr.ofText .extended crowded = .ok t ∧ 8 * ls.length < t.nodes.length := by
  have hls : Lexeme.ofText crowded = .ok (Lexeme.surround "a" "a" 0 32
      (Lexeme.surround "a" "a" 3 29 (Lexeme.surround "a" "a" 6 26 (flat 9 8)))) := by
    rw [Lexeme.ofText_eq_readWithin]
    rfl
  have hinner : Chained .extended (flat 9 8) 31 := chained_flat 9 7
  obtain ⟨t, _, _, hchain, hnodes⟩ :=
    ((hinner.surround "a" "a" 6 26).surround "a" "a" 3 29).surround "a" "a" 0 32
  refine ⟨_, t, hls, ofText_of_chain hls hchain, ?_⟩
  rw [hnodes]
  decide

end Expr

end Formula
