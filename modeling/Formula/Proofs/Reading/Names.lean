import Formula.Compiled
import Formula.Proofs.Lexing.Tiling
import Formula.Proofs.Reading.Correctness

/-! # The names of a text

The names of an expression, less repetitions, are those of the text that it is read from, in the
order in which they first stand there. -/

namespace Formula

namespace Compiled

/-! ## First uses -/

theorem mem_firstUses_cons {x use : String × Nat} {xs : List (String × Nat)} :
    use ∈ firstUses (x :: xs) ↔ use = x ∨ use ∈ firstUses xs ∧ use.1 ≠ x.1 := by
  rw [firstUses, List.mem_cons, List.mem_filter, decide_eq_true_eq]

theorem firstUses_sublist (xs : List (String × Nat)) : (firstUses xs).Sublist xs := by
  induction xs with
  | nil => exact List.Sublist.slnil
  | cons x xs ih => exact (List.filter_sublist.trans ih).cons_cons x

/-- No name is listed twice. -/
theorem firstUses_nodup (xs : List (String × Nat)) : ((firstUses xs).map Prod.fst).Nodup := by
  induction xs with
  | nil => exact List.nodup_nil
  | cons x xs ih =>
      rw [firstUses, List.map_cons, List.nodup_cons]
      refine ⟨?_, ih.sublist (List.filter_sublist.map _)⟩
      intro hmem
      obtain ⟨use, huse, hid⟩ := List.mem_map.mp hmem
      exact (decide_eq_true_eq.mp (List.mem_filter.mp huse).2) hid

theorem mem_firstUses_names {xs : List (String × Nat)} {id : String} :
    id ∈ (firstUses xs).map Prod.fst ↔ id ∈ xs.map Prod.fst := by
  induction xs with
  | nil => rfl
  | cons x xs ih =>
      rw [List.map_cons, List.mem_cons, ← ih]
      constructor
      · intro h
        obtain ⟨use, huse, rfl⟩ := List.mem_map.mp h
        rcases mem_firstUses_cons.mp huse with rfl | ⟨huse, -⟩
        · exact .inl rfl
        · exact .inr (List.mem_map_of_mem huse)
      · intro h
        by_cases hid : id = x.1
        · rw [hid]
          exact List.mem_map_of_mem (mem_firstUses_cons.mpr (.inl rfl))
        · obtain ⟨use, huse, rfl⟩ := List.mem_map.mp (h.resolve_left hid)
          exact List.mem_map_of_mem (mem_firstUses_cons.mpr (.inr ⟨huse, hid⟩))

theorem firstUses_append (xs ys : List (String × Nat)) :
    firstUses (xs ++ ys) = firstUses xs ++
      (firstUses ys).filter fun (use : String × Nat) => use.1 ∉ xs.map Prod.fst := by
  induction xs with
  | nil =>
      rw [List.nil_append, firstUses, List.nil_append, List.filter_eq_self.mpr]
      intro use _
      exact decide_eq_true List.not_mem_nil
  | cons x xs ih =>
      rw [List.cons_append, firstUses, firstUses, ih, List.filter_append, List.filter_filter,
        List.cons_append]
      refine congrArg (fun later => x :: (_ ++ later)) (List.filter_congr fun use _ => ?_)
      rw [← Bool.decide_and, decide_eq_decide, List.map_cons, List.mem_cons, not_or]

/-- The uses name the same names, first in the same places. -/
def SameUses (xs ys : List (String × Nat)) : Prop := firstUses xs = firstUses ys

namespace SameUses

variable {xs xs' ys ys' : List (String × Nat)}

theorem mem_names (h : SameUses xs xs') {id : String} :
    id ∈ xs.map Prod.fst ↔ id ∈ xs'.map Prod.fst := by
  rw [← mem_firstUses_names, h, mem_firstUses_names]

theorem append (h : SameUses xs xs') (h' : SameUses ys ys') : SameUses (xs ++ ys) (xs' ++ ys') := by
  rw [SameUses, firstUses_append, firstUses_append, h, h']
  refine congrArg (firstUses xs' ++ ·) (List.filter_congr fun use _ => ?_)
  rw [decide_eq_decide, h.mem_names]

theorem mem_append_right (h : SameUses ys ys') {id : String} (hid : id ∈ ys.map Prod.fst)
    (xs : List (String × Nat)) : id ∈ (xs ++ ys').map Prod.fst := by
  rw [List.map_append, List.mem_append]
  exact .inr (h.mem_names.mp hid)

/-- Uses of names that were used before change nothing. -/
theorem absorb (h : ∀ id ∈ ys.map Prod.fst, id ∈ xs.map Prod.fst) : SameUses (xs ++ ys) xs := by
  rw [SameUses, firstUses_append, List.filter_eq_nil_iff.mpr, List.append_nil]
  intro use huse hnot
  have hid := h use.1 (mem_firstUses_names.mp (List.mem_map_of_mem huse))
  exact decide_eq_true_eq.mp hnot hid

end SameUses

/-- Where the places increase, the first use of a name is the one at the least place. -/
theorem mem_firstUses_iff {xs : List (String × Nat)} (h : xs.Pairwise fun a b => a.2 < b.2)
    {use : String × Nat} :
    use ∈ firstUses xs ↔ use ∈ xs ∧ ∀ other ∈ xs, other.1 = use.1 → use.2 ≤ other.2 := by
  induction xs with
  | nil =>
      constructor
      · intro hmem
        cases hmem
      · rintro ⟨hmem, -⟩
        cases hmem
  | cons x xs ih =>
      obtain ⟨hx, hxs⟩ := List.pairwise_cons.mp h
      rw [mem_firstUses_cons, ih hxs, List.forall_mem_cons, List.mem_cons]
      constructor
      · rintro (rfl | ⟨⟨hmem, hleast⟩, hne⟩)
        · exact ⟨.inl rfl, fun _ => Nat.le_refl _,
            fun other hother _ => Nat.le_of_lt (hx other hother)⟩
        · exact ⟨.inr hmem, fun heq => absurd heq.symm hne, hleast⟩
      · rintro ⟨rfl | hmem, hle, hleast⟩
        · exact .inl rfl
        · refine .inr ⟨⟨hmem, hleast⟩, fun heq => ?_⟩
          exact Nat.not_lt.mpr (hle heq.symm) (hx use hmem)

end Compiled

/-! ## Names among lexemes -/

namespace Lexeme

/-- The name that a lexeme is, and where it stands. -/
def use? (l : Lexeme) : Option (String × Nat) :=
  match l.token with
  | .name id => some (id, l.pos)
  | _ => none

/-- The names among the lexemes, with repeats. -/
def uses (ls : List Lexeme) : List (String × Nat) := ls.filterMap use?

theorem use?_eq_some_iff {l : Lexeme} {id : String} {pos : Nat} :
    l.use? = some (id, pos) ↔ l = ⟨.name id, pos⟩ := by
  obtain ⟨token, place⟩ := l
  constructor
  · intro h
    unfold use? at h
    split at h
    · rename_i htoken
      cases htoken
      cases h
      rfl
    · cases h
  · intro h
    cases h
    rfl

theorem mem_uses {ls : List Lexeme} {id : String} {pos : Nat} :
    (id, pos) ∈ uses ls ↔ ⟨.name id, pos⟩ ∈ ls := by
  rw [uses, List.mem_filterMap]
  constructor
  · rintro ⟨l, hl, huse⟩
    rw [use?_eq_some_iff.mp huse] at hl
    exact hl
  · intro h
    exact ⟨_, h, rfl⟩

theorem uses_append (ls rs : List Lexeme) : uses (ls ++ rs) = uses ls ++ uses rs :=
  List.filterMap_append

@[simp] theorem uses_symbol (s : Symbol) (pos : Nat) (ls : List Lexeme) :
    uses (⟨.symbol s, pos⟩ :: ls) = uses ls :=
  List.filterMap_cons_none rfl

theorem uses_operator (ls rs : List Lexeme) (s : Symbol) (pos : Nat) :
    uses (ls ++ ⟨.symbol s, pos⟩ :: rs) = uses ls ++ uses rs := by
  rw [uses_append, uses_symbol]

theorem uses_closed (ls : List Lexeme) (s : Symbol) (pos : Nat) :
    uses (ls ++ [⟨.symbol s, pos⟩]) = uses ls := by
  rw [uses_append, uses_symbol]
  exact List.append_nil _

/-- The name stands at the place, and nowhere before it. -/
structure FirstAt (ls : List Lexeme) (id : String) (pos : Nat) : Prop where
  occurs : ⟨.name id, pos⟩ ∈ ls
  least : ∀ later, ⟨.name id, later⟩ ∈ ls → pos ≤ later

end Lexeme

/-! ## Names of expressions -/

theorem Expr.namesItems_append (es es' : List Expr) :
    namesItems (es ++ es') = namesItems es ++ namesItems es' := by
  induction es with
  | nil => rfl
  | cons e es ih => rw [List.cons_append, namesItems, namesItems, ih, List.append_assoc]

open Compiled Lexeme in
/-- An expression names what its lexemes name, first in the same order. The operand that two
comparisons share is named once more by the expression, but not first. -/
theorem Derives.sameUses_chain {g : Grammar} {category : Category} {ls : List Lexeme} {e : Expr}
    (h : Derives g category ls e) :
    SameUses e.names (uses ls) ∧ ∀ last, category = .chain last →
      ∀ id ∈ last.names.map Prod.fst, id ∈ (uses ls).map Prod.fst := by
  induction h with
  | operand _ _ ih => exact ⟨ih.1, fun _ h => nomatch h⟩
  | unary _ _ ih =>
      rw [uses_symbol]
      exact ⟨ih.1, fun _ h => nomatch h⟩
  | binary _ _ _ _ _ ihleft ihright =>
      rw [uses_operator]
      exact ⟨ihleft.1.append ihright.1, fun _ h => nomatch h⟩
  | compare _ _ _ _ ihleft ihright =>
      rw [uses_operator]
      refine ⟨ihleft.1.append ihright.1, ?_⟩
      rintro _ ⟨⟩ id hid
      exact ihright.1.mem_append_right hid _
  | @extend _ _ _ _ ls rs a b e _ _ _ _ ihleft ihright =>
      rw [uses_operator]
      constructor
      · have hshared : SameUses (e.names ++ a.names) e.names :=
          .absorb fun id hid => ihleft.1.mem_names.mpr (ihleft.2 a rfl id hid)
        change SameUses (e.names ++ (a.names ++ b.names)) _
        rw [← List.append_assoc]
        exact SameUses.append (hshared.trans ihleft.1) ihright.1
      · rintro _ ⟨⟩ id hid
        exact ihright.1.mem_append_right hid _
  | chain _ ih => exact ⟨ih.1, fun _ h => nomatch h⟩
  | base _ ih => exact ⟨ih.1, fun _ h => nomatch h⟩
  | power _ _ ihleft ihright =>
      rw [uses_operator]
      exact ⟨ihleft.1.append ihright.1, fun _ h => nomatch h⟩
  | primary _ ih => exact ⟨ih.1, fun _ h => nomatch h⟩
  | index _ _ ihleft ihright =>
      rw [uses_closed, uses_operator]
      exact ⟨ihleft.1.append ihright.1, fun _ h => nomatch h⟩
  | literal value pos =>
      refine ⟨?_, fun _ h => nomatch h⟩
      cases value <;> rfl
  | name id pos => exact ⟨rfl, fun _ h => nomatch h⟩
  | paren _ ih =>
      rw [uses_closed, uses_symbol]
      exact ⟨ih.1, fun _ h => nomatch h⟩
  | empty pos close => exact ⟨rfl, fun _ h => nomatch h⟩
  | array _ ih =>
      rw [uses_closed]
      exact ⟨ih.1, fun _ h => nomatch h⟩
  | @first _ _ e _ ih =>
      rw [uses_symbol, Expr.names, Expr.namesItems, Expr.namesItems, List.append_nil]
      exact ⟨ih.1, fun _ h => nomatch h⟩
  | more _ _ ihleft ihright =>
      rw [uses_operator, Expr.names, Expr.namesItems_append, Expr.namesItems, Expr.namesItems,
        List.append_nil]
      exact ⟨ihleft.1.append ihright.1, fun _ h => nomatch h⟩

end Formula
