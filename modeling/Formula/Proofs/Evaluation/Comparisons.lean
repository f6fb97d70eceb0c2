import Formula.Proofs.Accelerated.Lowering
import Formula.Proofs.Reading.Chains

/-! # Chains of comparisons

A chain of comparisons of scalars holds when each of its comparisons does. All of them are made,
from left to right, and the first that fails is the error of the chain. -/

namespace Formula

open Operation

/-- What comparisons that all have to hold amount to. -/
inductive AllHold : List (Except RuntimeError Value) → Except RuntimeError Value → Prop where
  | holds {links : List (Except RuntimeError Value)}
      (h : ∀ link ∈ links, link = .ok (.bool true)) : AllHold links (.ok (.bool true))
  | broken {links : List (Except RuntimeError Value)}
      (h : ∀ link ∈ links, ∃ b, link = .ok (.bool b)) (hfalse : .ok (.bool false) ∈ links) :
      AllHold links (.ok (.bool false))
  | fails {before after : List (Except RuntimeError Value)} {e : RuntimeError}
      (h : ∀ link ∈ before, ∃ b, link = .ok (.bool b)) :
      AllHold (before ++ .error e :: after) (.error e)

/-- The comparison of each value with the one before it, at the position of its operator. -/
def links (value : Nat → Value) (steps : List Step) : List (Except RuntimeError Value) :=
  steps.mapIdx fun i step =>
    Fault.locate step.pos (comparison step.op (value i) (value (i + 1)))

theorem links_cons (value : Nat → Value) (step : Step) (steps : List Step) :
    links value (step :: steps) =
      Fault.locate step.pos (comparison step.op (value 0) (value 1)) ::
        links (fun i => value (i + 1)) steps :=
  List.mapIdx_cons

theorem bool_of_mem_links {value : Nat → Value} {steps : List Step} {v : Value}
    (h : .ok v ∈ links value steps) : ∃ b, v = .bool b := by
  obtain ⟨i, hi, hlink⟩ := List.mem_mapIdx.mp h
  exact bool_of_comparison (Fault.locate_eq_ok.mp hlink)

/-! ## One more comparison -/

namespace AllHold

variable {made : List (Except RuntimeError Value)} {x y : Except RuntimeError Value}

theorem single (hy : ∀ v, y = .ok v → ∃ b, v = .bool b) : AllHold [y] y := by
  cases y with
  | error e => exact @fails [] [] e (by simp)
  | ok v =>
      obtain ⟨b, rfl⟩ := hy v rfl
      cases b with
      | true => exact .holds (by simp)
      | false => exact .broken (by simp) (by simp)

/-- The conjunction with one more comparison, which is made also when the chain is broken. -/
theorem snoc (h : AllHold made x) (hy : ∀ v, y = .ok v → ∃ b, v = .bool b) (division : Division)
    (pos : Nat) :
    AllHold (made ++ [y])
      (x >>= fun u => y >>= fun w => Fault.locate pos (binary division .bitAnd u w)) := by
  cases y with
  | error e =>
      cases h with
      | holds h => exact fails fun link hlink => ⟨true, h link hlink⟩
      | broken h _ => exact fails h
      | @fails before after e' h =>
          rw [List.append_assoc]
          exact fails h
  | ok v =>
      obtain ⟨b, rfl⟩ := hy v rfl
      cases h with
      | holds h =>
          cases b with
          | true => exact holds (by simpa [or_imp, forall_and] using h)
          | false =>
              refine broken (List.forall_mem_append.mpr ⟨fun link hlink => ?_, ?_⟩) (by simp)
              · exact ⟨true, h link hlink⟩
              · exact List.forall_mem_singleton.mpr ⟨false, rfl⟩
      | broken h hfalse =>
          refine broken (List.forall_mem_append.mpr ⟨h, ?_⟩) (by simp [hfalse])
          exact List.forall_mem_singleton.mpr ⟨b, rfl⟩
      | @fails before after e h =>
          rw [List.append_assoc]
          exact fails h

/-- The conjunction of a chain with more comparisons, one after the other. -/
theorem foldl {terms : Bindings} {division : Division} {chain : Expr} {comparisons : List Expr}
    (h : AllHold made (chain.eval terms division))
    (hlinks : ∀ c ∈ comparisons, ∀ v, c.eval terms division = .ok v → ∃ b, v = .bool b) :
    AllHold (made ++ comparisons.map (·.eval terms division))
      ((comparisons.foldl (fun chain next => .binary .bitAnd chain next next.pos) chain).eval
        terms division) := by
  induction comparisons generalizing made chain with
  | nil => simpa using h
  | cons next comparisons ih =>
      have hnext := h.snoc (hlinks next List.mem_cons_self) division next.pos
      rw [← Expr.eval_binary (by decide)] at hnext
      rw [List.map_cons, List.append_cons, List.foldl_cons]
      exact ih hnext fun c hc => hlinks c (List.mem_cons_of_mem next hc)

end AllHold

/-! ## The chain -/

section

variable {op : BinaryOp} (hop : op.isComparison = true)
include hop

theorem not_logic_of_isComparison : op ≠ .and ∧ op ≠ .or := by
  constructor <;> (rintro rfl; cases hop)

theorem binary_of_isComparison {division : Division} {u w : Value} (hu : u.isScalar = true)
    (hw : w.isScalar = true) : binary division op u w = comparison op u w := by
  rw [binary_of_isScalar (not_logic_of_isComparison hop) hu hw]
  cases op <;> first | rfl | cases hop

end

namespace Expr

variable {g : Grammar} {terms : Bindings} {division : Division}

/-- The comparisons of a chain are those of its adjacent operands. -/
theorem map_eval_adjacent {first : Expr} {steps : List Step} {value : Nat → Value}
    (hop : ∀ step ∈ steps, step.op.isComparison = true)
    (hvalues : ∀ i e, (first :: steps.map Step.operand)[i]? = some e →
      e.eval terms division = .ok (value i) ∧ (value i).isScalar = true) :
    (adjacent first steps).map (·.eval terms division) = links value steps := by
  induction steps generalizing first value with
  | nil => rfl
  | cons step steps ih =>
      obtain ⟨hfirst, hscalar⟩ := hvalues 0 first rfl
      obtain ⟨hsecond, hscalar'⟩ := hvalues 1 step.operand rfl
      obtain ⟨hcomparison, hop⟩ := List.forall_mem_cons.mp hop
      have hlink : (binary step.op first step.operand step.pos).eval terms division =
          Fault.locate step.pos (comparison step.op (value 0) (value 1)) := by
        rw [eval_binary (not_logic_of_isComparison hcomparison), hfirst, ok_bind, hsecond, ok_bind,
          binary_of_isComparison hcomparison hscalar hscalar']
      rw [adjacent, List.map_cons, hlink, links_cons]
      refine congrArg _ (ih hop fun i e he => ?_)
      exact hvalues (i + 1) e he

/-- A text that is a chain of comparisons, whose operands have scalars as values, is read as an
expression that holds when all adjacent comparisons do. -/
theorem eval_comparisons {source : String} {used rest : List Lexeme} {first : Expr}
    {steps : List Step} {value : Nat → Value}
    (hsource : Lexeme.ofText source = .ok (used ++ rest))
    (hfirst : Derives g (.level (g.below .comparison)) used first)
    (hsteps : Follows g .comparison (g.below .comparison) rest steps) (hne : steps ≠ [])
    (hvalues : ∀ i e, (first :: steps.map Step.operand)[i]? = some e →
      e.eval terms division = .ok (value i) ∧ (value i).isScalar = true) :
    ∃ t, Expr.ofText g source = .ok t ∧ AllHold (links value steps) (t.eval terms division) := by
  have hlevel : g.Has .comparison := trivial
  refine ⟨_, ofText_of_follows hlevel Level.noConfusion hsource hfirst hsteps, ?_⟩
  have hops := hsteps.forall_op fun _ _ h => h.isComparison
  have hmade := map_eval_adjacent hops hvalues
  cases steps with
  | nil => exact absurd rfl hne
  | cons step steps =>
      have hbool : ∀ c ∈ adjacent first (step :: steps), ∀ v, c.eval terms division = .ok v →
          ∃ b, v = .bool b := by
        intro c hc v hv
        have hlink : .ok v ∈ links value (step :: steps) := by
          rw [← hmade, ← hv]
          exact List.mem_map_of_mem hc
        exact bool_of_mem_links hlink
      obtain ⟨hcomparison, hcomparisons⟩ := List.forall_mem_cons.mp hbool
      rw [← hmade]
      exact (AllHold.single hcomparison).foldl hcomparisons

def unordered : Bindings := .ofList [("a", .integer 2), ("b", .integer 1), ("c", .text "x")]

/-- The comparison behind one that does not hold is made all the same. -/
theorem eval_comparisons_unordered :
    Lexeme.ofText "a < b < c" = .ok ([⟨.name "a", 0⟩] ++
        [⟨.symbol .less, 2⟩, ⟨.name "b", 4⟩, ⟨.symbol .less, 6⟩, ⟨.name "c", 8⟩]) ∧
      ∃ t, Expr.ofText .strict "a < b < c" = .ok t ∧
        AllHold [.ok (.bool false), .error ⟨.typeMismatch (.unordered .less .int .text), 6⟩]
          (t.eval unordered .exact) := by
  have hsource : Lexeme.ofText "a < b < c" = .ok ([⟨.name "a", 0⟩] ++
      [⟨.symbol .less, 2⟩, ⟨.name "b", 4⟩, ⟨.symbol .less, 6⟩, ⟨.name "c", 8⟩]) := by
    rw [Lexeme.ofText_eq_readWithin]
    rfl
  have hoperand (id : String) (pos : Nat) :
      Derives .strict (.level .bitOr) [⟨.name id, pos⟩] (.name id pos) :=
    Derives.ofIndexed (.primary (.name id pos)) rfl
  have hsteps : Follows .strict .comparison .bitOr
      [⟨.symbol .less, 2⟩, ⟨.name "b", 4⟩, ⟨.symbol .less, 6⟩, ⟨.name "c", 8⟩]
      [⟨.less, 2, .name "b" 4⟩, ⟨.less, 6, .name "c" 8⟩] :=
    .cons .less (hoperand "b" 4) (.cons .less (hoperand "c" 8) .nil)
  have hvalues : ∀ i e, [Expr.name "a" 0, .name "b" 4, .name "c" 8][i]? = some e →
      e.eval unordered .exact = .ok ([Value.integer 2, .integer 1, .text "x"].getD i default) ∧
        ([Value.integer 2, .integer 1, .text "x"].getD i default).isScalar = true := by
    intro i e he
    rcases i with _ | _ | _ | i <;> cases he <;> exact ⟨rfl, rfl⟩
  exact ⟨hsource, eval_comparisons hsource (hoperand "a" 0) hsteps (by simp) hvalues⟩

end Expr

end Formula
