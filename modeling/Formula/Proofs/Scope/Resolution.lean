import Formula.Compiled
import Formula.Proofs.Outcome

/-! # Resolution of names

What a scope answers, and what binding a list of names to its answers gives. -/

namespace Formula

/-- A lookup fails only where it reaches a calling frame that does not exist. -/
theorem Scope.resolve_eq_error {scope : Scope} {name : String} {e : Failure}
    (h : scope.resolve name = .error e) :
    ∃ stack, scope.stack = some stack ∧ e = .contextDepth scope.contextDepth stack.size := by
  unfold resolve at h
  split at h
  · cases h
  · rcases bind_eq_error.mp h with hframe | ⟨frame, -, hframe⟩
    · unfold frame? at hframe
      split at hframe
      · rename_i stack hstack
        refine ⟨stack, hstack, ?_⟩
        rw [CallStack.frameAt] at hframe
        split at hframe
        · cases hframe
        · split at hframe
          · cases hframe
          · cases hframe
            rfl
      · cases hframe
    · cases hframe

namespace Compiled

variable {scope : Scope}

theorem bind_eq_ok_iff {terms terms' : Bindings} {use : String × Nat} :
    bind scope terms use = .ok terms' ↔
      ∃ value, scope.resolve use.1 = .ok (some value) ∧ terms' = terms.insert use.1 value := by
  rw [bind, bind_eq_ok]
  constructor
  · rintro ⟨answer, hresolve, h⟩
    cases answer with
    | some value =>
        cases h
        exact ⟨value, hresolve, rfl⟩
    | none => cases h
  · rintro ⟨value, hresolve, rfl⟩
    exact ⟨some value, hresolve, rfl⟩

/-- The failure to bind a name: that of the lookup, or that nothing is bound to the name. -/
def Unbound (scope : Scope) (use : String × Nat) (e : Failure) : Prop :=
  scope.resolve use.1 = .error e ∨
    scope.resolve use.1 = .ok none ∧ e = .unresolved use.1 use.2

theorem bind_eq_error_iff {terms : Bindings} {use : String × Nat} {e : Failure} :
    bind scope terms use = .error e ↔ Unbound scope use e := by
  rw [bind, bind_eq_error, Unbound]
  refine or_congr_right ?_
  constructor
  · rintro ⟨answer, hresolve, h⟩
    cases answer with
    | some value => cases h
    | none =>
        cases h
        exact ⟨hresolve, rfl⟩
  · rintro ⟨hresolve, rfl⟩
    exact ⟨none, hresolve, rfl⟩

/-! ## Lists of names -/

/-- Binding names binds all of them to what the scope answers, and no other name. -/
theorem foldlM_bind_eq_ok {uses : List (String × Nat)} {terms terms' : Bindings}
    (h : uses.foldlM (bind scope) terms = .ok terms') :
    (∀ id ∈ uses.map Prod.fst, ∃ value, scope.resolve id = .ok (some value) ∧
      terms'.get? id = some value) ∧
      ∀ id, id ∉ uses.map Prod.fst → terms'.get? id = terms.get? id := by
  induction uses generalizing terms with
  | nil =>
      cases h
      refine ⟨fun id hid => ?_, fun _ _ => rfl⟩
      cases hid
  | cons use uses ih =>
      rw [List.foldlM_cons, bind_eq_ok] at h
      obtain ⟨between, hbind, h⟩ := h
      obtain ⟨value, hresolve, rfl⟩ := bind_eq_ok_iff.mp hbind
      obtain ⟨hbound, hframe⟩ := ih h
      rw [List.map_cons]
      constructor
      · intro id hid
        by_cases hlater : id ∈ uses.map Prod.fst
        · exact hbound id hlater
        · obtain rfl := (List.mem_cons.mp hid).resolve_right hlater
          refine ⟨value, hresolve, ?_⟩
          rw [hframe _ hlater, Bindings.get?_insert, if_pos rfl]
      · intro id hid
        rw [List.mem_cons, not_or] at hid
        obtain ⟨hne, hlater⟩ := hid
        rw [hframe id hlater, Bindings.get?_insert, if_neg hne]

/-- Binding names fails at the first of them that the scope does not answer. -/
theorem foldlM_bind_eq_error {uses : List (String × Nat)} {terms : Bindings} {e : Failure}
    (h : uses.foldlM (bind scope) terms = .error e) :
    ∃ before use after, uses = before ++ use :: after ∧ Unbound scope use e ∧
      ∀ earlier ∈ before, ∃ value, scope.resolve earlier.1 = .ok (some value) := by
  induction uses generalizing terms with
  | nil => cases h
  | cons use uses ih =>
      rw [List.foldlM_cons, bind_eq_error] at h
      rcases h with hbind | ⟨between, hbind, h⟩
      · exact ⟨[], use, uses, rfl, bind_eq_error_iff.mp hbind, fun _ h => nomatch h⟩
      · obtain ⟨before, missing, after, rfl, hmissing, hbefore⟩ := ih h
        obtain ⟨value, hresolve, -⟩ := bind_eq_ok_iff.mp hbind
        refine ⟨use :: before, missing, after, rfl, hmissing, ?_⟩
        rw [List.forall_mem_cons]
        exact ⟨⟨value, hresolve⟩, hbefore⟩

/-- The failure to bind a name is that of the list when all names before it have values. -/
theorem foldlM_bind_of_unbound {before after : List (String × Nat)} {use : String × Nat}
    {e : Failure} (terms : Bindings)
    (hbefore : ∀ earlier ∈ before, ∃ value, scope.resolve earlier.1 = .ok (some value))
    (h : Unbound scope use e) :
    (before ++ use :: after).foldlM (bind scope) terms = .error e := by
  induction before generalizing terms with
  | nil => rw [List.nil_append, List.foldlM_cons, bind_eq_error_iff.mpr h, error_bind]
  | cons earlier before ih =>
      rw [List.forall_mem_cons] at hbefore
      obtain ⟨⟨value, hvalue⟩, hbefore⟩ := hbefore
      rw [List.cons_append, List.foldlM_cons, bind_eq_ok_iff.mpr ⟨value, hvalue, rfl⟩, ok_bind]
      exact ih _ hbefore

/-- Scopes with the same answers bind names alike. -/
theorem foldlM_bind_congr {scope' : Scope} {uses : List (String × Nat)} (terms : Bindings)
    (h : ∀ id ∈ uses.map Prod.fst, scope.resolve id = scope'.resolve id) :
    uses.foldlM (bind scope) terms = uses.foldlM (bind scope') terms := by
  induction uses generalizing terms with
  | nil => rfl
  | cons use uses ih =>
      rw [List.map_cons, List.forall_mem_cons] at h
      obtain ⟨huse, huses⟩ := h
      have hbind : bind scope terms use = bind scope' terms use := by
        rw [bind, bind, huse]
      rw [List.foldlM_cons, List.foldlM_cons, hbind]
      exact congrArg _ (funext fun between => ih between huses)

/-- What is compiled from a text that parses. -/
theorem ofText_of_tree {source : String} {grammar : Grammar} {tree : Expr}
    (h : Expr.ofText grammar source = .ok tree) (engine : String) (division : Division) :
    ofText source grammar scope engine division = (do
      let terms ← (firstUses tree.names).foldlM (bind scope) Bindings.empty
      return {
        source, tree, grammar, engine, division, terms,
        names := (firstUses tree.names).map Prod.fst,
        lookup := scope.resolve,
        resolverCount := scope.resolvers.length
      }) := by
  rw [ofText, h]

theorem engine_of_ofText {source : String} {grammar : Grammar} {engine : String}
    {division : Division} {c : Compiled}
    (h : ofText source grammar scope engine division = .ok c) : c.engine = engine := by
  cases hread : Expr.ofText grammar source with
  | error error =>
      rw [ofText, hread] at h
      cases h
  | ok tree =>
      rw [ofText_of_tree hread] at h
      obtain ⟨terms, -, h⟩ := bind_eq_ok.mp h
      cases h
      rfl

/-- A text that parses fails to compile where its names fail to be bound. -/
theorem ofText_eq_error_iff {source : String} {grammar : Grammar} {tree : Expr}
    (h : Expr.ofText grammar source = .ok tree) {engine : String} {division : Division}
    {e : Failure} :
    ofText source grammar scope engine division = .error e ↔
      (firstUses tree.names).foldlM (bind scope) Bindings.empty = .error e := by
  rw [ofText_of_tree h]
  cases (firstUses tree.names).foldlM (bind scope) Bindings.empty <;> simp

end Compiled

end Formula
