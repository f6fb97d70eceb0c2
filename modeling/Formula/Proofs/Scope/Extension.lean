import Formula.Proofs.Evaluation.Stages

/-! # Longer chains of resolvers

Resolvers at the end of the chain are asked last, and only for what nothing before them binds. They
can therefore do no more than supply names that were missing. -/

namespace Formula

/-- The scope with more resolvers at the end of its chain. -/
def Scope.extend (s : Scope) (more : List Resolver) : Scope :=
  { s with resolvers := s.resolvers ++ more }

/-- The options with more resolvers at the end of their chain. -/
def Options.extend (o : Options) (more : List Resolver) : Options :=
  { o with resolvers := o.resolvers ++ more.map .keyed }

/-- The outcome is kept unless a name was missing, and what is missing then does not stand before
that name. -/
structure Persists {α : Type} (outcome outcome' : Except Failure α) : Prop where
  unchanged : (∀ name pos, outcome ≠ .error (.unresolved name pos)) → outcome' = outcome
  noEarlier : ∀ name pos name' pos', outcome = .error (.unresolved name pos) →
    outcome' = .error (.unresolved name' pos') → pos ≤ pos'

namespace Persists

variable {α β : Type} {x y : Except Failure α}

theorem refl (x : Except Failure α) : Persists x x where
  unchanged _ := rfl
  noEarlier name pos name' pos' h h' := by
    rw [h] at h'
    cases h'
    exact Nat.le_refl pos

/-- What comes before the resolvers in an evaluation is the same for both chains. -/
theorem bind_right {f g : α → Except Failure β} (x : Except Failure α)
    (h : ∀ a, x = .ok a → Persists (f a) (g a)) : Persists (x >>= f) (x >>= g) := by
  cases x with
  | ok a => exact h a rfl
  | error e => exact refl _

/-- What comes after the names are bound misses none. -/
theorem bind_left (h : Persists x y) {f : α → Except Failure β}
    (hf : ∀ a name pos, f a ≠ .error (.unresolved name pos)) :
    Persists (x >>= f) (y >>= f) where
  unchanged hx := by
    rw [h.unchanged]
    rintro name pos rfl
    exact hx name pos rfl
  noEarlier name pos name' pos' hx hy := by
    have hsource {z : Except Failure α} {name : String} {pos : Nat}
        (hz : (z >>= f) = .error (.unresolved name pos)) : z = .error (.unresolved name pos) := by
      rcases bind_eq_error.mp hz with hz | ⟨a, -, ha⟩
      · exact hz
      · exact absurd ha (hf a name pos)
    exact h.noEarlier name pos name' pos' (hsource hx) (hsource hy)

end Persists

namespace Scope

variable {s : Scope} {name : String}

theorem frame?_extend (s : Scope) (more : List Resolver) : (s.extend more).frame? = s.frame? := rfl

/-- The added resolvers are asked when nothing else binds the name. -/
theorem resolveIn_extend (s : Scope) (more : List Resolver) (frame : Option Frame)
    (name : String) :
    (s.extend more).resolveIn frame name =
      (s.resolveIn frame name <|> more.findSome? (·.resolve name)) := by
  simp only [resolveIn, extend, List.findSome?_append, Option.orElse_eq_orElse, Option.orElse_eq_or,
    Option.or_assoc]

/-- A name that was not missing resolves as before. -/
theorem resolve_extend (h : s.resolve name ≠ .ok none) (more : List Resolver) :
    (s.extend more).resolve name = s.resolve name := by
  unfold resolve at h ⊢
  rw [show (s.extend more).locals = s.locals from rfl, frame?_extend]
  cases hlocal : s.locals.bind (·.get? name) with
  | some value => rfl
  | none =>
      rw [hlocal] at h
      cases hframe : s.frame? with
      | error e => rfl
      | ok frame =>
          rw [hframe] at h
          simp only [ok_bind, pure_eq_ok, ne_eq, Except.ok.injEq] at h ⊢
          obtain ⟨value, hvalue⟩ := Option.ne_none_iff_exists'.mp h
          rw [resolveIn_extend, hvalue]
          rfl

end Scope

namespace Compiled

variable {scope : Scope} {uses : List (String × Nat)} {terms : Bindings}

/-- A list of names misses the first that nothing binds, after names that all have values. -/
theorem foldlM_bind_eq_unresolved {name : String} {pos : Nat}
    (h : uses.foldlM (bind scope) terms = .error (.unresolved name pos)) :
    ∃ before after, uses = before ++ (name, pos) :: after ∧ scope.resolve name = .ok none ∧
      ∀ earlier ∈ before, ∃ value, scope.resolve earlier.1 = .ok (some value) := by
  obtain ⟨before, use, after, rfl, hunbound, hbefore⟩ := foldlM_bind_eq_error h
  rcases hunbound with herror | ⟨hnone, heq⟩
  · obtain ⟨stack, -, heq⟩ := Scope.resolve_eq_error herror
    cases heq
  · cases heq
    exact ⟨before, after, rfl, hnone, hbefore⟩

theorem foldlM_bind_extend (more : List Resolver)
    (h : ∀ name pos, uses.foldlM (bind scope) terms ≠ .error (.unresolved name pos)) :
    uses.foldlM (bind (scope.extend more)) terms = uses.foldlM (bind scope) terms := by
  cases hfold : uses.foldlM (bind scope) terms with
  | ok terms' =>
      obtain ⟨hbound, -⟩ := foldlM_bind_eq_ok hfold
      rw [← hfold]
      refine foldlM_bind_congr terms fun id hid => Scope.resolve_extend ?_ more
      obtain ⟨value, hvalue, -⟩ := hbound id hid
      rw [hvalue]
      nofun
  | error e =>
      obtain ⟨before, use, after, rfl, hunbound, hbefore⟩ := foldlM_bind_eq_error hfold
      refine foldlM_bind_of_unbound terms (fun earlier hearlier => ?_) ?_
      · obtain ⟨value, hvalue⟩ := hbefore earlier hearlier
        refine ⟨value, ?_⟩
        rw [Scope.resolve_extend (by rw [hvalue]; nofun), hvalue]
      · rcases hunbound with herror | ⟨-, rfl⟩
        · refine .inl ?_
          rw [Scope.resolve_extend (by rw [herror]; nofun), herror]
        · exact absurd hfold (h use.1 use.2)

/-- With more resolvers, names at rising places are bound as before, or else the first that was
missing is found or still missing. -/
theorem persists_foldlM_bind (huses : uses.Pairwise fun a b => a.2 < b.2)
    (more : List Resolver) :
    Persists (uses.foldlM (bind scope) terms) (uses.foldlM (bind (scope.extend more)) terms) where
  unchanged := foldlM_bind_extend more
  noEarlier name pos name' pos' h h' := by
    obtain ⟨before, after, rfl, -, hbefore⟩ := foldlM_bind_eq_unresolved h
    obtain ⟨before', after', hsplit, hnone, -⟩ := foldlM_bind_eq_unresolved h'
    have hmem : (name', pos') ∈ before ++ (name, pos) :: after := by
      rw [hsplit]
      exact List.mem_append_cons_self
    rcases List.mem_append.mp hmem with hearlier | hlater
    · -- what stands before the missing name had a value, and keeps it
      obtain ⟨value, hvalue⟩ := hbefore _ hearlier
      rw [Scope.resolve_extend (by rw [hvalue]; nofun), hvalue] at hnone
      cases hnone
    · rcases List.mem_cons.mp hlater with heq | hlater
      · cases heq
        exact Nat.le_refl pos
      · obtain ⟨-, htail, -⟩ := List.pairwise_append.mp huses
        exact Nat.le_of_lt (List.rel_of_pairwise_cons htail hlater)

/-- The first uses of the names of a text are at rising places. -/
theorem pairwise_firstUses {grammar : Grammar} {source : String} {tree : Expr}
    (h : Expr.ofText grammar source = .ok tree) :
    (firstUses tree.names).Pairwise fun a b => a.2 < b.2 := by
  obtain ⟨-, ls, hls, hderives⟩ := ofText_eq_ok_iff.mp h
  rw [hderives.sameUses_chain.1]
  exact (pairwise_uses (Lexeme.pairwise_pos_of_ofText hls)).sublist (firstUses_sublist _)

end Compiled

namespace Namespace

theorem resolvers_append_keyed (candidates : List Namespace) (more : List Resolver) :
    Namespace.resolvers (candidates ++ more.map .keyed) =
      (Namespace.resolvers candidates >>= fun resolvers => .ok (resolvers ++ more)) := by
  have hmore : (more.map Namespace.keyed).mapM resolver? = .ok more :=
    Registry.resolvers_keyed more
  rw [Namespace.resolvers, Namespace.resolvers, List.mapM_append]
  simp only [hmore, ok_bind, pure_eq_ok]

end Namespace

namespace Registry

open Compiled

variable {r : Registry} {o : Options}

theorem checkResult_ne_unresolved (value : Value) (name : String) (pos : Nat) :
    checkResult value ≠ .error (.unresolved name pos) := by
  intro h
  cases (checkResult_eq_error_iff.mp h).2

theorem execute_ne_unresolved {c : Compiled} {engine : Engine}
    (hengine : r.engine c.engine = .ok engine) (name : String) (pos : Nat) :
    r.execute c ≠ .error (.unresolved name pos) := by
  rw [execute, hengine, ok_bind]
  intro h
  split at h
  · cases h
  · cases h

/-- Running a text that parses is binding its names and running what is then bound. -/
theorem ofText_execute {grammar : Grammar} {engine : Engine} {text : String} {tree : Expr}
    (htree : Expr.ofText grammar text = .ok tree) (hengine : r.engine engine.name = .ok engine)
    (hbuiltin : engine = .accelerated ∨ engine = .interpreted) (scope : Scope)
    (division : Division) :
    (do r.execute (← ofText text grammar scope engine.name division)) = (do
      let terms ← (firstUses tree.names).foldlM (bind scope) Bindings.empty
      r.execute {
        source := text, tree, grammar, engine := engine.name, division, terms,
        names := (firstUses tree.names).map Prod.fst,
        lookup := fun _ => .ok none,
        resolverCount := 0
      }) := by
  rw [ofText_of_tree htree, bind_assoc]
  refine congrArg _ (funext fun terms => ?_)
  rw [pure_bind]
  exact (execute_scope hbuiltin hengine (fun _ => .ok none) 0).symm

/-- Resolvers at the end of the chain keep the outcome of an evaluation on a built-in engine, unless
a name was missing, and then a name that is still missing does not stand before it. -/
theorem evaluate_extend (expr : Source) (more : List Resolver)
    (hbuiltin : ∀ engine, r.engine o.engine = .ok engine →
      engine = .accelerated ∨ engine = .interpreted) :
    Persists (r.evaluate expr o) (r.evaluate expr (o.extend more)) := by
  rw [evaluate, evaluate, Options.extend, Namespace.resolvers_append_keyed]
  refine .bind_right _ fun text _ => .bind_right _ fun grammar _ =>
    .bind_right _ fun engine hengine => ?_
  rw [bind_assoc]
  refine .bind_right _ fun resolvers _ => ?_
  rw [ok_bind]
  cases htree : Expr.ofText grammar text with
  | error error =>
      simp only [ofText, htree]
      exact .refl _
  | ok tree =>
      have hname : r.engine engine.name = .ok engine := by
        rw [engine_name hengine, hengine]
      have hrun (scope : Scope) := ofText_execute htree hname (hbuiltin engine hengine) scope
      simp only [← bind_assoc, hrun]
      refine .bind_left (.bind_left ?_ fun terms => ?_) checkResult_ne_unresolved
      · exact persists_foldlM_bind (pairwise_firstUses htree) more
      · exact execute_ne_unresolved hname

/-- The evaluation of a text that parses. -/
theorem evaluate_of_tree {text : String} {grammar : Grammar} {engine : Engine}
    {resolvers : List Resolver} {tree : Expr} (hgrammar : r.grammar o.grammar = .ok grammar)
    (hengine : r.engine o.engine = .ok engine)
    (hresolvers : Namespace.resolvers o.resolvers = .ok resolvers)
    (htree : Expr.ofText grammar text = .ok tree) :
    r.evaluate (.text text) o = (do
      let terms ← (firstUses tree.names).foldlM (bind (o.scope resolvers)) Bindings.empty
      checkResult (← r.execute {
        source := text, tree, grammar, engine := engine.name, division := o.division, terms,
        names := (firstUses tree.names).map Prod.fst,
        lookup := (o.scope resolvers).resolve,
        resolverCount := resolvers.length
      })) := by
  rw [evaluate, hgrammar, hengine, hresolvers]
  simp only [expressionText, ok_bind]
  rw [ofText_of_tree htree, bind_assoc]
  rfl

/-- Options that leave two of the names of `b < c < a` without values. -/
def onlyFirst : Options where
  grammar := "strict"
  engine := "interpreted"
  locals := some (.ofList [("b", .integer 1)])

/-- A resolver that binds the first missing name moves the failure on to the next one; with both
names bound, more resolvers change nothing. -/
theorem evaluate_extend_onlyFirst :
    (∃ pos, standard.evaluate (.text "b < c < a") onlyFirst = .error (.unresolved "c" 4) ∧
      standard.evaluate (.text "b < c < a")
          (onlyFirst.extend [.ofBindings (.ofList [("c", .integer 2)])]) =
        .error (.unresolved "a" pos) ∧ 4 ≤ pos) ∧
      standard.evaluate (.text "b < c < a")
          (shadowing.extend [.ofBindings (.ofList [("a", .integer 0)])]) =
        standard.evaluate (.text "b < c < a") shadowing := by
  have hmissing : standard.evaluate (.text "b < c < a") onlyFirst =
      .error (.unresolved "c" 4) :=
    (evaluate_of_tree rfl rfl rfl ofText_sharedOperand).trans rfl
  have hlater : standard.evaluate (.text "b < c < a")
      (onlyFirst.extend [.ofBindings (.ofList [("c", .integer 2)])]) =
        .error (.unresolved "a" 8) :=
    (evaluate_of_tree rfl rfl rfl ofText_sharedOperand).trans rfl
  have hbound : standard.evaluate (.text "b < c < a") shadowing = .ok (.bool true) :=
    (evaluate_of_tree rfl rfl rfl ofText_sharedOperand).trans rfl
  have hbuiltin (engine : Engine) (h : standard.engine "interpreted" = .ok engine) :
      engine = .accelerated ∨ engine = .interpreted := by
    cases h
    exact .inr rfl
  refine ⟨⟨8, hmissing, hlater, ?_⟩, ?_⟩
  · exact (evaluate_extend (o := onlyFirst) _ _ hbuiltin).noEarlier _ _ _ _ hmissing hlater
  · refine (evaluate_extend (o := shadowing) _ _ hbuiltin).unchanged fun name pos h => ?_
    rw [hbound] at h
    cases h

end Registry

end Formula
