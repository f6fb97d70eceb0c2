import Formula.Proofs.Scope.Flattening

/-! # The stages of an evaluation

An evaluation ends at the first of its stages that fails on what the stage reads. What only later
stages read has no part in that failure. -/

namespace Formula

open Compiled

/-- The stages of an evaluation in their order. -/
inductive Stage where
  | text
  | grammar
  | engine
  | resolvers
  | parsing
  | names
  | execution
  | result
  deriving DecidableEq, Repr

/-- The number of stages before a stage. -/
def Stage.rank : Stage → Nat
  | text => 0
  | grammar => 1
  | engine => 2
  | resolvers => 3
  | parsing => 4
  | names => 5
  | execution => 6
  | result => 7

theorem Stage.rank_injective {s s' : Stage} (h : s.rank = s'.rank) : s = s' := by
  cases s <;> cases s' <;> first | rfl | cases h

/-- The kind of what is received as a value. -/
def Source.valueKind? : Source → Option Kind
  | text _ => none
  | value v => some v.kind

/-- All that an evaluation is given. -/
structure Request where
  registry : Registry
  expr : Source
  options : Options

/-- What the registry knows of an engine before it runs. -/
def Engine.entry (e : Engine) : String × Option Dependency := (e.name, e.dependency)

/-! ## Candidates for resolvers -/

namespace Namespace

/-- The kind of a candidate without keyed lookup. -/
def plainKind? : Namespace → Option Kind
  | keyed _ => none
  | plain value => some value.kind

/-- What a candidate answers for a name. -/
def answer? : Namespace → String → Option Value
  | keyed resolver, name => resolver.resolve name
  | plain _, _ => none

theorem resolvers_keyed_cons (resolver : Resolver) (candidates : List Namespace) :
    Namespace.resolvers (keyed resolver :: candidates) =
      (Namespace.resolvers candidates).map (resolver :: ·) := by
  rw [Namespace.resolvers, Namespace.resolvers, List.mapM_cons]
  cases candidates.mapM resolver? <;> rfl

theorem resolvers_plain_cons (value : Value) (candidates : List Namespace) :
    Namespace.resolvers (plain value :: candidates) = .error (.notKeyed value.kind.name) := by
  rw [Namespace.resolvers, List.mapM_cons]
  rfl

/-- The first candidate without keyed lookup is reported. -/
theorem resolvers_eq_error_iff {candidates : List Namespace} {failure : Failure} :
    Namespace.resolvers candidates = .error failure ↔
      ∃ (before : List Resolver) (value : Value) (after : List Namespace),
        candidates = before.map keyed ++ plain value :: after ∧
          failure = .notKeyed value.kind.name := by
  constructor
  · intro h
    induction candidates with
    | nil => cases h
    | cons candidate candidates ih =>
        cases candidate with
        | plain value =>
            rw [resolvers_plain_cons] at h
            cases h
            exact ⟨[], value, candidates, rfl, rfl⟩
        | keyed resolver =>
            rw [resolvers_keyed_cons] at h
            cases hrest : Namespace.resolvers candidates with
            | ok resolvers =>
                rw [hrest] at h
                cases h
            | error failure' =>
                rw [hrest] at h
                cases h
                obtain ⟨before, value, after, rfl, rfl⟩ := ih hrest
                exact ⟨resolver :: before, value, after, rfl, rfl⟩
  · rintro ⟨before, value, after, rfl, rfl⟩
    induction before with
    | nil => exact resolvers_plain_cons value after
    | cons resolver before ih =>
        rw [List.map_cons, List.cons_append, resolvers_keyed_cons, ih]
        rfl

theorem resolvers_eq_ok_iff {candidates : List Namespace} {resolvers : List Resolver} :
    Namespace.resolvers candidates = .ok resolvers ↔ candidates = resolvers.map keyed := by
  constructor
  · intro h
    induction candidates generalizing resolvers with
    | nil =>
        cases h
        rfl
    | cons candidate candidates ih =>
        cases candidate with
        | plain value =>
            rw [resolvers_plain_cons] at h
            cases h
        | keyed resolver =>
            rw [resolvers_keyed_cons] at h
            cases hrest : Namespace.resolvers candidates with
            | error failure =>
                rw [hrest] at h
                cases h
            | ok rest =>
                rw [hrest] at h
                cases h
                rw [List.map_cons, ← ih hrest]
  · rintro rfl
    exact Registry.resolvers_keyed resolvers

theorem keyed_injective {candidates : List Namespace} {resolvers resolvers' : List Resolver}
    (h : candidates = resolvers.map keyed) (h' : candidates = resolvers'.map keyed) :
    resolvers = resolvers' := by
  rw [← resolvers_eq_ok_iff] at h h'
  rw [h] at h'
  cases h'
  rfl

end Namespace

/-- An array, a number or a boolean is a result as it is, and a text is none. -/
theorem checkResult_eq_ok_iff {value value' : Value} :
    checkResult value = .ok value' ↔ value' = value ∧ value.kind ≠ .text := by
  cases value <;> simp [checkResult, Value.isScalar, Value.isNumericOrBool, Value.kind, eq_comm]

theorem checkResult_eq_error_iff {value : Value} {failure : Failure} :
    checkResult value = .error failure ↔
      value.kind = .text ∧ failure = .invalidResult value.kind := by
  cases value <;> simp [checkResult, Value.isScalar, Value.isNumericOrBool, Value.kind, eq_comm]

/-! ## The only failures of the checks -/

section

variable {P : Failure → Prop}

theorem failsWith_expressionText (h : ∀ kind, P (.notText kind)) (expr : Source) :
    FailsWith P (expressionText expr) := by
  cases expr with
  | text s => exact .ok s
  | value v => exact .error (h v.kind)

theorem failsWith_resolvers (h : ∀ name, P (.notKeyed name)) (candidates : List Namespace) :
    FailsWith P (Namespace.resolvers candidates) := by
  intro failure hfailure
  obtain ⟨before, value, after, -, rfl⟩ := Namespace.resolvers_eq_error_iff.mp hfailure
  exact h value.kind.name

theorem failsWith_checkResult (h : ∀ kind, P (.invalidResult kind)) (value : Value) :
    FailsWith P (checkResult value) := by
  intro failure hfailure
  rw [(checkResult_eq_error_iff.mp hfailure).2]
  exact h value.kind

end

namespace Request

/-- The result of the evaluation that is asked for. -/
def outcome (q : Request) : Except Failure Value := q.registry.evaluate q.expr q.options

/-- The expression that the text is under the grammar that is asked for. -/
def Reads (q : Request) (tree : Expr) : Prop :=
  ∃ g text, q.registry.grammar q.options.grammar = .ok g ∧ q.expr = .text text ∧
    Expr.ofText g text = .ok tree

/-- What the engine that is asked for is given to run. -/
def Compiles (q : Request) (c : Compiled) : Prop :=
  ∃ g text resolvers, q.registry.grammar q.options.grammar = .ok g ∧ q.expr = .text text ∧
    q.options.resolvers = resolvers.map .keyed ∧
    Compiled.ofText text g (q.options.scope resolvers) q.options.engine q.options.division = .ok c

/-- The stage fails on what it reads: on parts of the request and on what other stages have made of
parts of it. -/
inductive Fails (q : Request) : Stage → Failure → Prop where
  | notText {value : Value} (h : q.expr = .value value) : Fails q .text (.notText value.kind)
  | unknownGrammar (h : ∀ g ∈ q.registry.grammars, g.name ≠ q.options.grammar) :
      Fails q .grammar (.unknownIdentifier .grammar q.options.grammar q.registry.grammarIds)
  | unknownEngine (h : ∀ e ∈ q.registry.engines, e.name ≠ q.options.engine) :
      Fails q .engine (.unknownIdentifier .engine q.options.engine q.registry.engineIds)
  | missingDependency {before after : List Engine} {engine : Engine} {dependency : Dependency}
      (hengines : q.registry.engines = before ++ engine :: after)
      (hbefore : ∀ e ∈ before, e.name ≠ q.options.engine) (hname : engine.name = q.options.engine)
      (hdependency : engine.dependency = some dependency)
      (havailable : dependency.available = false) :
      Fails q .engine
        (.dependencyMissing q.options.engine dependency.name dependency.hint)
  | notKeyed {before : List Resolver} {value : Value} {after : List Namespace}
      (h : q.options.resolvers = before.map .keyed ++ .plain value :: after) :
      Fails q .resolvers (.notKeyed value.kind.name)
  | malformed {g : Grammar} {text : String} {error : SyntaxError}
      (hgrammar : q.registry.grammar q.options.grammar = .ok g) (htext : q.expr = .text text)
      (h : Expr.ofText g text = .error error) : Fails q .parsing (.malformed error)
  | unbound {tree : Expr} {text : String} {ls : List Lexeme} {resolvers : List Resolver}
      {id : String} {pos : Nat} {failure : Failure} (htree : q.Reads tree)
      (htext : q.expr = .text text) (hls : Lexeme.ofText text = .ok ls)
      (hresolvers : q.options.resolvers = resolvers.map .keyed)
      (h : FirstMissing ls (q.options.scope resolvers) id pos failure) : Fails q .names failure
  | engineFailed {engine : Engine} {c : Compiled} {error : RuntimeError}
      (hengine : q.registry.engine q.options.engine = .ok engine) (hc : q.Compiles c)
      (h : engine.run c = .error error) :
      Fails q .execution (.engineFailed q.options.engine error)
  | textResult {engine : Engine} {c : Compiled} {value : Value}
      (hengine : q.registry.engine q.options.engine = .ok engine) (hc : q.Compiles c)
      (hrun : engine.run c = .ok value) (h : value.kind = .text) :
      Fails q .result (.invalidResult value.kind)

/-! ## What the stages find -/

variable {q : Request} {failure : Failure}

theorem fails_text : q.Fails .text failure ↔ expressionText q.expr = .error failure := by
  constructor
  · intro hfails
    cases hfails with
    | notText h => rw [h, expressionText]
  · intro h
    cases hexpr : q.expr with
    | text s =>
        rw [hexpr] at h
        cases h
    | value v =>
        rw [hexpr] at h
        cases h
        exact .notText hexpr

theorem eq_text_of_expressionText {expr : Source} {text : String}
    (h : expressionText expr = .ok text) : expr = .text text := by
  cases expr <;> cases h
  rfl

theorem fails_grammar :
    q.Fails .grammar failure ↔ q.registry.grammar q.options.grammar = .error failure := by
  rw [Registry.grammar]
  constructor
  · intro hfails
    cases hfails with
    | unknownGrammar h =>
        have hnone : q.registry.grammars.find? (·.name = q.options.grammar) = none :=
          List.find?_eq_none.mpr fun g hg => by simpa using h g hg
        rw [hnone]
  · intro h
    split at h
    · cases h
    · rename_i hnone
      cases h
      exact .unknownGrammar fun g hg => by simpa using List.find?_eq_none.mp hnone g hg

theorem fails_engine :
    q.Fails .engine failure ↔ q.registry.engine q.options.engine = .error failure := by
  rw [Registry.engine]
  constructor
  · intro hfails
    cases hfails with
    | unknownEngine h =>
        have hnone : q.registry.engines.find? (·.name = q.options.engine) = none :=
          List.find?_eq_none.mpr fun e he => by simpa using h e he
        rw [hnone]
    | @missingDependency before after engine _ hengines hbefore hname hdependency havailable =>
        have hsome : q.registry.engines.find? (·.name = q.options.engine) = some engine := by
          rw [List.find?_eq_some_iff_append]
          exact ⟨by simpa using hname, before, after, hengines, by simpa using hbefore⟩
        simp only [hsome, hdependency, havailable, Bool.false_eq_true, if_false]
  · intro h
    split at h
    · rename_i hnone
      cases h
      exact .unknownEngine fun e he => by simpa using List.find?_eq_none.mp hnone e he
    · rename_i engine hsome
      obtain ⟨hname, before, after, hengines, hbefore⟩ := List.find?_eq_some_iff_append.mp hsome
      split at h
      · rename_i dependency hdependency
        split at h
        · cases h
        · rename_i havailable
          cases h
          exact .missingDependency hengines (by simpa using hbefore) (by simpa using hname)
            hdependency (Bool.eq_false_iff.mpr havailable)
      · cases h

theorem fails_resolvers :
    q.Fails .resolvers failure ↔ Namespace.resolvers q.options.resolvers = .error failure := by
  rw [Namespace.resolvers_eq_error_iff]
  constructor
  · intro hfails
    cases hfails with
    | notKeyed h => exact ⟨_, _, _, h, rfl⟩
  · rintro ⟨before, value, after, h, rfl⟩
    exact .notKeyed h

theorem fails_parsing {g : Grammar} {text : String}
    (hgrammar : q.registry.grammar q.options.grammar = .ok g) (htext : q.expr = .text text) :
    q.Fails .parsing failure ↔
      ∃ error, Expr.ofText g text = .error error ∧ failure = .malformed error := by
  constructor
  · intro hfails
    cases hfails with
    | malformed hgrammar' htext' h =>
        rw [hgrammar] at hgrammar'
        cases hgrammar'
        rw [htext] at htext'
        cases htext'
        exact ⟨_, h, rfl⟩
  · rintro ⟨error, h, rfl⟩
    exact .malformed hgrammar htext h

theorem Reads.ofText {g : Grammar} {text : String} {tree : Expr} (h : q.Reads tree)
    (hgrammar : q.registry.grammar q.options.grammar = .ok g) (htext : q.expr = .text text) :
    Expr.ofText g text = .ok tree := by
  obtain ⟨g', text', hgrammar', htext', htree⟩ := h
  rw [hgrammar] at hgrammar'
  cases hgrammar'
  rw [htext] at htext'
  cases htext'
  exact htree

theorem Compiles.unique {c c' : Compiled} (h : q.Compiles c) (h' : q.Compiles c') : c = c' := by
  obtain ⟨g, text, resolvers, hgrammar, htext, hresolvers, hc⟩ := h
  obtain ⟨g', text', resolvers', hgrammar', htext', hresolvers', hc'⟩ := h'
  rw [hgrammar] at hgrammar'
  cases hgrammar'
  rw [htext] at htext'
  cases htext'
  rw [Namespace.keyed_injective hresolvers hresolvers', hc'] at hc
  cases hc
  rfl

theorem Compiles.engine {c : Compiled} (h : q.Compiles c) : c.engine = q.options.engine := by
  obtain ⟨g, text, resolvers, -, -, -, hc⟩ := h
  exact engine_of_ofText hc

theorem fails_names {g : Grammar} {text : String} {tree : Expr} {resolvers : List Resolver}
    (htree : q.Reads tree) (htext : q.expr = .text text)
    (hresolvers : q.options.resolvers = resolvers.map .keyed)
    (hgrammar : q.registry.grammar q.options.grammar = .ok g) :
    q.Fails .names failure ↔
      Compiled.ofText text g (q.options.scope resolvers) q.options.engine q.options.division =
        .error failure := by
  have hread := htree.ofText hgrammar htext
  obtain ⟨-, ls, hls, hderives⟩ := ofText_eq_ok_iff.mp hread
  have huses : firstUses tree.names = firstUses (Lexeme.uses ls) := hderives.sameUses_chain.1
  rw [ofText_eq_error_iff hread, huses,
    foldlM_firstUses_eq_error_iff (Lexeme.pairwise_pos_of_ofText hls)]
  constructor
  · intro hfails
    cases hfails with
    | unbound _ htext' hls' hresolvers' h =>
        rw [htext] at htext'
        cases htext'
        rw [hls] at hls'
        cases hls'
        rw [Namespace.keyed_injective hresolvers hresolvers']
        exact ⟨_, _, h⟩
  · rintro ⟨id, pos, h⟩
    exact .unbound htree htext hls hresolvers h

theorem fails_execution {engine : Engine} {c : Compiled}
    (hengine : q.registry.engine q.options.engine = .ok engine) (hc : q.Compiles c) :
    q.Fails .execution failure ↔
      ∃ error, engine.run c = .error error ∧
        failure = .engineFailed q.options.engine error := by
  constructor
  · intro hfails
    cases hfails with
    | engineFailed hengine' hc' h =>
        rw [hengine] at hengine'
        cases hengine'
        obtain rfl := hc.unique hc'
        exact ⟨_, h, rfl⟩
  · rintro ⟨error, h, rfl⟩
    exact .engineFailed hengine hc h

theorem fails_result {engine : Engine} {c : Compiled} {value : Value}
    (hengine : q.registry.engine q.options.engine = .ok engine) (hc : q.Compiles c)
    (hrun : engine.run c = .ok value) :
    q.Fails .result failure ↔ checkResult value = .error failure := by
  rw [checkResult_eq_error_iff]
  constructor
  · intro hfails
    cases hfails with
    | textResult hengine' hc' hrun' h =>
        rw [hengine] at hengine'
        cases hengine'
        obtain rfl := hc.unique hc'
        rw [hrun] at hrun'
        cases hrun'
        exact ⟨h, rfl⟩
  · rintro ⟨h, rfl⟩
    exact .textResult hengine hc hrun h

end Request

end Formula
