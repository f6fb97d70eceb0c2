import Formula.Proofs.Evaluation.Inputs

/-! # The first stage that fails

The outcome of an evaluation is the failure of the first stage that fails, and it depends on nothing
but what the stages up to that one read. -/

namespace Formula

open Compiled

namespace Request

variable {q q' : Request} {failure : Failure}

/-! ## Stages in a row -/

/-- None of the first `n` stages fails. -/
def PassesBelow (q : Request) (n : Nat) : Prop :=
  ∀ stage : Stage, stage.rank < n → ∀ failure, ¬ q.Fails stage failure

/-- The stage fails, and no stage before it does. -/
def FirstFailure (q : Request) (stage : Stage) (failure : Failure) : Prop :=
  q.Fails stage failure ∧ q.PassesBelow stage.rank

/-- The engine that is asked for gives the value. -/
def Yields (q : Request) (value : Value) : Prop :=
  ∃ engine c, q.registry.engine q.options.engine = .ok engine ∧ q.Compiles c ∧
    engine.run c = .ok value

/-- An outcome that the stages explain. -/
def Explains (q : Request) : Except Failure Value → Prop
  | .error failure => ∃ stage, q.FirstFailure stage failure ∧
      ∀ failure', q.Fails stage failure' → failure' = failure
  | .ok value => (∀ stage failure, ¬ q.Fails stage failure) ∧ q.Yields value ∧ value.kind ≠ .text

theorem passesBelow_zero : q.PassesBelow 0 := by
  intro stage h
  cases h

theorem PassesBelow.all (h : q.PassesBelow (Stage.result.rank + 1)) (stage : Stage)
    (failure : Failure) : ¬ q.Fails stage failure := by
  refine h stage ?_ failure
  cases stage <;> decide

theorem PassesBelow.next (stage : Stage) (h : q.PassesBelow stage.rank)
    (hstage : ∀ failure, ¬ q.Fails stage failure) : q.PassesBelow (stage.rank + 1) := by
  intro s hs
  rcases Nat.lt_succ_iff_lt_or_eq.mp hs with hlt | heq
  · exact h s hlt
  · rw [Stage.rank_injective heq]
    exact hstage

/-- A step that fails exactly as a stage does hands on to the steps after it. -/
theorem explains_bind {α : Type} (stage : Stage) {x : Except Failure α}
    {k : α → Except Failure Value} (hbelow : q.PassesBelow stage.rank)
    (hfails : ∀ failure, q.Fails stage failure ↔ x = .error failure)
    (hnext : ∀ a, x = .ok a → q.PassesBelow (stage.rank + 1) → q.Explains (k a)) :
    q.Explains (x >>= k) := by
  cases hx : x with
  | error failure =>
      refine ⟨stage, ⟨(hfails failure).mpr hx, hbelow⟩, fun failure' hfailure' => ?_⟩
      rw [hfails, hx] at hfailure'
      exact (Except.error.inj hfailure').symm
  | ok a =>
      refine hnext a hx (hbelow.next stage fun failure h => ?_)
      rw [hfails, hx] at h
      cases h

/-! ## The outcome -/

theorem execute_eq {engine : Engine} {c : Compiled}
    (hengine : q.registry.engine q.options.engine = .ok engine) (hc : q.Compiles c) :
    q.registry.execute c = (engine.run c).mapError (.engineFailed q.options.engine) := by
  rw [← hc.engine] at hengine ⊢
  rw [Registry.execute_of_engine hengine, Registry.engine_name hengine]

theorem fails_execution_iff_execute {engine : Engine} {c : Compiled}
    (hengine : q.registry.engine q.options.engine = .ok engine) (hc : q.Compiles c) :
    q.Fails .execution failure ↔ q.registry.execute c = .error failure := by
  rw [fails_execution hengine hc, execute_eq hengine hc]
  cases engine.run c with
  | ok value => exact ⟨(fun ⟨_, h, _⟩ => nomatch h), fun h => nomatch h⟩
  | error error =>
      constructor
      · rintro ⟨_, ⟨⟩, rfl⟩
        rfl
      · rintro ⟨⟩
        exact ⟨error, rfl, rfl⟩

theorem explains_outcome (q : Request) : q.Explains q.outcome := by
  rw [outcome, Registry.evaluate]
  refine explains_bind .text passesBelow_zero (fun _ => fails_text) fun text htext h => ?_
  refine explains_bind .grammar h (fun _ => fails_grammar) fun g hgrammar h => ?_
  refine explains_bind .engine h (fun _ => fails_engine) fun engine hengine h => ?_
  refine explains_bind .resolvers h (fun _ => fails_resolvers) fun resolvers hresolvers h => ?_
  replace htext := eq_text_of_expressionText htext
  replace hresolvers := Namespace.resolvers_eq_ok_iff.mp hresolvers
  cases hread : Expr.ofText g text with
  | error error =>
      have hcompile : Compiled.ofText text g (q.options.scope resolvers) engine.name
          q.options.division = .error (.malformed error) := by
        rw [Compiled.ofText, hread]
        rfl
      rw [hcompile]
      refine ⟨.parsing, ⟨.malformed hgrammar htext hread, h⟩, fun failure hfails => ?_⟩
      obtain ⟨error', herror', rfl⟩ := (fails_parsing hgrammar htext).mp hfails
      rw [hread] at herror'
      rw [Except.error.inj herror']
  | ok tree =>
      have htree : q.Reads tree := ⟨g, text, hgrammar, htext, hread⟩
      replace h := h.next .parsing fun failure hfails => by
        obtain ⟨error, herror, -⟩ := (fails_parsing hgrammar htext).mp hfails
        rw [hread] at herror
        cases herror
      rw [Registry.engine_name hengine]
      refine explains_bind .names h (fun _ => fails_names htree htext hresolvers hgrammar)
        fun c hcompile h => ?_
      have hc : q.Compiles c := ⟨g, text, resolvers, hgrammar, htext, hresolvers, hcompile⟩
      refine explains_bind .execution h (fun _ => fails_execution_iff_execute hengine hc)
        fun value hexecute h => ?_
      have hrun : engine.run c = .ok value := by
        rw [execute_eq hengine hc] at hexecute
        cases hrun : engine.run c with
        | ok value' =>
            rw [hrun] at hexecute
            cases hexecute
            rfl
        | error error =>
            rw [hrun] at hexecute
            cases hexecute
      rw [← bind_ok (checkResult value)]
      refine explains_bind .result h (fun _ => fails_result hengine hc hrun)
        fun value' hcheck h => ?_
      obtain ⟨rfl, hkind⟩ := checkResult_eq_ok_iff.mp hcheck
      exact ⟨h.all, ⟨engine, c, hengine, hc, hrun⟩, hkind⟩

/-- The first failure is the outcome. -/
theorem FirstFailure.outcome {stage : Stage} (h : q.FirstFailure stage failure) :
    q.outcome = .error failure := by
  obtain ⟨hfails, hbelow⟩ := h
  have hexplains := q.explains_outcome
  cases houtcome : q.outcome with
  | ok value =>
      rw [houtcome] at hexplains
      exact absurd hfails (hexplains.1 stage failure)
  | error failure' =>
      rw [houtcome] at hexplains
      obtain ⟨stage', ⟨hfails', hbelow'⟩, honly⟩ := hexplains
      rcases Nat.lt_trichotomy stage.rank stage'.rank with hlt | heq | hgt
      · exact absurd hfails (hbelow' stage hlt failure)
      · rw [Stage.rank_injective heq] at hfails
        rw [honly failure hfails]
      · exact absurd hfails' (hbelow stage' hgt failure')

theorem FirstFailure.congr {stage : Stage} (h : q.FirstFailure stage failure)
    (hagree : q.AgreeTo q' stage) : q'.FirstFailure stage failure := by
  obtain ⟨hfails, hbelow⟩ := h
  refine ⟨hfails.congr hagree, fun s hs failure' hfails' => ?_⟩
  exact hbelow s hs failure' (hfails'.congr (hagree.mono (Nat.le_of_lt hs)).symm)

theorem outcome_eq_error_iff :
    q.outcome = .error failure ↔ ∃ stage, q.FirstFailure stage failure := by
  constructor
  · intro h
    have hexplains := q.explains_outcome
    rw [h] at hexplains
    obtain ⟨stage, hfirst, -⟩ := hexplains
    exact ⟨stage, hfirst⟩
  · rintro ⟨stage, hfirst⟩
    exact hfirst.outcome

/-- The first stage that fails decides the outcome, whatever only later stages read. When no stage
fails the outcome is what the engine gives, and that is an array, a number or a boolean. -/
theorem outcome_decided (q : Request) :
    (∀ failure, q.outcome = .error failure ↔ ∃ stage, q.FirstFailure stage failure) ∧
      (∀ stage failure, q.FirstFailure stage failure →
        ∀ q' : Request, q.AgreeTo q' stage → q'.outcome = .error failure) ∧
      ((∀ stage failure, ¬ q.Fails stage failure) →
        ∃ value, q.outcome = .ok value ∧ q.Yields value ∧
          value.kind ∈ [Kind.array, Kind.int, Kind.float, Kind.bool]) := by
  refine ⟨fun _ => outcome_eq_error_iff, fun stage failure h q' hagree => ?_, fun hnone => ?_⟩
  · exact (h.congr hagree).outcome
  · have hexplains := q.explains_outcome
    cases houtcome : q.outcome with
    | error failure =>
        obtain ⟨stage, hfails, -⟩ := outcome_eq_error_iff.mp houtcome
        exact absurd hfails (hnone stage failure)
    | ok value =>
        rw [houtcome] at hexplains
        obtain ⟨-, hyields, hkind⟩ := hexplains
        refine ⟨value, rfl, hyields, ?_⟩
        cases hvalue : value.kind with
        | text => exact absurd hvalue hkind
        | _ => decide

/-- A number is offered as a resolver, for a text that does not parse either. -/
def unusable : Request where
  registry := .standard
  expr := .text "a +"
  options := { resolvers := [.plain (.integer 3)] }

/-- Another text, other namespaces, and another number among the resolvers. -/
def unusable' : Request where
  registry := .standard
  expr := .text "b < c < a"
  options := {
    locals := some (.ofList [("a", .integer 1)])
    stack := some (.ofList [])
    contextDepth := 7
    resolvers := [.keyed .numbered, .plain (.integer 5), .plain (.bool true)] }

/-- A value that is a text is offered in place of a text, with the resolvers as they were. -/
def quoted : Request where
  registry := .standard
  expr := .value (.text "a +")
  options := unusable.options

/-- An engine that gives the value of `d`, which it looks up when it runs. -/
def lookingUp : Engine where
  name := "late"
  run c :=
    match c.lookup "d" with
    | .ok (some value) => .ok value
    | _ => .error ⟨.unknownVariable "d", 0⟩

/-- A value that is received as the text that it is, and an engine that reads a name which the text
does not have. -/
def late : Request where
  registry := ⟨Grammar.all, [lookingUp]⟩
  expr := Value.text "b < c < a"
  options := { Registry.shadowing with
    engine := "late"
    resolvers := [.keyed (.ofBindings (.ofList [("a", .integer 3), ("d", .integer 4)]))] }

theorem outcome_decided_unusable :
    quoted.outcome = .error (.notText .text) ∧
    unusable.outcome = .error (.notKeyed "int") ∧ unusable'.outcome = .error (.notKeyed "int") ∧
      ∃ value, late.outcome = .ok value ∧ late.Yields value ∧
        value.kind ∈ [Kind.array, Kind.int, Kind.float, Kind.bool] := by
  have hfirst : unusable.FirstFailure .resolvers (.notKeyed "int") := by
    refine ⟨@Fails.notKeyed unusable [] (.integer 3) [] rfl, fun stage hstage failure hfails => ?_⟩
    cases stage with
    | text => cases fails_text.mp hfails
    | grammar => cases fails_grammar.mp hfails
    | engine => cases fails_engine.mp hfails
    | _ => exact absurd hstage (by decide)
  have hquoted : quoted.FirstFailure .text (.notText .text) :=
    ⟨@Fails.notText quoted (.text "a +") rfl, passesBelow_zero⟩
  have hagree : unusable.AgreeTo unusable' .resolvers := by
    intro stage hstage
    cases stage with
    | text | resolvers => rfl
    | grammar | engine => exact ⟨rfl, rfl⟩
    | _ => exact absurd hstage (by decide)
  have houtcome : late.outcome = .ok (.integer 4) := by
    change (do
      let c ← Compiled.ofText "b < c < a" .strict _ "late" .exact
      let value ← late.registry.execute c
      checkResult value) = _
    rw [ofText_of_tree ofText_sharedOperand]
    rfl
  have hexplains := late.explains_outcome
  rw [houtcome] at hexplains
  obtain ⟨hdecided, hsame, -⟩ := outcome_decided unusable
  refine ⟨((outcome_decided quoted).1 _).mpr ⟨_, hquoted⟩, ?_⟩
  exact ⟨(hdecided _).mpr ⟨_, hfirst⟩, hsame _ _ hfirst _ hagree,
    (outcome_decided late).2.2 hexplains.1⟩

end Request

end Formula
