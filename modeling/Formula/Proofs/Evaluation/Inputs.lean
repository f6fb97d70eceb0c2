import Formula.Proofs.Evaluation.Stages

/-! # What the stages read

Two requests that are the same in what a stage and the stages before it read fail alike at that
stage. -/

namespace Formula

open Compiled

/-- Scopes answer alike when their namespaces do. -/
theorem Scope.resolve_congr {s s' : Scope} (hlocals : s'.locals = s.locals)
    (hglobals : s'.globals = s.globals) (hstack : s'.stack = s.stack)
    (hdepth : s'.contextDepth = s.contextDepth)
    (hresolvers : s'.resolvers.map Resolver.resolve = s.resolvers.map Resolver.resolve) :
    s'.resolve = s.resolve := by
  funext name
  have hframe : s'.frame? = s.frame? := by
    rw [frame?, frame?, hstack, hdepth]
  have hanswer : s'.resolvers.findSome? (·.resolve name) = s.resolvers.findSome? (·.resolve name) :=
    calc
      _ = (s'.resolvers.map Resolver.resolve).findSome? (· name) := List.findSome?_map.symm
      _ = (s.resolvers.map Resolver.resolve).findSome? (· name) := by rw [hresolvers]
      _ = _ := List.findSome?_map
  have hlayers (frame : Option Frame) : s'.resolveIn frame name = s.resolveIn frame name := by
    rw [resolveIn, resolveIn, hglobals, hanswer]
  simp only [resolve, hlocals, hframe, hlayers]

theorem FirstMissing.congr {ls : List Lexeme} {s s' : Scope} {id : String} {pos : Nat} {e : Failure}
    (h : FirstMissing ls s id pos e) (hresolve : s'.resolve = s.resolve) :
    FirstMissing ls s' id pos e := by
  obtain ⟨hfirst, hearlier, hmissing, hfailure⟩ := h
  rw [← hresolve] at hearlier hmissing hfailure
  exact ⟨hfirst, hearlier, hmissing, hfailure⟩

/-- Scopes with the same answers and as many resolvers compile a text alike. -/
theorem Compiled.ofText_congr {s s' : Scope} (hresolve : s'.resolve = s.resolve)
    (hlength : s'.resolvers.length = s.resolvers.length) (source : String) (g : Grammar)
    (engine : String) (division : Division) :
    ofText source g s' engine division = ofText source g s engine division := by
  cases hread : Expr.ofText g source with
  | error error => rw [ofText, ofText, hread]
  | ok tree =>
      have hfold : (firstUses tree.names).foldlM (bind s') Bindings.empty =
          (firstUses tree.names).foldlM (bind s) Bindings.empty :=
        foldlM_bind_congr _ fun id _ => congrFun hresolve id
      rw [ofText_of_tree hread, ofText_of_tree hread, hfold, hlength, hresolve]

namespace Namespace

theorem exists_keyed {candidates : List Namespace} (h : ∀ c ∈ candidates, c.plainKind? = none) :
    ∃ resolvers : List Resolver, candidates = resolvers.map keyed := by
  induction candidates with
  | nil => exact ⟨[], rfl⟩
  | cons candidate candidates ih =>
      rw [List.forall_mem_cons] at h
      obtain ⟨hcandidate, h⟩ := h
      obtain ⟨resolvers, rfl⟩ := ih h
      cases candidate with
      | keyed resolver => exact ⟨resolver :: resolvers, rfl⟩
      | plain value => cases hcandidate

theorem findSome?_plainKind?_keyed (resolvers : List Resolver) :
    (resolvers.map keyed).findSome? plainKind? = none := by
  rw [List.findSome?_map]
  exact List.findSome?_eq_none_iff.mpr fun _ _ => rfl

theorem map_answer?_keyed (resolvers : List Resolver) :
    (resolvers.map keyed).map answer? = resolvers.map Resolver.resolve := by
  rw [List.map_map]
  rfl

end Namespace

namespace Request

/-- The entry of the engine that is asked for. -/
def selected? (q : Request) : Option Engine :=
  q.registry.engines.find? (·.name = q.options.engine)

/-- What the stage is the first to read is the same in both requests. -/
def AgreeAt (q q' : Request) : Stage → Prop
  | .text => q'.expr.valueKind? = q.expr.valueKind?
  | .grammar =>
    q'.options.grammar = q.options.grammar ∧ q'.registry.grammars = q.registry.grammars
  | .engine =>
    q'.options.engine = q.options.engine ∧
      q'.registry.engines.map Engine.entry = q.registry.engines.map Engine.entry
  | .resolvers =>
    q'.options.resolvers.findSome? Namespace.plainKind? =
      q.options.resolvers.findSome? Namespace.plainKind?
  | .parsing => q'.expr = q.expr
  | .names =>
    q'.options.locals = q.options.locals ∧ q'.options.globals = q.options.globals ∧
      q'.options.stack = q.options.stack ∧ q'.options.contextDepth = q.options.contextDepth ∧
        q'.options.resolvers.map Namespace.answer? = q.options.resolvers.map Namespace.answer?
  | .execution =>
    q'.options.trueDivision = q.options.trueDivision ∧
      q'.selected?.map Engine.run = q.selected?.map Engine.run
  | .result => True

/-- The requests are the same in what the stage and those before it read. -/
def AgreeTo (q q' : Request) (stage : Stage) : Prop :=
  ∀ s : Stage, s.rank ≤ stage.rank → q.AgreeAt q' s

variable {q q' : Request} {stage : Stage} {failure : Failure}

theorem AgreeAt.symm (h : q.AgreeAt q' stage) : q'.AgreeAt q stage := by
  cases stage with
  | text | resolvers | parsing => exact Eq.symm h
  | grammar | engine | execution => exact ⟨h.1.symm, h.2.symm⟩
  | names =>
      obtain ⟨hlocals, hglobals, hstack, hdepth, hanswers⟩ := h
      exact ⟨hlocals.symm, hglobals.symm, hstack.symm, hdepth.symm, hanswers.symm⟩
  | result => trivial

theorem AgreeTo.symm (h : q.AgreeTo q' stage) : q'.AgreeTo q stage :=
  fun s hs => (h s hs).symm

theorem AgreeTo.mono {s : Stage} (h : q.AgreeTo q' stage) (hs : s.rank ≤ stage.rank) :
    q.AgreeTo q' s :=
  fun _ hearlier => h _ (Nat.le_trans hearlier hs)

/-! ## What is made of it -/

theorem AgreeTo.grammar (h : q.AgreeTo q' stage) (hstage : Stage.grammar.rank ≤ stage.rank) :
    q'.registry.grammar q'.options.grammar = q.registry.grammar q.options.grammar := by
  obtain ⟨hname, hgrammars⟩ := h .grammar hstage
  rw [hname, Registry.grammar, Registry.grammar, Registry.grammarIds, Registry.grammarIds,
    hgrammars]

theorem AgreeTo.reads {tree : Expr} (h : q.AgreeTo q' stage)
    (hstage : Stage.parsing.rank ≤ stage.rank) (htree : q.Reads tree) : q'.Reads tree := by
  obtain ⟨g, text, hgrammar, htext, hread⟩ := htree
  refine ⟨g, text, ?_, ?_, hread⟩
  · rw [h.grammar (Nat.le_trans (by decide) hstage), hgrammar]
  · rw [h .parsing hstage, htext]

/-- Candidates that all have keyed lookup stay so, with the same answers. -/
theorem AgreeTo.resolvers {resolvers : List Resolver} (h : q.AgreeTo q' stage)
    (hstage : Stage.names.rank ≤ stage.rank)
    (hresolvers : q.options.resolvers = resolvers.map .keyed) :
    ∃ resolvers' : List Resolver, q'.options.resolvers = resolvers'.map .keyed ∧
      resolvers'.map Resolver.resolve = resolvers.map Resolver.resolve := by
  have hplain : q'.options.resolvers.findSome? Namespace.plainKind? = _ :=
    h .resolvers (Nat.le_trans (by decide) hstage)
  rw [hresolvers, Namespace.findSome?_plainKind?_keyed, List.findSome?_eq_none_iff] at hplain
  obtain ⟨resolvers', hresolvers'⟩ := Namespace.exists_keyed hplain
  obtain ⟨-, -, -, -, hanswers⟩ := h .names hstage
  rw [hresolvers', hresolvers, Namespace.map_answer?_keyed, Namespace.map_answer?_keyed] at hanswers
  exact ⟨resolvers', hresolvers', hanswers⟩

theorem AgreeTo.resolve {resolvers resolvers' : List Resolver} (h : q.AgreeTo q' stage)
    (hstage : Stage.names.rank ≤ stage.rank)
    (hanswers : resolvers'.map Resolver.resolve = resolvers.map Resolver.resolve) :
    (q'.options.scope resolvers').resolve = (q.options.scope resolvers).resolve := by
  obtain ⟨hlocals, hglobals, hstack, hdepth, -⟩ := h .names hstage
  exact Scope.resolve_congr hlocals hglobals hstack hdepth hanswers

theorem AgreeTo.compiles {c : Compiled} (h : q.AgreeTo q' stage)
    (hstage : Stage.execution.rank ≤ stage.rank) (hc : q.Compiles c) : q'.Compiles c := by
  have hnames : Stage.names.rank ≤ stage.rank := Nat.le_trans (by decide) hstage
  obtain ⟨g, text, resolvers, hgrammar, htext, hresolvers, hcompile⟩ := hc
  obtain ⟨resolvers', hresolvers', hanswers⟩ := h.resolvers hnames hresolvers
  refine ⟨g, text, resolvers', ?_, ?_, hresolvers', ?_⟩
  · rw [h.grammar (Nat.le_trans (by decide) hstage), hgrammar]
  · rw [h .parsing (Nat.le_trans (by decide) hstage), htext]
  · have hlength : resolvers'.length = resolvers.length := by
      simpa only [List.length_map] using congrArg List.length hanswers
    have hdivision : q'.options.division = q.options.division := by
      rw [Options.division, Options.division, (h .execution hstage).1]
    obtain ⟨hengine, -⟩ := h .engine (Nat.le_trans (by decide) hstage)
    rw [hengine, hdivision, ← hcompile]
    exact ofText_congr (h.resolve hnames hanswers) hlength _ _ _ _

theorem AgreeTo.unnamed (h : q.AgreeTo q' stage) (hstage : Stage.engine.rank ≤ stage.rank)
    {engines engines' : List Engine}
    (hentries : engines'.map Engine.entry = engines.map Engine.entry)
    (hnames : ∀ e ∈ engines, e.name ≠ q.options.engine) :
    ∀ e ∈ engines', e.name ≠ q'.options.engine := by
  intro e' he'
  have hmem : e'.entry ∈ engines.map Engine.entry := by
    rw [← hentries]
    exact List.mem_map_of_mem he'
  obtain ⟨e, he, hentry⟩ := List.mem_map.mp hmem
  obtain ⟨hname, -⟩ := Prod.mk.inj hentry
  rw [← hname, (h .engine hstage).1]
  exact hnames e he

/-! ## The same failure -/

theorem fails_engine_congr (h : q.AgreeTo q' .engine) (hfails : q.Fails .engine failure) :
    q'.Fails .engine failure := by
  obtain ⟨hengine, hentries⟩ := h .engine (Nat.le_refl _)
  cases hfails with
  | unknownEngine hnames =>
      have hids : q'.registry.engineIds = q.registry.engineIds := by
        have := congrArg (List.map Prod.fst) hentries
        rw [List.map_map, List.map_map] at this
        exact congrArg Registry.sorted this
      rw [← hengine, ← hids]
      exact .unknownEngine (h.unnamed (Nat.le_refl _) hentries hnames)
  | missingDependency hengines hbefore hname hdependency havailable =>
      rw [hengines, List.map_append, List.map_cons, List.map_eq_append_iff] at hentries
      obtain ⟨before', rest, hengines', hbefore', hrest⟩ := hentries
      obtain ⟨engine', after', rfl, hentry, -⟩ := List.map_eq_cons_iff.mp hrest
      obtain ⟨hname', hdependency'⟩ := Prod.mk.inj hentry
      rw [← hengine]
      exact .missingDependency hengines' (h.unnamed (Nat.le_refl _) hbefore' hbefore)
        (by rw [hname', hname, hengine]) (by rw [hdependency', hdependency]) havailable

theorem selected?_of_engine {engine : Engine}
    (h : q.registry.engine q.options.engine = .ok engine) : q.selected? = some engine :=
  Registry.find?_of_engine h

/-- The engine that is found still runs as before. -/
theorem AgreeTo.engine {engine : Engine} (h : q.AgreeTo q' stage)
    (hstage : Stage.execution.rank ≤ stage.rank)
    (hengine : q.registry.engine q.options.engine = .ok engine) :
    ∃ engine', q'.registry.engine q'.options.engine = .ok engine' ∧ engine'.run = engine.run := by
  have hto : q.AgreeTo q' .engine := h.mono (Nat.le_trans (by decide) hstage)
  cases hengine' : q'.registry.engine q'.options.engine with
  | error failure =>
      have hfails := fails_engine_congr hto.symm (fails_engine.mpr hengine')
      rw [fails_engine, hengine] at hfails
      cases hfails
  | ok engine' =>
      obtain ⟨-, hrun⟩ := h .execution hstage
      rw [selected?_of_engine hengine, selected?_of_engine hengine'] at hrun
      exact ⟨engine', rfl, Option.some.inj hrun⟩

/-- A stage fails alike in two requests that are the same in what it and the stages before it
read. -/
theorem Fails.congr (hfails : q.Fails stage failure) (h : q.AgreeTo q' stage) :
    q'.Fails stage failure := by
  cases hfails with
  | @notText value hvalue =>
      have hkind : q'.expr.valueKind? = some value.kind := by
        rw [show _ = _ from h .text (Nat.le_refl _), hvalue]
        rfl
      cases hexpr : q'.expr with
      | text s =>
          rw [hexpr] at hkind
          cases hkind
      | value value' =>
          rw [hexpr] at hkind
          rw [← Option.some.inj hkind]
          exact .notText hexpr
  | unknownGrammar hnames =>
      have hgrammar := fails_grammar.mp (.unknownGrammar hnames)
      rw [← h.grammar (Nat.le_refl _)] at hgrammar
      exact fails_grammar.mpr hgrammar
  | unknownEngine hnames => exact fails_engine_congr h (.unknownEngine hnames)
  | missingDependency hengines hbefore hname hdependency havailable =>
      exact fails_engine_congr h
        (.missingDependency hengines hbefore hname hdependency havailable)
  | @notKeyed before value after hresolvers =>
      have hplain : q'.options.resolvers.findSome? Namespace.plainKind? = some value.kind := by
        rw [show _ = _ from h .resolvers (Nat.le_refl _), hresolvers, List.findSome?_append,
          Namespace.findSome?_plainKind?_keyed]
        rfl
      obtain ⟨before', candidate, after', hresolvers', hkind, hbefore'⟩ :=
        List.findSome?_eq_some_iff.mp hplain
      obtain ⟨keyed, rfl⟩ := Namespace.exists_keyed hbefore'
      cases candidate with
      | keyed resolver => cases hkind
      | plain value' =>
          rw [← Option.some.inj hkind]
          exact .notKeyed hresolvers'
  | malformed hgrammar htext hread =>
      rw [← h.grammar (by decide)] at hgrammar
      rw [← show _ = _ from h .parsing (Nat.le_refl _)] at htext
      exact .malformed hgrammar htext hread
  | unbound htree htext hls hresolvers hmissing =>
      obtain ⟨resolvers', hresolvers', hanswers⟩ := h.resolvers (Nat.le_refl _) hresolvers
      rw [← show _ = _ from h .parsing (by decide)] at htext
      exact .unbound (h.reads (by decide) htree) htext hls hresolvers'
        (hmissing.congr (h.resolve (Nat.le_refl _) hanswers))
  | engineFailed hengine hc hrun =>
      obtain ⟨engine', hengine', hsame⟩ := h.engine (Nat.le_refl _) hengine
      rw [← (h .engine (by decide)).1]
      rw [← hsame] at hrun
      exact .engineFailed hengine' (h.compiles (Nat.le_refl _) hc) hrun
  | textResult hengine hc hrun hkind =>
      obtain ⟨engine', hengine', hsame⟩ := h.engine (by decide) hengine
      rw [← hsame] at hrun
      exact .textResult hengine' (h.compiles (by decide) hc) hrun hkind

end Request

end Formula
