import Formula.Evaluation
import Formula.Proofs.Scope.FirstUse

/-! # Flattening of scopes

An evaluation sees of its namespaces only the first binding of each free name, so that all of them
can be replaced by one. -/

namespace Formula

namespace Scope

/-- The frame at the depth, where there is one. -/
def selected (s : Scope) : Option Frame :=
  match s.stack with
  | some stack =>
    if s.contextDepth < CallStack.firstDepth then none
    else stack.frames[s.contextDepth - CallStack.firstDepth]?
  | none => none

/-- The given globals, even empty ones, or else those of the selected frame. -/
def globalLayer (s : Scope) : Option Bindings :=
  match s.globals with
  | some globals => some globals
  | none => s.selected.map Frame.globals

/-- The namespaces in the order in which they are asked. -/
def layers (s : Scope) : List (String → Option Value) :=
  [s.locals, s.selected.map Frame.locals, s.globalLayer].map
      (fun (layer : Option Bindings) (name : String) => layer.bind (·.get? name)) ++
    s.resolvers.map Resolver.resolve

/-- The first value that a namespace binds to the name. -/
def firstBinding (s : Scope) (name : String) : Option Value := s.layers.findSome? (· name)

theorem frame?_eq_ok {s : Scope} {frame : Option Frame} (h : s.frame? = .ok frame) :
    s.selected = frame := by
  rw [frame?] at h
  rw [selected]
  cases hstack : s.stack with
  | none =>
      rw [hstack] at h
      cases h
      rfl
  | some stack =>
      simp only [hstack, CallStack.frameAt] at h ⊢
      split at h
      · rename_i hdepth
        cases h
        exact if_pos hdepth
      · rename_i hdepth
        rw [if_neg hdepth]
        split at h
        · rename_i frame' hframe
          cases h
          exact hframe
        · cases h

theorem firstBinding_eq (s : Scope) (name : String) :
    s.firstBinding name = (s.locals.bind (·.get? name) <|> s.resolveIn s.selected name) := by
  have hglobals : s.globalLayer = (s.globals <|> s.selected.map Frame.globals) := by
    rw [globalLayer]
    cases s.globals <;> rfl
  rw [firstBinding, layers, resolveIn, ← hglobals]
  simp only [List.findSome?_append, List.findSome?_map, Function.comp_def, List.findSome?_cons,
    List.findSome?_nil]
  cases s.locals.bind (·.get? name) with
  | some value => rfl
  | none =>
      cases (s.selected.map Frame.locals).bind (·.get? name) with
      | some value => rfl
      | none => cases s.globalLayer.bind (·.get? name) <;> rfl

/-- What a name resolves to is its first binding. -/
theorem firstBinding_of_resolve {s : Scope} {name : String} {value : Value}
    (h : s.resolve name = .ok (some value)) : s.firstBinding name = some value := by
  rw [firstBinding_eq]
  unfold resolve at h
  split at h
  · rename_i hlocal
    cases h
    rw [hlocal]
    rfl
  · rename_i hlocal
    obtain ⟨frame, hframe, heq⟩ := bind_eq_ok.mp h
    injection heq with heq
    rw [hlocal, frame?_eq_ok hframe, heq]
    rfl

/-- The namespace binds the free names of the expression to their first bindings, and nothing
else. -/
def Flattens (s : Scope) (tree : Expr) (flat : Bindings) : Prop :=
  ∀ name value, flat.get? name = some value ↔
    name ∈ tree.names.map Prod.fst ∧ s.firstBinding name = some value

theorem resolve_locals {s : Scope} {flat : Bindings} {name : String} {value : Value}
    (hlocals : s.locals = some flat) (h : flat.get? name = some value) :
    s.resolve name = .ok (some value) := by
  rw [resolve, hlocals, Option.bind_some, h]

end Scope

open Compiled Scope

/-- Where all names have values, their first bindings make up a namespace. -/
theorem exists_flattens {s : Scope} {tree : Expr}
    (h : ∀ name ∈ tree.names.map Prod.fst, ∃ value, s.resolve name = .ok (some value)) :
    ∃ flat, s.Flattens tree flat := by
  cases hterms : (firstUses tree.names).foldlM (bind s) Bindings.empty with
  | error e =>
      obtain ⟨before, use, after, hsplit, hmissing, -⟩ := foldlM_bind_eq_error hterms
      have huse : use.1 ∈ tree.names.map Prod.fst := by
        rw [← mem_firstUses_names, hsplit]
        exact List.mem_map_of_mem List.mem_append_cons_self
      obtain ⟨value, hvalue⟩ := h use.1 huse
      exact absurd hvalue (hmissing.failure.1 value)
  | ok terms =>
      obtain ⟨hbound, honly⟩ := foldlM_bind_eq_ok hterms
      simp only [mem_firstUses_names] at hbound honly
      refine ⟨terms, fun name value => ?_⟩
      by_cases hname : name ∈ tree.names.map Prod.fst
      · obtain ⟨value', hresolve, hget⟩ := hbound name hname
        rw [hget, firstBinding_of_resolve hresolve]
        exact (and_iff_right hname).symm
      · rw [honly name hname, Bindings.get?_empty]
        constructor
        · intro hnone
          cases hnone
        · rintro ⟨hmem, -⟩
          exact absurd hmem hname

namespace Registry

variable {r : Registry}

theorem find?_of_engine {id : String} {engine : Engine} (h : r.engine id = .ok engine) :
    r.engines.find? (·.name = id) = some engine := by
  unfold Registry.engine at h
  split at h
  · cases h
  · rename_i found hfound
    rw [hfound]
    split at h
    · split at h
      · cases h
        rfl
      · cases h
    · cases h
      rfl

theorem engine_name {id : String} {engine : Engine} (h : r.engine id = .ok engine) :
    engine.name = id := by
  simpa only [decide_eq_true_eq] using List.find?_some (find?_of_engine h)

theorem execute_of_engine {c : Compiled} {engine : Engine} (h : r.engine c.engine = .ok engine) :
    r.execute c = (engine.run c).mapError (.engineFailed engine.name) := by
  rw [execute, h, ok_bind]
  cases engine.run c <;> rfl

theorem execute_congr {c c' : Compiled} {engine : Engine}
    (hengine : r.engine c.engine = .ok engine) (hname : c'.engine = c.engine)
    (hrun : engine.run c' = engine.run c) : r.execute c' = r.execute c := by
  have hengine' : r.engine c'.engine = .ok engine := by
    rw [hname, hengine]
  rw [execute_of_engine hengine, execute_of_engine hengine', hrun]

/-- The two engines read the tree, the terms and the division of what they run, and nothing of the
scope behind it. -/
theorem execute_scope {engine : Engine} (hbuiltin : engine = .accelerated ∨ engine = .interpreted)
    {c : Compiled} (hengine : r.engine c.engine = .ok engine)
    (lookup : String → Except Failure (Option Value)) (count : Nat) :
    r.execute { c with lookup := lookup, resolverCount := count } = r.execute c := by
  rcases hbuiltin with rfl | rfl
  · exact execute_congr hengine rfl rfl
  · exact execute_congr hengine rfl rfl

/-- Two evaluations of a text are the same when its names have the same values in both. -/
theorem evaluate_congr {o o' : Options} {grammar : Grammar} {engine : Engine}
    {resolvers resolvers' : List Resolver} {text : String} {tree : Expr}
    (hgrammar : r.grammar o.grammar = .ok grammar) (hengine : r.engine o.engine = .ok engine)
    (hbuiltin : engine = .accelerated ∨ engine = .interpreted)
    (hkeyed : Namespace.resolvers o.resolvers = .ok resolvers)
    (hkeyed' : Namespace.resolvers o'.resolvers = .ok resolvers')
    (hsame : o'.grammar = o.grammar ∧ o'.engine = o.engine ∧ o'.trueDivision = o.trueDivision)
    (htree : Expr.ofText grammar text = .ok tree)
    (hvalues : ∀ name ∈ tree.names.map Prod.fst,
      (o'.scope resolvers').resolve name = (o.scope resolvers).resolve name) :
    r.evaluate (.text text) o' = r.evaluate (.text text) o := by
  obtain ⟨hgrammar', hengine', hdivision⟩ := hsame
  have hdivision' : o'.division = o.division := by
    rw [Options.division, Options.division, hdivision]
  have hname : r.engine engine.name = .ok engine := by
    rw [engine_name hengine, hengine]
  have hfold : (firstUses tree.names).foldlM (bind (o'.scope resolvers')) Bindings.empty =
      (firstUses tree.names).foldlM (bind (o.scope resolvers)) Bindings.empty := by
    refine foldlM_bind_congr _ fun name hmem => hvalues name ?_
    exact mem_firstUses_names.mp hmem
  simp only [evaluate, expressionText, hgrammar', hengine', hgrammar, hengine, hkeyed, hkeyed',
    hdivision', ok_bind, ofText_of_tree htree, hfold]
  cases (firstUses tree.names).foldlM (bind (o.scope resolvers)) Bindings.empty with
  | error e => rfl
  | ok terms =>
      simp only [ok_bind, pure_eq_ok]
      rw [← execute_scope hbuiltin hname]

theorem resolvers_keyed (resolvers : List Resolver) :
    Namespace.resolvers (resolvers.map .keyed) = .ok resolvers := by
  induction resolvers with
  | nil => rfl
  | cons resolver resolvers ih =>
      rw [List.map_cons, Namespace.resolvers, List.mapM_cons]
      rw [Namespace.resolvers] at ih
      rw [ih]
      rfl

/-- Evaluation in any namespaces is evaluation in the one that binds each free name to its first
binding. -/
theorem evaluate_flattened {o : Options} {grammar : Grammar} {engine : Engine}
    {resolvers : List Resolver} {text : String} {tree : Expr}
    (hgrammar : r.grammar o.grammar = .ok grammar) (hengine : r.engine o.engine = .ok engine)
    (hbuiltin : engine = .accelerated ∨ engine = .interpreted)
    (hkeyed : o.resolvers = resolvers.map .keyed) (htree : Expr.ofText grammar text = .ok tree)
    (hvalues : ∀ name ∈ tree.names.map Prod.fst,
      ∃ value, (o.scope resolvers).resolve name = .ok (some value)) :
    (∃ flat, (o.scope resolvers).Flattens tree flat) ∧
      ∀ flat, (o.scope resolvers).Flattens tree flat →
        r.evaluate (.text text)
            { o with locals := some flat, globals := none, stack := none, resolvers := [] } =
          r.evaluate (.text text) o := by
  refine ⟨exists_flattens hvalues, fun flat hflat => ?_⟩
  have hresolvers : Namespace.resolvers o.resolvers = .ok resolvers := by
    rw [hkeyed, resolvers_keyed]
  refine evaluate_congr hgrammar hengine hbuiltin hresolvers rfl ⟨rfl, rfl, rfl⟩ htree ?_
  intro name hname
  obtain ⟨value, hvalue⟩ := hvalues name hname
  have hget := (hflat name value).mpr ⟨hname, firstBinding_of_resolve hvalue⟩
  rw [hvalue, resolve_locals rfl hget]

/-- Options whose namespaces shadow each other; the globals of the frame are not asked. -/
def shadowing : Options where
  grammar := "strict"
  engine := "interpreted"
  locals := some (.ofList [("b", .integer 1)])
  globals := some (.ofList [("b", .integer 5), ("c", .integer 2)])
  stack := some (.ofList [{ globals := .ofList [("a", .integer 9)] }])
  resolvers := [.keyed (.ofBindings (.ofList [("a", .integer 3), ("c", .integer 7)]))]

theorem evaluate_flattened_shadowing :
    ∃ flat : Bindings, flat.get? "a" = some (.integer 3) ∧
      standard.evaluate (.text "b < c < a")
          { shadowing with locals := some flat, globals := none, stack := none, resolvers := [] } =
        standard.evaluate (.text "b < c < a") shadowing := by
  have hvalues : ∀ name ∈ Compiled.sharedOperand.names.map Prod.fst, ∃ value,
      (shadowing.scope [.ofBindings (.ofList [("a", .integer 3), ("c", .integer 7)])]).resolve
        name = .ok (some value) := by
    intro name hname
    change name ∈ ["b", "c", "c", "a"] at hname
    simp only [List.mem_cons, List.not_mem_nil, or_false] at hname
    rcases hname with rfl | rfl | rfl | rfl
    · exact ⟨.integer 1, rfl⟩
    · exact ⟨.integer 2, rfl⟩
    · exact ⟨.integer 2, rfl⟩
    · exact ⟨.integer 3, rfl⟩
  obtain ⟨⟨flat, hflat⟩, heq⟩ := evaluate_flattened (r := standard) (o := shadowing)
    rfl rfl (.inr rfl) rfl ofText_sharedOperand hvalues
  have hmem : "a" ∈ Compiled.sharedOperand.names.map Prod.fst := by decide
  exact ⟨flat, (hflat "a" (.integer 3)).mpr ⟨hmem, rfl⟩, heq flat hflat⟩

end Registry

end Formula
