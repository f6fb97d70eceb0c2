import Formula.Proofs.Scope.Extension
import Formula.Proofs.Scope.Histories

/-! # Depth from the top of the stack

A depth counts frames from the innermost one. Under one more frame the same frames are one deeper,
and an evaluation that asks for them one deeper comes out the same. -/

namespace Formula

/-- The failure with one more frame on the stack: a frame that is missing is asked for one deeper
and among one more. -/
def Failure.deepen : Failure → Failure
  | .contextDepth depth available => .contextDepth (depth + 1) (available + 1)
  | failure => failure

/-- The failure is the same with one more frame on the stack. -/
def Failure.TellsNoDepth (failure : Failure) : Prop := failure.deepen = failure

/-- The scope with the calling frame at a depth of the stack. -/
def Scope.within (s : Scope) (stack : CallStack) (depth : Nat) : Scope :=
  { s with stack := some stack, contextDepth := depth }

/-- The options with the calling frame at a depth of the stack. -/
def Options.within (o : Options) (stack : CallStack) (depth : Nat) : Options :=
  { o with stack := some stack, contextDepth := depth }

/-- The second outcome is the first one with a failure deepened. -/
def Deepens {α : Type} (outcome outcome' : Except Failure α) : Prop :=
  outcome' = outcome.mapError Failure.deepen

namespace Deepens

variable {α β : Type} {x y : Except Failure α}

theorem ok (a : α) : Deepens (.ok a) (.ok a) := rfl

/-- What does not look for a frame comes out the same. -/
theorem same (h : FailsWith Failure.TellsNoDepth x) : Deepens x x := by
  cases x with
  | ok a => exact ok a
  | error e => exact congrArg Except.error (h e rfl).symm

/-- What comes out as before deepens to itself when it does not look for a frame. -/
theorem of_eq (h : FailsWith Failure.TellsNoDepth x) (hsame : y = x) : Deepens x y := by
  rw [hsame]
  exact same h

theorem bind {f g : α → Except Failure β} (h : Deepens x y)
    (hnext : ∀ a, x = .ok a → Deepens (f a) (g a)) : Deepens (x >>= f) (y >>= g) := by
  cases x with
  | ok a =>
      rw [h]
      exact hnext a rfl
  | error e =>
      rw [h]
      rfl

end Deepens

variable {stack : CallStack} {depth : Nat}

/-! ## Names -/

theorem CallStack.deepens_frameAt (h : firstDepth ≤ depth) (frame : Frame) :
    Deepens (stack.frameAt depth) ((stack.push frame).frameAt (depth + 1)) := by
  have hsub : depth + 1 - firstDepth = depth - firstDepth + 1 := Nat.sub_add_comm h
  rw [frameAt, frameAt, if_neg (Nat.not_lt.mpr h), if_neg (by omega), hsub]
  cases hframe : stack.frames[depth - firstDepth]? with
  | some found => simp only [push, List.getElem?_cons_succ, hframe]; rfl
  | none => simp only [push, List.getElem?_cons_succ, hframe]; rfl

variable (h : CallStack.firstDepth ≤ depth) (frame : Frame)
include h

theorem Scope.deepens_resolve (s : Scope) (name : String) :
    Deepens ((s.within stack depth).resolve name)
      ((s.within (stack.push frame) (depth + 1)).resolve name) := by
  unfold resolve
  have hlocals : (s.within (stack.push frame) (depth + 1)).locals = (s.within stack depth).locals :=
    rfl
  rw [hlocals]
  cases (s.within stack depth).locals.bind (·.get? name) with
  | some value => exact .ok _
  | none => exact (CallStack.deepens_frameAt h frame).bind fun found _ => .ok _

namespace Compiled

theorem deepens_bind (scope : Scope) (terms : Bindings) (use : String × Nat) :
    Deepens (bind (scope.within stack depth) terms use)
      (bind (scope.within (stack.push frame) (depth + 1)) terms use) := by
  refine (Scope.deepens_resolve h frame scope use.1).bind fun answer _ => ?_
  cases answer with
  | some value => exact .ok _
  | none => rfl

theorem deepens_foldlM_bind (scope : Scope) (uses : List (String × Nat)) (terms : Bindings) :
    Deepens (uses.foldlM (bind (scope.within stack depth)) terms)
      (uses.foldlM (bind (scope.within (stack.push frame) (depth + 1))) terms) := by
  induction uses generalizing terms with
  | nil => exact .ok terms
  | cons use uses ih => exact (deepens_bind h frame scope terms use).bind fun terms' _ => ih terms'

/-- What is compiled one deeper differs in its lookup alone, so it runs alike where no name is
looked up any more. -/
theorem deepens_ofText_bind {α : Type} {run : Compiled → Except Failure α} (source : String)
    (grammar : Grammar) (scope : Scope) (engine : String) (division : Division)
    (htells : ∀ c, FailsWith Failure.TellsNoDepth (run c))
    (hlookup : ∀ (c : Compiled) lookup, c.engine = engine →
      run { c with lookup := lookup } = run c) :
    Deepens (ofText source grammar (scope.within stack depth) engine division >>= run)
      (ofText source grammar (scope.within (stack.push frame) (depth + 1)) engine division >>=
        run) := by
  cases htree : Expr.ofText grammar source with
  | error error =>
      simp only [ofText, htree]
      rfl
  | ok tree =>
      rw [ofText_of_tree htree, ofText_of_tree htree, bind_assoc, bind_assoc]
      refine (deepens_foldlM_bind h frame scope _ _).bind fun terms _ => ?_
      rw [pure_bind, pure_bind]
      exact .of_eq (htells _) (hlookup ⟨_, _, _, _, _, _, _, _, _⟩ _ rfl)

end Compiled

omit h

/-! ## Evaluation -/

/-- The engine runs on the terms that were compiled and looks up no name of its own. -/
def Engine.LooksUpNothing (e : Engine) : Prop :=
  ∀ (c : Compiled) (lookup : String → Except Failure (Option Value)),
    e.run { c with lookup := lookup } = e.run c

namespace Registry

theorem looksUpNothing_of_standard {e : Engine} (he : e ∈ standard.engines) :
    e.LooksUpNothing := by
  simp only [standard, List.mem_cons, List.not_mem_nil, or_false] at he
  rcases he with rfl | rfl <;> exact fun _ _ => rfl

variable (r : Registry)

theorem failsWith_grammar (id : String) : FailsWith Failure.TellsNoDepth (r.grammar id) := by
  unfold grammar
  split
  · exact .ok _
  · exact .error rfl

theorem failsWith_engine (id : String) : FailsWith Failure.TellsNoDepth (r.engine id) := by
  unfold engine
  split
  · exact .error rfl
  · split
    · split
      · exact .ok _
      · exact .error rfl
    · exact .ok _

theorem failsWith_execute (c : Compiled) : FailsWith Failure.TellsNoDepth (r.execute c) := by
  refine (r.failsWith_engine c.engine).bind fun engine _ => ?_
  split
  · exact .ok _
  · exact .error rfl

/-- An evaluation one frame deeper under one more frame differs in the failure that a frame is
missing, and in nothing else. -/
theorem deepens_evaluate (h : CallStack.firstDepth ≤ depth) (frame : Frame) (expr : Source)
    {o : Options}
    (hlookup : ∀ engine, r.engine o.engine = .ok engine → engine.LooksUpNothing) :
    Deepens (r.evaluate expr (o.within stack depth))
      (r.evaluate expr (o.within (stack.push frame) (depth + 1))) := by
  refine (Deepens.same (failsWith_expressionText (fun _ => rfl) expr)).bind fun text _ => ?_
  refine (Deepens.same (r.failsWith_grammar o.grammar)).bind fun grammar _ => ?_
  refine (Deepens.same (r.failsWith_engine o.engine)).bind fun engine hengine => ?_
  refine (Deepens.same (failsWith_resolvers (fun _ => rfl) o.resolvers)).bind
    fun resolvers _ => ?_
  refine Compiled.deepens_ofText_bind h frame text grammar (o.scope resolvers) engine.name
    o.division (fun c => ?_) fun c lookup hc => ?_
  · exact (r.failsWith_execute c).bind fun value _ =>
      failsWith_checkResult (fun _ => rfl) value
  · have hname : r.engine c.engine = .ok engine := by
      rw [hc, engine_name hengine, hengine]
    have hexecute : r.execute { c with lookup := lookup } = r.execute c :=
      execute_congr hname rfl (hlookup engine hengine c lookup)
    rw [hexecute]

/-- Depths count from the top of the stack: one more frame makes every frame one deeper, to any
engine that looks up nothing itself, as the standard ones do. After any history a depth stands for
the frame that the history keeps under as many later ones. -/
theorem depth_counts_from_top :
    (∀ e ∈ standard.engines, e.LooksUpNothing) ∧
      (∀ (r : Registry) (expr : Source) (o : Options) (stack : CallStack) (frame : Frame)
        (depth : Nat), (∀ engine, r.engine o.engine = .ok engine → engine.LooksUpNothing) →
          CallStack.firstDepth ≤ depth →
            Deepens (r.evaluate expr (o.within stack depth))
              (r.evaluate expr (o.within (stack.push frame) (depth + 1)))) ∧
        ∀ (history : List CallStack.Move) (above : Nat),
          CallStack.Selects history above ((CallStack.after history).frameAt (above + 2)) := by
  refine ⟨fun _ => looksUpNothing_of_standard, ?_, CallStack.selects_frameAt⟩
  exact fun r expr _ _ frame _ hlookup h => r.deepens_evaluate h frame expr hlookup

/-- A frame that binds the names of `b < c < a`. -/
def ascending : Frame where
  locals := .ofList [("a", .integer 3), ("b", .integer 1), ("c", .integer 2)]

/-- The frame is found one deeper under another frame, with none below it; after two more pushes
and a pop it has one frame above it. -/
theorem depth_counts_from_top_ascending :
    standard.evaluate (.text "b < c < a")
        (Options.within { grammar := "strict" } ((CallStack.ofList [ascending]).push {}) 3) =
          .ok (.bool true) ∧
      standard.evaluate (.text "b < c < a")
        (Options.within { grammar := "strict" } ((CallStack.ofList [ascending]).push {}) 4) =
          .error (.contextDepth 4 2) ∧
      (CallStack.after [.push ascending, .push {}, .pop, .push {}]).frameAt 3 =
        .ok (some ascending) := by
  obtain ⟨hstandard, hevaluate, hselects⟩ := depth_counts_from_top
  have hlookup (engine : Engine) (h : standard.engine "accelerated" = .ok engine) :
      engine.LooksUpNothing :=
    hstandard engine (List.mem_of_find?_eq_some (find?_of_engine h))
  have hfound : standard.evaluate (.text "b < c < a")
      (Options.within { grammar := "strict" } (.ofList [ascending]) 2) = .ok (.bool true) :=
    (evaluate_of_tree rfl rfl rfl Compiled.ofText_sharedOperand).trans rfl
  have hmissing : standard.evaluate (.text "b < c < a")
      (Options.within { grammar := "strict" } (.ofList [ascending]) 3) =
        .error (.contextDepth 3 1) :=
    (evaluate_of_tree rfl rfl rfl Compiled.ofText_sharedOperand).trans rfl
  refine ⟨?_, ?_, ?_⟩
  · rw [hevaluate standard _ _ _ {} 2 hlookup (by decide), hfound]
    rfl
  · rw [hevaluate standard _ _ _ {} 3 hlookup (by decide), hmissing]
    rfl
  · exact ((hselects _ 1).frame ascending).mpr
      ⟨[], [.push {}, .pop, .push {}], rfl, by decide, rfl⟩

end Registry

end Formula
