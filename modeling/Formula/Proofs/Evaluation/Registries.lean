import Formula.Proofs.Evaluation.Stages

/-! # Registries

A registry is built of entries whose names do not repeat, and the earliest repetition is reported
otherwise. A name then stands for the one entry that has it, and the engine that an evaluation finds
by name is the one that runs. -/

namespace Formula

/-! ## Names that repeat -/

/-- The name is the earliest one that repeats a name before it. -/
def FirstRepeat (names : List String) (name : String) : Prop :=
  ∃ before after, names = before ++ name :: after ∧ before.Nodup ∧ name ∈ before

namespace FirstRepeat

variable {names : List String} {name name' : String}

theorem not_nodup (h : FirstRepeat names name) : ¬ names.Nodup := by
  obtain ⟨before, after, rfl, -, hmem⟩ := h
  intro hnodup
  obtain ⟨-, -, hdisjoint⟩ := List.nodup_append.mp hnodup
  exact hdisjoint name hmem name List.mem_cons_self rfl

/-- Nothing stands between the earliest repetition and another one. -/
theorem eq_of_append {before more after after' : List String} (hmem : name ∈ before)
    (hnodup : (before ++ more).Nodup) (h : name :: after = more ++ name' :: after') :
    name = name' := by
  cases more with
  | nil => exact (List.cons.inj h).1
  | cons first more =>
      obtain ⟨rfl, -⟩ := List.cons.inj h
      exact absurd hnodup (not_nodup ⟨before, more, rfl, hnodup.sublist (by simp), hmem⟩)

theorem unique (h : FirstRepeat names name) (h' : FirstRepeat names name') : name = name' := by
  obtain ⟨before, after, hnames, hnodup, hmem⟩ := h
  obtain ⟨before', after', hnames', hnodup', hmem'⟩ := h'
  rw [hnames] at hnames'
  rcases List.append_eq_append_iff.mp hnames' with ⟨more, rfl, hmore⟩ | ⟨more, rfl, hmore⟩
  · exact eq_of_append hmem hnodup' hmore
  · exact (eq_of_append hmem' hnodup hmore).symm

end FirstRepeat

namespace Registry

/-- The names in `seen` are those before the others, the last one first. -/
theorem firstRepeat?_spec (seen names : List String) (hseen : seen.Nodup) :
    (∀ name, firstRepeat? seen names = some name → FirstRepeat (seen.reverse ++ names) name) ∧
      (firstRepeat? seen names = none → (seen.reverse ++ names).Nodup) := by
  induction names generalizing seen with
  | nil =>
      rw [List.append_nil]
      exact ⟨(fun name h => nomatch h), fun _ => (List.reverse_perm seen).nodup_iff.mpr hseen⟩
  | cons next names ih =>
      rw [firstRepeat?]
      by_cases hnext : next ∈ seen
      · rw [if_pos hnext]
        refine ⟨fun name h => ?_, fun h => nomatch h⟩
        cases h
        have hreverse := (List.reverse_perm seen).nodup_iff.mpr hseen
        exact ⟨seen.reverse, names, rfl, hreverse, List.mem_reverse.mpr hnext⟩
      · rw [if_neg hnext, List.append_cons, ← List.reverse_cons]
        exact ih _ (List.nodup_cons.mpr ⟨hnext, hseen⟩)

theorem firstRepeat?_eq_none_iff {names : List String} :
    firstRepeat? [] names = none ↔ names.Nodup := by
  obtain ⟨hsome, hnone⟩ := firstRepeat?_spec [] names List.nodup_nil
  refine ⟨hnone, fun h => ?_⟩
  cases hrepeat : firstRepeat? [] names with
  | none => rfl
  | some name => exact absurd h (hsome name hrepeat).not_nodup

theorem firstRepeat?_eq_some_iff {names : List String} {name : String} :
    firstRepeat? [] names = some name ↔ FirstRepeat names name := by
  obtain ⟨hsome, hnone⟩ := firstRepeat?_spec [] names List.nodup_nil
  refine ⟨hsome name, fun h => ?_⟩
  cases hrepeat : firstRepeat? [] names with
  | none => exact absurd (hnone hrepeat) h.not_nodup
  | some name' => rw [(hsome name' hrepeat).unique h]

/-! ## Building -/

variable {grammars : List Grammar} {engines : List Engine} {r : Registry} {failure : Failure}

/-- The failure names the earliest entry whose name repeats, a grammar before any engine. -/
inductive Duplicated (grammars : List Grammar) (engines : List Engine) : Failure → Prop where
  | grammar {name : String} (h : FirstRepeat (grammars.map Grammar.name) name) :
      Duplicated grammars engines (.duplicateIdentifier .grammar name)
  | engine {name : String} (hgrammars : (grammars.map Grammar.name).Nodup)
      (h : FirstRepeat (engines.map Engine.name) name) :
      Duplicated grammars engines (.duplicateIdentifier .engine name)

theorem build_eq_error_iff :
    build grammars engines = .error failure ↔ Duplicated grammars engines failure := by
  rw [build]
  constructor
  · intro h
    split at h
    · rename_i name hgrammars
      cases h
      exact .grammar (firstRepeat?_eq_some_iff.mp hgrammars)
    · rename_i hgrammars
      split at h
      · rename_i name hengines
        cases h
        exact .engine (firstRepeat?_eq_none_iff.mp hgrammars)
          (firstRepeat?_eq_some_iff.mp hengines)
      · cases h
  · intro h
    cases h with
    | grammar h => rw [firstRepeat?_eq_some_iff.mpr h]
    | engine hgrammars h =>
        rw [firstRepeat?_eq_none_iff.mpr hgrammars, firstRepeat?_eq_some_iff.mpr h]

theorem build_eq_ok_iff :
    build grammars engines = .ok r ↔
      ((grammars.map Grammar.name).Nodup ∧ (engines.map Engine.name).Nodup) ∧
        r = ⟨grammars, engines⟩ := by
  rw [build]
  constructor
  · intro h
    split at h
    · cases h
    · rename_i hgrammars
      split at h
      · cases h
      · rename_i hengines
        cases h
        exact ⟨⟨firstRepeat?_eq_none_iff.mp hgrammars, firstRepeat?_eq_none_iff.mp hengines⟩, rfl⟩
  · rintro ⟨⟨hgrammars, hengines⟩, rfl⟩
    rw [firstRepeat?_eq_none_iff.mpr hgrammars, firstRepeat?_eq_none_iff.mpr hengines]

/-- The standard registry is what its entries build. -/
theorem build_standard : build Grammar.all [.accelerated, .interpreted] = .ok standard :=
  build_eq_ok_iff.mpr ⟨by decide, rfl⟩

/-! ## Lookups -/

/-- The names, each once and in order. -/
structure Lists (names ids : List String) : Prop where
  ordered : ids.Pairwise (· < ·)
  mem (id : String) : id ∈ ids ↔ id ∈ names

theorem lists_sorted {names : List String} (h : names.Nodup) : Lists names (sorted names) where
  ordered := by
    have hle : (sorted names).Pairwise fun a b => decide (a ≤ b) = true :=
      List.pairwise_mergeSort (by simpa using fun a b c => String.le_trans)
        (by simpa using String.le_total) names
    have hne : (sorted names).Nodup := (List.mergeSort_perm _ _).nodup_iff.mpr h
    exact (hle.and hne).imp fun ⟨hle, hne⟩ => Std.lt_of_le_of_ne (of_decide_eq_true hle) hne
  mem id := List.mem_mergeSort

section

variable {α : Type} {name : α → String} {entries : List α}

theorem find?_name_of_mem {entry : α} (hnodup : (entries.map name).Nodup) (h : entry ∈ entries) :
    entries.find? (fun e => name e = name entry) = some entry := by
  induction entries with
  | nil => cases h
  | cons first entries ih =>
      obtain ⟨hfirst, hnodup⟩ := List.nodup_cons.mp hnodup
      rcases List.mem_cons.mp h with rfl | hmem
      · exact List.find?_cons_of_pos (decide_eq_true rfl)
      · have hne : name first ≠ name entry := fun heq => hfirst (heq ▸ List.mem_map_of_mem hmem)
        rw [List.find?_cons_of_neg (by simpa using hne)]
        exact ih hnodup hmem

theorem find?_name_of_not_mem {id : String} (h : id ∉ entries.map name) :
    entries.find? (fun e => name e = id) = none := by
  refine List.find?_eq_none.mpr fun entry hentry heq => h ?_
  rw [← of_decide_eq_true heq]
  exact List.mem_map_of_mem hentry

end

/-- A registry finds each of the entries by its name, and nothing else. -/
structure Offers (r : Registry) (grammars : List Grammar) (engines : List Engine) : Prop where
  grammarIds : Lists (grammars.map Grammar.name) r.grammarIds
  engineIds : Lists (engines.map Engine.name) r.engineIds
  grammar {g : Grammar} (h : g ∈ grammars) : r.grammar g.name = .ok g
  engine {e : Engine} (h : e ∈ engines) (hready : ∀ d, e.dependency = some d → d.available = true) :
    r.engine e.name = .ok e
  missing {e : Engine} {d : Dependency} (h : e ∈ engines) (hd : e.dependency = some d)
    (hmissing : d.available = false) :
    r.engine e.name = .error (.dependencyMissing e.name d.name d.hint)
  unknownGrammar {id : String} (h : id ∉ grammars.map Grammar.name) :
    r.grammar id = .error (.unknownIdentifier .grammar id r.grammarIds)
  unknownEngine {id : String} (h : id ∉ engines.map Engine.name) :
    r.engine id = .error (.unknownIdentifier .engine id r.engineIds)

theorem offers_of_nodup (hgrammars : (grammars.map Grammar.name).Nodup)
    (hengines : (engines.map Engine.name).Nodup) :
    Offers ⟨grammars, engines⟩ grammars engines where
  grammarIds := lists_sorted hgrammars
  engineIds := lists_sorted hengines
  grammar h := by
    rw [Registry.grammar, find?_name_of_mem hgrammars h]
  engine {e} h hready := by
    rw [Registry.engine, find?_name_of_mem hengines h]
    cases hd : e.dependency with
    | none => simp only [hd]
    | some d => simp only [hd, hready d hd, if_true]
  missing h hd hmissing := by
    rw [Registry.engine, find?_name_of_mem hengines h]
    simp only [hd, hmissing, Bool.false_eq_true, if_false]
  unknownGrammar h := by
    rw [Registry.grammar, find?_name_of_not_mem h]
  unknownEngine h := by
    rw [Registry.engine, find?_name_of_not_mem h]

end Registry

/-! ## The engine that runs -/

/-- The evaluation on a grammar and an engine, without a registry. -/
def Engine.evaluate (e : Engine) (g : Grammar) (expr : Source) (options : Options) :
    Except Failure Value := do
  let text ← expressionText expr
  let resolvers ← Namespace.resolvers options.resolvers
  let compiled ← Compiled.ofText text g (options.scope resolvers) e.name options.division
  let value ← (e.run compiled).mapError (.engineFailed e.name)
  checkResult value

/-- Whether failures of the category are those that a registry reports. -/
def Failure.Category.ofRegistry (category : Failure.Category) : Bool :=
  category = .configuration || category = .dependencyMissing

def Failure.IsLater (failure : Failure) : Prop := failure.category.ofRegistry = false

theorem Compiled.Unbound.isLater {scope : Scope} {use : String × Nat} {failure : Failure}
    (h : Unbound scope use failure) : failure.IsLater := by
  rcases h with hresolve | ⟨-, rfl⟩
  · obtain ⟨stack, -, rfl⟩ := Scope.resolve_eq_error hresolve
    rfl
  · rfl

theorem Compiled.failsWith_ofText {text : String} {g : Grammar} {scope : Scope} {engine : String}
    {division : Division} : FailsWith Failure.IsLater (ofText text g scope engine division) := by
  intro failure h
  cases hread : Expr.ofText g text with
  | error error =>
      rw [ofText, hread] at h
      cases h
      rfl
  | ok tree =>
      rw [ofText_of_tree hread] at h
      rcases bind_eq_error.mp h with hbind | ⟨terms, -, h⟩
      · obtain ⟨-, use, -, -, hunbound, -⟩ := foldlM_bind_eq_error hbind
        exact hunbound.isLater
      · cases h

theorem Engine.failsWith_evaluate (e : Engine) (g : Grammar) (expr : Source) (options : Options) :
    FailsWith Failure.IsLater (e.evaluate g expr options) := by
  have hrun (c : Compiled) :
      FailsWith Failure.IsLater ((e.run c).mapError (.engineFailed e.name)) := by
    cases e.run c with
    | ok value => exact .ok value
    | error error => exact .error rfl
  refine (failsWith_expressionText (fun _ => rfl) expr).bind fun text _ => ?_
  refine (failsWith_resolvers (fun _ => rfl) options.resolvers).bind fun resolvers _ => ?_
  refine Compiled.failsWith_ofText.bind fun c _ => (hrun c).bind fun value _ => ?_
  exact failsWith_checkResult (fun _ => rfl) value

namespace Registry

variable {grammars : List Grammar} {engines : List Engine} {r : Registry} {options : Options}
  {g : Grammar} {e : Engine}

theorem evaluate_of_lookups (hg : r.grammar options.grammar = .ok g)
    (he : r.engine options.engine = .ok e) (expr : Source) :
    r.evaluate expr options = e.evaluate g expr options := by
  rw [evaluate, Engine.evaluate, hg, he]
  simp only [ok_bind]
  refine bind_congr fun text => bind_congr fun resolvers => ?_
  cases hc : Compiled.ofText text g (options.scope resolvers) e.name options.division with
  | error failure => rfl
  | ok c =>
      have hengine : r.engine c.engine = .ok e := by
        rw [Compiled.engine_of_ofText hc, engine_name he, he]
      rw [ok_bind, ok_bind, execute_of_engine hengine]

/-- What an evaluation does once it has found its grammar and its engine. -/
structure Settles (r : Registry) (engines : List Engine) (options : Options) (g : Grammar)
    (e : Engine) : Prop where
  registered : e ∈ engines
  named : e.name = options.engine
  execute {c : Compiled} (h : c.engine = e.name) :
    r.execute c = (e.run c).mapError (.engineFailed e.name)
  evaluate (expr : Source) : r.evaluate expr options = e.evaluate g expr options
  later (expr : Source) : FailsWith Failure.IsLater (r.evaluate expr options)

theorem settles_of_lookups (hg : r.grammar options.grammar = .ok g)
    (he : r.engine options.engine = .ok e) : Settles r r.engines options g e where
  registered := List.mem_of_find?_eq_some (find?_of_engine he)
  named := engine_name he
  execute hc := by
    rw [← engine_name he, ← hc] at he
    exact execute_of_engine he
  evaluate := evaluate_of_lookups hg he
  later expr := by
    rw [evaluate_of_lookups hg he]
    exact e.failsWith_evaluate g expr options

/-- A registry is built when no name repeats, and the earliest repetition is reported otherwise.
What was built finds each entry by its name and nothing else, and an evaluation that has found its
engine runs it. -/
theorem build_integrity (grammars : List Grammar) (engines : List Engine) :
    ((∃ r, build grammars engines = .ok r) ↔
        (grammars.map Grammar.name).Nodup ∧ (engines.map Engine.name).Nodup) ∧
      (∀ failure, build grammars engines = .error failure ↔
        Duplicated grammars engines failure) ∧
      ∀ r, build grammars engines = .ok r → Offers r grammars engines ∧
        ∀ options g e, r.grammar options.grammar = .ok g → r.engine options.engine = .ok e →
          Settles r engines options g e := by
  refine ⟨?_, fun _ => build_eq_error_iff, fun r h => ?_⟩
  · simp only [build_eq_ok_iff, exists_and_left, exists_eq, and_true]
  · obtain ⟨⟨hgrammars, hengines⟩, rfl⟩ := build_eq_ok_iff.mp h
    exact ⟨offers_of_nodup hgrammars hengines, fun _ _ _ => settles_of_lookups⟩

/-- An engine that depends on something that is not there. -/
def absent : Engine where
  name := "absent"
  dependency := some ⟨"device", false, "plug it in"⟩
  run _ := .ok (.integer 0)

/-- An engine whose dependency is missing can be registered; its lookup fails. -/
theorem build_integrity_absent :
    ∃ r, build [.strict] [.interpreted, absent] = .ok r ∧
      r.grammar "extended" = .error (.unknownIdentifier .grammar "extended" r.grammarIds) ∧
      r.engine "absent" = .error (.dependencyMissing "absent" "device" "plug it in") ∧
      Settles r [.interpreted, absent] { grammar := "strict", engine := "interpreted" } .strict
        .interpreted ∧
      build [.strict] [.interpreted, absent, .interpreted] =
        .error (.duplicateIdentifier .engine "interpreted") := by
  obtain ⟨hbuild, -, hbuilt⟩ := build_integrity [.strict] [.interpreted, absent]
  obtain ⟨r, hr⟩ := hbuild.mpr (by decide)
  obtain ⟨hoffers, hsettles⟩ := hbuilt r hr
  have hgrammar : r.grammar "strict" = .ok .strict := hoffers.grammar (g := .strict) (by simp)
  have hengine : r.engine "interpreted" = .ok .interpreted :=
    hoffers.engine (e := .interpreted) (by simp) fun d hd => nomatch hd
  have habsent : r.engine "absent" = .error (.dependencyMissing "absent" "device" "plug it in") :=
    hoffers.missing (e := absent) (by simp) rfl rfl
  obtain ⟨-, hduplicate, -⟩ := build_integrity [.strict] [.interpreted, absent, .interpreted]
  refine ⟨r, hr, hoffers.unknownGrammar (by decide), habsent, hsettles _ _ _ hgrammar hengine, ?_⟩
  exact (hduplicate _).mpr (.engine (by decide) ⟨["interpreted", "absent"], [], rfl, by decide⟩)

end Registry

end Formula
