import Formula.Proofs.Reading.Completeness
import Formula.Proofs.Reading.Soundness

/-! # Exactness of reading

A text is read as an expression exactly when its lexemes derive the expression. -/

namespace Formula

variable {g : Grammar}

/-- No lexemes derive two expressions at a level. -/
theorem Derives.unique {level : Level} {ls : List Lexeme} {e e' : Expr}
    (h : Derives g (.level level) ls e) (h' : Derives g (.level level) ls e') : e = e' := by
  have hread := read_of_derives 0 h (Grammar.stops_nil level)
  have hread' := read_of_derives 0 h' (Grammar.stops_nil level)
  rw [hread] at hread'
  cases hread'
  rfl

theorem derives_iff_read {level : Level} {ls : List Lexeme} {e : Expr} (stop : Nat)
    (hlevel : g.Has level) :
    Derives g (.level level) ls e ↔ Expr.read g stop level ls = .ok (e, []) := by
  constructor
  · intro h
    have hread := read_of_derives stop h (Grammar.stops_nil level)
    rw [List.append_nil] at hread
    exact hread
  · intro h
    obtain ⟨used, rfl, hused⟩ := Expr.derives_of_read hlevel h
    rw [List.append_nil]
    exact hused

theorem ofText_of_lexemes {source : String} {ls : List Lexeme}
    (hblank : ¬ source.toList.all Text.isBlank = true) (hls : Lexeme.ofText source = .ok ls)
    (e : Expr) :
    Expr.ofText g source = .ok e ↔ Derives g (.level .disjunction) ls e := by
  have hlevel : g.Has .disjunction := trivial
  rw [derives_iff_read source.utf8ByteSize hlevel, Expr.ofText, if_neg hblank, hls,
    ok_bind, Expr.ofLexemes_eq_read, bind_eq_ok]
  constructor
  · rintro ⟨⟨value, rest⟩, hread, hrest⟩
    cases rest with
    | nil =>
        cases hrest
        exact hread
    | cons l rest => cases hrest
  · intro hread
    exact ⟨(e, []), hread, rfl⟩

theorem ofText_eq_ok_iff {source : String} {e : Expr} :
    Expr.ofText g source = .ok e ↔ ¬ source.toList.all Text.isBlank = true ∧
      ∃ ls, Lexeme.ofText source = .ok ls ∧ Derives g (.level .disjunction) ls e := by
  constructor
  · intro h
    by_cases hblank : source.toList.all Text.isBlank = true
    · rw [Expr.ofText, if_pos hblank] at h
      cases h
    · refine ⟨hblank, ?_⟩
      cases hls : Lexeme.ofText source with
      | error _ =>
          rw [Expr.ofText, if_neg hblank, hls] at h
          cases h
      | ok ls => exact ⟨ls, rfl, (ofText_of_lexemes hblank hls e).mp h⟩
  · rintro ⟨hblank, ls, hls, hderives⟩
    exact (ofText_of_lexemes hblank hls e).mpr hderives

/-- Reading succeeds exactly with what the lexemes of the whole text derive, and they derive at most
one expression. -/
theorem Expr.ofText_iff_derives (g : Grammar) (source : String) :
    (∀ t, Expr.ofText g source = .ok t ↔
      ¬ source.toList.all Text.isBlank = true ∧
        ∃ ls, Lexeme.ofText source = .ok ls ∧ Derives g (.level .disjunction) ls t) ∧
      ∀ ls t t', Derives g (.level .disjunction) ls t → Derives g (.level .disjunction) ls t' →
        t = t' :=
  ⟨fun _ => ofText_eq_ok_iff, fun _ _ _ h h' => h.unique h'⟩

end Formula
