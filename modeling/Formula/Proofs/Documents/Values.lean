import Formula.Json
import Formula.Proofs.Arithmetic.Checked
import Formula.Proofs.Outcome

/-! # Values of documents

A document stands for a value of the same shape, unless some part of it has none. The leftmost such
part is the reason. -/

namespace Formula.Json

/-! ## What a document stands for -/

/-- A document stands for a value: an integer that fits stays one, every other number is a real, and
arrays keep their length, order and nesting. -/
inductive StandsFor : Json → Value → Prop where
  | bool (b : Bool) : StandsFor (bool b) (.bool b)
  | integer {n : Number} {i : Int64} (h : n.toInt? = some i.toInt) :
      StandsFor (number n) (.integer i)
  | real {n : Number} (h : ∀ i : Int64, n.toInt? ≠ some i.toInt) :
      StandsFor (number n) (.real n.toReal)
  | string (s : String) : StandsFor (string s) (.text s)
  | array {items : List Json} {values : List Value} (hlength : values.length = items.length)
      (h : ∀ (i : Nat) (hi : i < items.length) (hv : i < values.length),
        StandsFor items[i] values[i]) :
      StandsFor (array items) (.array values)

mutual

/-- The parts of a document that are no arrays, from left to right at every depth. -/
def leaves : Json → List Json
  | array items => leavesItems items
  | document => [document]

def leavesItems : List Json → List Json
  | [] => []
  | item :: items => item.leaves ++ leavesItems items

end

/-- Why a document that is no array has no value. -/
def noValue? : Json → Option NoValue
  | null => some .null
  | object _ => some .object
  | _ => none

/-- Every part that is no array has a value. -/
def HasValue (d : Json) : Prop := ∀ part ∈ d.leaves, part.noValue? = none

/-- The first part without a value is the reason. -/
def FirstLacks (d : Json) (reason : NoValue) : Prop :=
  ∃ before part after, d.leaves = before ++ part :: after ∧ part.noValue? = some reason ∧
    ∀ earlier ∈ before, earlier.noValue? = none

/-! ## Conversion -/

variable {d : Json} {v : Value} {reason : NoValue} {items : List Json}

@[elab_as_elim]
theorem document_induction {motive : Json → Prop} (null : motive null)
    (bool : ∀ b, motive (bool b)) (number : ∀ n, motive (number n))
    (string : ∀ s, motive (string s))
    (array : ∀ items, (∀ item ∈ items, motive item) → motive (array items))
    (object : ∀ members, motive (object members)) (d : Json) : motive d := by
  refine Json.rec (motive_2 := fun items => ∀ item ∈ items, motive item)
    (motive_3 := fun _ => True) (motive_4 := fun _ => True)
    null bool number string array (fun members _ => object members) ?_ ?_ ?_ ?_ ?_ d
  · intro item hitem
    cases hitem
  · intro head tail ihhead ihtail item hitem
    rcases List.mem_cons.mp hitem with rfl | hitem
    · exact ihhead
    · exact ihtail item hitem
  · trivial
  · intros
    trivial
  · intros
    trivial

theorem toValues_eq_mapM (items : List Json) : toValues items = items.mapM toValue := by
  induction items with
  | nil => rfl
  | cons item items ih => rw [toValues, List.mapM_cons, ih]

theorem toValue_array_eq_ok_iff :
    (array items).toValue = .ok v ↔ ∃ values, items.mapM toValue = .ok values ∧
      v = .array values := by
  rw [toValue, bind_eq_ok, toValues_eq_mapM]
  simp only [pure_eq_ok, Except.ok.injEq, eq_comm]

theorem toValue_number (n : Number) (v : Value) :
    (number n).toValue = .ok v ↔ (number n).StandsFor v := by
  rw [toValue]
  cases hfits : n.toInt?.bind Integer.ofInt? with
  | some i =>
      have hn : n.toInt? = some i.toInt := by
        obtain ⟨m, hm, hi⟩ := Option.bind_eq_some_iff.mp hfits
        rw [hm, Integer.ofInt?_eq_some_iff.mp hi]
      constructor
      · rintro ⟨⟩
        exact .integer hn
      · intro h
        cases h with
        | integer h =>
            rw [hn, Option.some_inj, Int64.toInt_inj] at h
            rw [h]
        | real h => exact absurd hn (h i)
  | none =>
      have hn (i : Int64) : n.toInt? ≠ some i.toInt := by
        intro h
        rw [h, Option.bind_some, Integer.ofInt?_toInt] at hfits
        cases hfits
      constructor
      · rintro ⟨⟩
        exact .real hn
      · intro h
        cases h with
        | integer h => exact absurd h (hn _)
        | real h => rfl

/-- Conversion gives the value that a document stands for. -/
theorem toValue_eq_ok_iff : d.toValue = .ok v ↔ d.StandsFor v := by
  induction d using document_induction generalizing v with
  | null => exact ⟨nofun, nofun⟩
  | bool b =>
      constructor
      · rintro ⟨⟩
        exact .bool b
      · rintro ⟨⟩
        rfl
  | number n => exact toValue_number n v
  | string s =>
      constructor
      · rintro ⟨⟩
        exact .string s
      · rintro ⟨⟩
        rfl
  | array items ih =>
      rw [toValue_array_eq_ok_iff]
      constructor
      · rintro ⟨values, hvalues, rfl⟩
        obtain ⟨hlength, h⟩ := mapM_eq_ok.mp hvalues
        exact .array hlength fun i hi hv => (ih _ (List.getElem_mem hi)).mp (h i hi hv)
      · intro h
        cases h with
        | @array _ values hlength h =>
            refine ⟨values, mapM_eq_ok.mpr ⟨hlength, fun i hi hv => ?_⟩, rfl⟩
            exact (ih _ (List.getElem_mem hi)).mpr (h i hi hv)
  | object members => exact ⟨nofun, nofun⟩

theorem findSome?_leaves_array (items : List Json) :
    (array items).leaves.findSome? noValue? =
      items.findSome? fun item => item.leaves.findSome? noValue? := by
  rw [leaves]
  induction items with
  | nil => rfl
  | cons item items ih =>
      rw [leavesItems, List.findSome?_append, List.findSome?_cons, ih]
      cases item.leaves.findSome? noValue? <;> rfl

theorem toValue_array_eq_error_iff :
    (array items).toValue = .error reason ↔ items.mapM toValue = .error reason := by
  rw [toValue, bind_eq_error, toValues_eq_mapM]
  simp only [pure_eq_ok, reduceCtorEq, and_false, exists_false, or_false]

/-- Conversion fails when a part is found that has no value. -/
theorem toValue_eq_error_iff_findSome? :
    d.toValue = .error reason ↔ d.leaves.findSome? noValue? = some reason := by
  induction d using document_induction generalizing reason with
  | null => simp [toValue, leaves, noValue?]
  | bool b => simp [toValue, leaves, noValue?]
  | number n =>
      rw [toValue]
      split <;> simp [leaves, noValue?]
  | string s => simp [toValue, leaves, noValue?]
  | array items ih =>
      rw [toValue_array_eq_error_iff, findSome?_leaves_array]
      exact mapM_eq_error_iff_findSome? fun item hitem reason => ih item hitem
  | object members => simp [toValue, leaves, noValue?]

/-- The first part without a value is the reason of a failure. -/
theorem toValue_eq_error_iff : d.toValue = .error reason ↔ d.FirstLacks reason :=
  toValue_eq_error_iff_findSome?.trans List.findSome?_eq_some_iff

/-- Conversion succeeds when every part has a value. -/
theorem exists_toValue_iff : (∃ v, d.toValue = .ok v) ↔ d.HasValue := by
  rw [HasValue, ← List.findSome?_eq_none_iff, Option.eq_none_iff_forall_ne_some, exists_eq_ok_iff]
  simp only [ne_eq, toValue_eq_error_iff_findSome?]

end Formula.Json
