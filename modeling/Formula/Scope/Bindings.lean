import Formula.Value

/-! # Bindings

Values by name. A binding replaces an earlier one of the same name. -/

namespace Formula

structure Bindings where
  entries : List (String × Value)
  distinct : (entries.map Prod.fst).Nodup

namespace Bindings

def empty : Bindings := ⟨[], by simp⟩

instance : Inhabited Bindings := ⟨empty⟩

/-- The value bound to a name. -/
def get? (b : Bindings) (name : String) : Option Value := b.entries.lookup name

def insert (b : Bindings) (name : String) (value : Value) : Bindings where
  entries := (name, value) :: b.entries.filter fun (entry : String × Value) => entry.1 ≠ name
  distinct := by
    have h : (b.entries.filter fun (entry : String × Value) => entry.1 ≠ name).map Prod.fst =
        (b.entries.map Prod.fst).filter fun (id : String) => id ≠ name := by
      rw [List.filter_map]
      rfl
    rw [List.map_cons, h, List.nodup_cons]
    exact ⟨by simp, b.distinct.filter _⟩

/-- The later of two entries with one name counts. -/
def ofList (entries : List (String × Value)) : Bindings :=
  entries.foldl (fun (b : Bindings) (entry : String × Value) => b.insert entry.1 entry.2) empty

@[simp]
theorem get?_empty (name : String) : empty.get? name = none := rfl

theorem lookup_filter_ne {entries : List (String × Value)} {name other : String}
    (h : other ≠ name) :
    (entries.filter fun (entry : String × Value) => entry.1 ≠ name).lookup other =
      entries.lookup other := by
  induction entries with
  | nil => rfl
  | cons entry entries ih =>
    by_cases hentry : entry.1 = name
    · have hother : (other == entry.1) = false := by simpa [hentry] using h
      rw [List.filter_cons_of_neg (by simpa using hentry), ih, List.lookup_cons, hother]
    · rw [List.filter_cons_of_pos (by simpa using hentry), List.lookup_cons, List.lookup_cons, ih]

theorem get?_insert (b : Bindings) (name other : String) (value : Value) :
    (b.insert name value).get? other = if other = name then some value else b.get? other := by
  by_cases h : other = name
  · simp [get?, insert, h]
  · have hbeq : (other == name) = false := by simpa using h
    rw [if_neg h, get?, insert, List.lookup_cons, hbeq]
    exact lookup_filter_ne h

/-- A list of distinct names binds each of them. -/
theorem get?_ofList_eq_some_iff {entries : List (String × Value)} {name : String}
    {value : Value} (h : (entries.map Prod.fst).Nodup) :
    (ofList entries).get? name = some value ↔ (name, value) ∈ entries := by
  suffices hfold : ∀ b : Bindings, (entries.foldl (fun b entry => b.insert entry.1 entry.2) b).get?
      name = some value ↔ (name, value) ∈ entries ∨
        name ∉ entries.map Prod.fst ∧ b.get? name = some value by
    rw [ofList, hfold, get?_empty]
    simp only [reduceCtorEq, and_false, or_false]
  induction entries with
  | nil => simp
  | cons entry entries ih =>
      rw [List.map_cons, List.nodup_cons] at h
      obtain ⟨hfresh, hdistinct⟩ := h
      intro b
      rw [List.foldl_cons, ih hdistinct, get?_insert]
      by_cases hname : name = entry.1
      · have hnot : (name, value) ∉ entries := fun hmem =>
          hfresh (hname ▸ List.mem_map_of_mem hmem)
        grind
      · grind

end Bindings

end Formula
