import Formula.Proofs.Accelerated.Rows

/-! # Parts of values

The parts of a value by the numbers of the elements that lead to them, and the parts of two values
that meet when the values are combined. -/

namespace Formula.Value

/-- The part at a path: the element with the first number, in it the element with the next one. -/
def part? : Value → List Nat → Option Value
  | v, [] => some v
  | array items, i :: path => items[i]?.bind (·.part? path)
  | _, _ :: _ => none

/-- The part at a path, or the scalar above it. -/
def reach? : Value → List Nat → Option Value
  | v, [] => some v
  | array items, i :: path => items[i]?.bind (·.reach? path)
  | scalar, _ :: _ => some scalar

/-- At the path, which leads to a part of one of the values at least, `a` of the first value meets
`b` of the second. A scalar meets every part of an array. -/
def Meets (u w : Value) (path : List Nat) (a b : Value) : Prop :=
  u.reach? path = some a ∧ w.reach? path = some b ∧
    ((∃ c, u.part? path = some c) ∨ ∃ c, w.part? path = some c)

/-- The pairs of elements that meet. -/
def facing : Value → Value → List (Value × Value)
  | array lefts, array rights => lefts.zip rights
  | array lefts, right => lefts.map (·, right)
  | left, array rights => rights.map (left, ·)
  | _, _ => []

variable {u w a b v : Value} {i : Nat} {path : List Nat}

theorem isScalar_or_array (v : Value) : v.isScalar = true ∨ ∃ items, v = array items := by
  cases v <;> simp [isScalar]

@[simp] theorem part?_nil (v : Value) : v.part? [] = some v := by
  cases v <;> rfl

@[simp] theorem reach?_nil (v : Value) : v.reach? [] = some v := by
  cases v <;> rfl

theorem part?_array_cons (items : List Value) (i : Nat) (path : List Nat) :
    (array items).part? (i :: path) = items[i]?.bind (·.part? path) := rfl

theorem reach?_array_cons (items : List Value) (i : Nat) (path : List Nat) :
    (array items).reach? (i :: path) = items[i]?.bind (·.reach? path) := rfl

theorem part?_cons_of_isScalar (h : v.isScalar = true) (i : Nat) (path : List Nat) :
    v.part? (i :: path) = none := by
  cases v <;> first | rfl | cases h

theorem part?_of_isScalar (h : v.isScalar = true) : v.part? path = some a ↔ path = [] ∧ v = a := by
  cases path with
  | nil => simp
  | cons i path => simp [part?_cons_of_isScalar h]

theorem reach?_of_isScalar (h : v.isScalar = true) (path : List Nat) :
    v.reach? path = some v := by
  cases path with
  | nil => exact reach?_nil v
  | cons i path => cases v <;> first | rfl | cases h

theorem reach?_of_part? (h : v.part? path = some a) : v.reach? path = some a := by
  induction path generalizing v with
  | nil => rwa [part?_nil, ← reach?_nil v] at h
  | cons i path ih =>
      rcases isScalar_or_array v with hv | ⟨items, rfl⟩
      · rw [part?_cons_of_isScalar hv] at h
        cases h
      · obtain ⟨item, hitem, hpart⟩ := Option.bind_eq_some_iff.mp h
        rw [reach?_array_cons, hitem, Option.bind_some, ih hpart]

/-! ## Meeting -/

@[simp] theorem meets_nil : u.Meets w [] a b ↔ u = a ∧ w = b := by
  simp [Meets]

theorem meets_of_isScalar_left (hu : u.isScalar = true) :
    u.Meets w path a b ↔ u = a ∧ w.part? path = some b := by
  rw [Meets, reach?_of_isScalar hu, Option.some_inj]
  constructor
  · rintro ⟨rfl, hreach, hparts⟩
    obtain ⟨c, hc⟩ : ∃ c, w.part? path = some c :=
      hparts.elim (fun ⟨c, hc⟩ => ((part?_of_isScalar hu).mp hc).1 ▸ ⟨w, part?_nil w⟩) id
    rw [reach?_of_part? hc] at hreach
    exact ⟨rfl, hc.trans hreach⟩
  · rintro ⟨rfl, h⟩
    exact ⟨rfl, reach?_of_part? h, .inr ⟨b, h⟩⟩

theorem meets_of_isScalar_right (hw : w.isScalar = true) :
    u.Meets w path a b ↔ u.part? path = some a ∧ w = b := by
  rw [Meets, reach?_of_isScalar hw, Option.some_inj]
  constructor
  · rintro ⟨hreach, rfl, hparts⟩
    obtain ⟨c, hc⟩ : ∃ c, u.part? path = some c :=
      hparts.elim id fun ⟨c, hc⟩ => ((part?_of_isScalar hw).mp hc).1 ▸ ⟨u, part?_nil u⟩
    rw [reach?_of_part? hc] at hreach
    exact ⟨hc.trans hreach, rfl⟩
  · rintro ⟨h, rfl⟩
    exact ⟨reach?_of_part? h, rfl, .inl ⟨a, h⟩⟩

theorem facing_of_isScalar_left {items : List Value} (h : u.isScalar = true) :
    facing u (array items) = items.map (u, ·) := by
  cases u <;> first | rfl | cases h

theorem facing_of_isScalar_right {items : List Value} (h : w.isScalar = true) :
    facing (array items) w = items.map (·, w) := by
  cases w <;> first | rfl | cases h

theorem facing_of_isScalar (hu : u.isScalar = true) (hw : w.isScalar = true) :
    facing u w = [] := by
  cases u <;> cases w <;> first | rfl | contradiction

/-- Parts meet below two values exactly where parts meet of two elements that meet. -/
theorem meets_cons : u.Meets w (i :: path) a b ↔
    ∃ pair, (facing u w)[i]? = some pair ∧ pair.1.Meets pair.2 path a b := by
  rcases isScalar_or_array u with hu | ⟨lefts, rfl⟩ <;>
    rcases isScalar_or_array w with hw | ⟨rights, rfl⟩
  · simp [meets_of_isScalar_left hu, facing_of_isScalar hu hw, part?_cons_of_isScalar hw]
  · rw [meets_of_isScalar_left hu, facing_of_isScalar_left hu, part?_array_cons]
    cases h : rights[i]? with
    | none => simp [h]
    | some right => simp [h, meets_of_isScalar_left hu]
  · rw [meets_of_isScalar_right hw, facing_of_isScalar_right hw, part?_array_cons]
    cases h : lefts[i]? with
    | none => simp [h]
    | some left => simp [h, meets_of_isScalar_right hw]
  · rw [Meets, facing, part?_array_cons, part?_array_cons, reach?_array_cons, reach?_array_cons]
    cases hl : lefts[i]? with
    | none => simp [hl, List.getElem?_zip_eq_some]
    | some left =>
        cases hr : rights[i]? with
        | none => simp [hr, List.getElem?_zip_eq_some]
        | some right =>
            have hpair : (lefts.zip rights)[i]? = some (left, right) :=
              List.getElem?_zip_eq_some.mpr ⟨hl, hr⟩
            simp [hpair, Meets]

theorem meets_of_mem_facing {pair : Value × Value} (hpair : pair ∈ facing u w)
    (hmeets : pair.1.Meets pair.2 path a b) : ∃ i, u.Meets w (i :: path) a b := by
  obtain ⟨i, hi⟩ := List.getElem?_of_mem hpair
  exact ⟨i, meets_cons.mpr ⟨pair, hi, hmeets⟩⟩

end Formula.Value
