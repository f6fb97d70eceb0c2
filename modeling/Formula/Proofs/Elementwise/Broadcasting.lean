import Formula.Proofs.Elementwise.Parts

/-! # Broadcasting

An operation on scalars is carried over to values of any shape: it combines the scalars that meet.
Where arrays of different lengths meet, or scalars that the operation fails on, there is no result,
and the first such place decides the fault. -/

namespace Formula

namespace Value

section Specification

variable (f : Value → Value → Except Fault Value)

/-- The fault of parts that meet: of arrays that differ in length, or of scalars. -/
inductive Clash : Value → Value → Fault → Prop where
  | lengths {lefts rights : List Value} (h : lefts.length ≠ rights.length) :
      Clash (array lefts) (array rights) (.shapeMismatch lefts.length rights.length)
  | leaves {a b : Value} {fault : Fault} (ha : a.isScalar = true) (hb : b.isScalar = true)
      (h : f a b = .error fault) : Clash a b fault

def ClashAt (u w : Value) (path : List Nat) (fault : Fault) : Prop :=
  ∃ a b, u.Meets w path a b ∧ Clash f a b fault

/-- The first fault when parts are looked at from left to right, an array before its elements. -/
def FirstClash (u w : Value) (fault : Fault) : Prop :=
  ∃ path, ClashAt f u w path fault ∧
    ∀ earlier, List.Lex (· < ·) earlier path → ∀ fault', ¬ ClashAt f u w earlier fault'

/-- Arrays that meet agree in length, and scalars that meet have a result. -/
structure Combines (a b : Value) : Prop where
  lengths : ∀ {lefts rights}, a = array lefts → b = array rights → lefts.length = rights.length
  leaves : a.isScalar = true → b.isScalar = true → ∃ c, f a b = .ok c

/-- The value has the shape of both values joined, and the results of the scalars that meet. -/
structure Joins (u w v : Value) : Prop where
  /-- There is a part only where parts of the two values meet. -/
  meets : ∀ {path c}, v.part? path = some c → ∃ a b, u.Meets w path a b
  /-- A part is as long as the arrays that meet there, and a scalar where scalars meet. -/
  shape : ∀ {path a b}, u.Meets w path a b →
    ∃ c, v.part? path = some c ∧ c.length? = a.length?.or b.length?
  leaf : ∀ {path a b}, u.Meets w path a b → a.isScalar = true → b.isScalar = true →
    ∃ c, f a b = .ok c ∧ v.part? path = some c

end Specification

variable {f : Value → Value → Except Fault Value} {u w a b v : Value} {i : Nat}
  {path : List Nat} {fault : Fault}

/-! ## Places of faults -/

theorem combines_iff : Combines f a b ↔ ∀ fault, ¬ Clash f a b fault := by
  constructor
  · rintro ⟨hlengths, hleaves⟩ fault hclash
    cases hclash with
    | lengths h => exact h (hlengths rfl rfl)
    | leaves ha hb h =>
        obtain ⟨c, hc⟩ := hleaves ha hb
        rw [h] at hc
        cases hc
  · intro h
    refine ⟨?_, fun ha hb => ?_⟩
    · rintro lefts rights rfl rfl
      exact Decidable.not_not.mp fun hne => h _ (.lengths hne)
    · cases hab : f a b with
      | ok c => exact ⟨c, rfl⟩
      | error fault => exact absurd (.leaves ha hb hab) (h fault)

theorem clashAt_nil : ClashAt f u w [] fault ↔ Clash f u w fault := by
  simp only [ClashAt, meets_nil]
  constructor
  · rintro ⟨a, b, ⟨rfl, rfl⟩, hclash⟩
    exact hclash
  · intro hclash
    exact ⟨u, w, ⟨rfl, rfl⟩, hclash⟩

theorem clashAt_cons : ClashAt f u w (i :: path) fault ↔
    ∃ pair, (facing u w)[i]? = some pair ∧ ClashAt f pair.1 pair.2 path fault := by
  simp only [ClashAt, meets_cons]
  constructor
  · rintro ⟨a, b, ⟨pair, hpair, hmeets⟩, hclash⟩
    exact ⟨pair, hpair, a, b, hmeets, hclash⟩
  · rintro ⟨pair, hpair, a, b, hmeets, hclash⟩
    exact ⟨a, b, ⟨pair, hpair, hmeets⟩, hclash⟩

/-- Values without a fault of their own have the faults of their elements. -/
theorem forall_not_clashAt_iff (h : ∀ fault, ¬ Clash f u w fault) :
    (∀ path fault, ¬ ClashAt f u w path fault) ↔
      ∀ pair ∈ facing u w, ∀ path fault, ¬ ClashAt f pair.1 pair.2 path fault := by
  constructor
  · intro hnone pair hpair path fault hclash
    obtain ⟨i, hi⟩ := List.getElem?_of_mem hpair
    exact hnone (i :: path) fault (clashAt_cons.mpr ⟨pair, hi, hclash⟩)
  · intro hnone path fault hclash
    cases path with
    | nil => exact h fault (clashAt_nil.mp hclash)
    | cons i path =>
        obtain ⟨pair, hi, hclash⟩ := clashAt_cons.mp hclash
        exact hnone pair (List.mem_of_getElem? hi) path fault hclash

theorem Clash.unique {fault' : Fault} (h : Clash f a b fault) (h' : Clash f a b fault') :
    fault = fault' := by
  cases h with
  | lengths =>
      cases h' with
      | lengths => rfl
      | leaves ha => cases ha
  | leaves ha _ h =>
      cases h' with
      | lengths => cases ha
      | leaves _ _ h' => exact Except.error.inj (h.symm.trans h')

/-- A fault of the values themselves comes before every other one. -/
theorem firstClash_of_clash {fault' : Fault} (h : Clash f u w fault') :
    FirstClash f u w fault ↔ fault' = fault := by
  constructor
  · rintro ⟨path, hclash, hfirst⟩
    cases path with
    | nil => exact h.unique (clashAt_nil.mp hclash)
    | cons i path => exact absurd (clashAt_nil.mpr h) (hfirst [] .nil fault')
  · rintro rfl
    exact ⟨[], clashAt_nil.mpr h, fun earlier hlex => nomatch hlex⟩

/-- The first fault of elements is that of the first pair that has one. -/
theorem firstClash_of_not_clash (h : ∀ fault, ¬ Clash f u w fault) :
    FirstClash f u w fault ↔ ∃ (i : Nat) (hi : i < (facing u w).length),
      FirstClash f (facing u w)[i].1 (facing u w)[i].2 fault ∧
        ∀ (j : Nat) (hj : j < i) (path : List Nat) (fault' : Fault),
          ¬ ClashAt f (facing u w)[j].1 (facing u w)[j].2 path fault' := by
  constructor
  · rintro ⟨path, hclash, hfirst⟩
    cases path with
    | nil => exact absurd (clashAt_nil.mp hclash) (h fault)
    | cons i path =>
        obtain ⟨pair, hpair, hclash⟩ := clashAt_cons.mp hclash
        obtain ⟨hi, rfl⟩ := List.getElem?_eq_some_iff.mp hpair
        refine ⟨i, hi, ⟨path, hclash, fun earlier hlex fault' hclash' => ?_⟩, ?_⟩
        · exact hfirst (i :: earlier) (.cons hlex) fault' (clashAt_cons.mpr ⟨_, hpair, hclash'⟩)
        · intro j hj earlier fault' hclash'
          refine hfirst (j :: earlier) (.rel hj) fault' (clashAt_cons.mpr ⟨_, ?_, hclash'⟩)
          exact List.getElem?_eq_getElem _
  · rintro ⟨i, hi, ⟨path, hclash, hfirst⟩, hbefore⟩
    refine ⟨i :: path, clashAt_cons.mpr ⟨_, List.getElem?_eq_getElem hi, hclash⟩, ?_⟩
    intro earlier hlex fault' hclash'
    cases hlex with
    | nil => exact h fault' (clashAt_nil.mp hclash')
    | cons hlex =>
        obtain ⟨pair, hpair, hclash'⟩ := clashAt_cons.mp hclash'
        obtain ⟨_, rfl⟩ := List.getElem?_eq_some_iff.mp hpair
        exact hfirst _ hlex fault' hclash'
    | rel hj =>
        obtain ⟨pair, hpair, hclash'⟩ := clashAt_cons.mp hclash'
        obtain ⟨_, rfl⟩ := List.getElem?_eq_some_iff.mp hpair
        exact hbefore _ hj _ fault' hclash'

/-! ## One step -/

theorem sizeOf_lt_of_mem_facing {pair : Value × Value} (h : pair ∈ facing u w) :
    sizeOf pair.1 + sizeOf pair.2 < sizeOf u + sizeOf w := by
  have harray (items : List Value) : sizeOf (array items) = 1 + sizeOf items := by simp
  rcases isScalar_or_array u with hu | ⟨lefts, rfl⟩ <;>
    rcases isScalar_or_array w with hw | ⟨rights, rfl⟩
  · rw [facing_of_isScalar hu hw] at h
    cases h
  · rw [facing_of_isScalar_left hu] at h
    obtain ⟨right, hright, rfl⟩ := List.mem_map.mp h
    have := List.sizeOf_lt_of_mem hright
    simp only [harray]
    omega
  · rw [facing_of_isScalar_right hw] at h
    obtain ⟨left, hleft, rfl⟩ := List.mem_map.mp h
    have := List.sizeOf_lt_of_mem hleft
    simp only [harray]
    omega
  · obtain ⟨hleft, hright⟩ := List.of_mem_zip h
    have := List.sizeOf_lt_of_mem hleft
    have := List.sizeOf_lt_of_mem hright
    simp only [harray]
    omega

/-- What holds of two values when it holds of the elements that meet holds of all values. -/
theorem facing_induction {motive : Value → Value → Prop}
    (step : ∀ u w, (∀ pair ∈ facing u w, motive pair.1 pair.2) → motive u w) (u w : Value) :
    motive u w :=
  step u w fun pair hpair =>
    have := sizeOf_lt_of_mem_facing hpair
    facing_induction step pair.1 pair.2
  termination_by sizeOf u + sizeOf w

theorem broadcast_of_clash (h : Clash f u w fault) : broadcast f u w = .error fault := by
  cases h with
  | lengths h => rw [broadcast, if_neg h]
  | leaves hu hw h => rw [broadcast_of_isScalar hu hw, h]

/-- Values that are not both scalars, and agree in length if both are arrays, combine element by
element. -/
theorem broadcast_eq_facing (hshape : ¬ (u.isScalar = true ∧ w.isScalar = true))
    (hcombines : Combines f u w) :
    broadcast f u w =
      (do return array (← (facing u w).mapM fun pair => broadcast f pair.1 pair.2)) ∧
      u.length?.or w.length? = some (facing u w).length := by
  rcases isScalar_or_array u with hu | ⟨lefts, rfl⟩ <;>
    rcases isScalar_or_array w with hw | ⟨rights, rfl⟩
  · exact absurd ⟨hu, hw⟩ hshape
  · have hitems : mapLeavesItems (f u) rights = rights.mapM (broadcast f u) := by
      rw [mapLeavesItems_eq]
      exact mapM_congr fun right _ => (broadcast_of_isScalar_left hu).symm
    rw [broadcast_of_isScalar_left hu, mapLeaves, hitems, facing_of_isScalar_left hu,
      List.mapM_map, (length?_eq_none_iff u).mpr hu, List.length_map]
    exact ⟨rfl, rfl⟩
  · have hitems : mapLeavesItems (fun left => f left w) lefts =
        lefts.mapM (broadcast f · w) := by
      rw [mapLeavesItems_eq]
      refine mapM_congr fun left _ => ?_
      rcases isScalar_or_array left with hleft | ⟨items, rfl⟩
      · rw [broadcast_of_isScalar hleft hw, mapLeaves_of_isScalar hleft]
      · rw [broadcast_of_isScalar_right hw]
    rw [broadcast_of_isScalar_right hw, mapLeaves, hitems, facing_of_isScalar_right hw,
      List.mapM_map, List.length_map]
    exact ⟨rfl, rfl⟩
  · have hlengths := hcombines.lengths rfl rfl
    rw [broadcast, if_pos hlengths, broadcastItems_eq, facing, List.length_zip, ← hlengths,
      Nat.min_self]
    exact ⟨rfl, rfl⟩

/-! ## The whole result -/

theorem exists_array_eq_ok {x : Except Fault (List Value)} :
    (∃ v, (do return array (← x)) = Except.ok v) ↔ ∃ items, x = .ok items := by
  cases x <;> simp

theorem array_eq_error {x : Except Fault (List Value)} :
    (do return array (← x)) = Except.error fault ↔ x = .error fault := by
  cases x <;> simp

/-- The induction is on the pairs of elements that meet; the two parts need each other, for the
first fault is that of a pair all earlier ones of which succeed. -/
theorem broadcast_outcome (f : Value → Value → Except Fault Value) (u w : Value) :
    ((∃ v, broadcast f u w = .ok v) ↔ ∀ path fault, ¬ ClashAt f u w path fault) ∧
      ∀ fault, broadcast f u w = .error fault ↔ FirstClash f u w fault := by
  induction u, w using facing_induction with
  | step u w ih =>
      by_cases hclash : ∃ fault, Clash f u w fault
      · obtain ⟨fault, hclash⟩ := hclash
        rw [broadcast_of_clash hclash]
        refine ⟨⟨(fun ⟨v, hv⟩ => nomatch hv), fun hnone => ?_⟩, fun fault' => ?_⟩
        · exact absurd (clashAt_nil.mpr hclash) (hnone [] fault)
        · rw [firstClash_of_clash hclash, Except.error.injEq]
      · have hnone : ∀ fault, ¬ Clash f u w fault := fun fault h => hclash ⟨fault, h⟩
        have hcombines := combines_iff.mpr hnone
        rw [forall_not_clashAt_iff hnone]
        simp only [firstClash_of_not_clash hnone]
        by_cases hshape : u.isScalar = true ∧ w.isScalar = true
        · obtain ⟨c, hc⟩ := hcombines.leaves hshape.1 hshape.2
          have hresult : broadcast f u w = .ok c := by
            rw [broadcast_of_isScalar hshape.1 hshape.2, hc]
          simp [hresult, facing_of_isScalar hshape.1 hshape.2]
        · obtain ⟨heq, -⟩ := broadcast_eq_facing hshape hcombines
          rw [heq]
          constructor
          · rw [exists_array_eq_ok, exists_mapM_eq_ok]
            exact forall₂_congr fun pair hpair => (ih pair hpair).1
          · intro fault
            rw [array_eq_error, mapM_eq_error]
            refine exists_congr fun i => exists_congr fun hi => ?_
            have hmem (j : Nat) (hj : j ≤ i) : (facing u w)[j] ∈ facing u w :=
              List.getElem_mem _
            exact and_congr ((ih _ (hmem i (Nat.le_refl i))).2 fault)
              (forall₂_congr fun j hj => (ih _ (hmem j (Nat.le_of_lt hj))).1)

theorem joins_of_isScalar (hu : u.isScalar = true) (hw : w.isScalar = true)
    (hv : v.isScalar = true) (h : f u w = .ok v) : Joins f u w v := by
  have hmeets {path : List Nat} {a b : Value} (hm : u.Meets w path a b) :
      path = [] ∧ u = a ∧ w = b := by
    obtain ⟨rfl, hpart⟩ := (meets_of_isScalar_left hu).mp hm
    obtain ⟨rfl, rfl⟩ := (part?_of_isScalar hw).mp hpart
    exact ⟨rfl, rfl, rfl⟩
  refine ⟨fun hpart => ?_, fun hm => ?_, fun hm _ _ => ?_⟩
  · obtain ⟨rfl, rfl⟩ := (part?_of_isScalar hv).mp hpart
    exact ⟨u, w, meets_nil.mpr ⟨rfl, rfl⟩⟩
  · obtain ⟨rfl, rfl, rfl⟩ := hmeets hm
    refine ⟨v, part?_nil v, ?_⟩
    rw [(length?_eq_none_iff _).mpr hu, (length?_eq_none_iff _).mpr hw,
      (length?_eq_none_iff _).mpr hv]
    rfl
  · obtain ⟨rfl, rfl, rfl⟩ := hmeets hm
    exact ⟨v, h, part?_nil v⟩

/-- An array joins two values when its elements join the elements that meet. -/
theorem joins_of_elements {items : List Value} (hshape : ¬ (u.isScalar = true ∧ w.isScalar = true))
    (hlength : u.length?.or w.length? = some items.length)
    (hitems : items.length = (facing u w).length)
    (helements : ∀ (i : Nat) (hi : i < items.length),
      Joins f (facing u w)[i].1 (facing u w)[i].2 items[i]) :
    Joins f u w (array items) := by
  have hmeets {i : Nat} {path : List Nat} {a b : Value} (hm : u.Meets w (i :: path) a b) :
      ∃ hi : i < items.length, (facing u w)[i].1.Meets (facing u w)[i].2 path a b := by
    obtain ⟨pair, hpair, hm⟩ := meets_cons.mp hm
    obtain ⟨hi, rfl⟩ := List.getElem?_eq_some_iff.mp hpair
    exact ⟨hitems ▸ hi, hm⟩
  have hpart {i : Nat} (hi : i < items.length) (path : List Nat) :
      (array items).part? (i :: path) = items[i].part? path := by
    rw [part?_array_cons, List.getElem?_eq_getElem hi, Option.bind_some]
  refine ⟨fun {path c} hc => ?_, fun {path a b} hm => ?_, fun {path a b} hm ha hb => ?_⟩
  · cases path with
    | nil => exact ⟨u, w, meets_nil.mpr ⟨rfl, rfl⟩⟩
    | cons i path =>
        obtain ⟨item, hitem, -⟩ := Option.bind_eq_some_iff.mp hc
        obtain ⟨hi, -⟩ := List.getElem?_eq_some_iff.mp hitem
        rw [hpart hi] at hc
        obtain ⟨a, b, hm⟩ := (helements i hi).meets hc
        exact ⟨a, b, meets_cons.mpr ⟨_, List.getElem?_eq_getElem (hitems ▸ hi), hm⟩⟩
  · cases path with
    | nil =>
        obtain ⟨rfl, rfl⟩ := meets_nil.mp hm
        exact ⟨array items, part?_nil _, hlength.symm⟩
    | cons i path =>
        obtain ⟨hi, hm⟩ := hmeets hm
        rw [hpart hi]
        exact (helements i hi).shape hm
  · cases path with
    | nil =>
        obtain ⟨rfl, rfl⟩ := meets_nil.mp hm
        exact absurd ⟨ha, hb⟩ hshape
    | cons i path =>
        obtain ⟨hi, hm⟩ := hmeets hm
        rw [hpart hi]
        exact (helements i hi).leaf hm ha hb

/-- The result of an operation that makes scalars of scalars joins the values. -/
theorem joins_of_broadcast (hf : ∀ a b c, f a b = .ok c → c.isScalar = true)
    (h : broadcast f u w = .ok v) : Joins f u w v := by
  induction u, w using facing_induction generalizing v with
  | step u w ih =>
      by_cases hshape : u.isScalar = true ∧ w.isScalar = true
      · rw [broadcast_of_isScalar hshape.1 hshape.2] at h
        exact joins_of_isScalar hshape.1 hshape.2 (hf u w v h) h
      · have hcombines : Combines f u w := combines_iff.mpr fun fault hclash => by
          rw [broadcast_of_clash hclash] at h
          cases h
        obtain ⟨heq, hlength⟩ := broadcast_eq_facing hshape hcombines
        rw [heq] at h
        obtain ⟨items, hsteps, h⟩ := bind_eq_ok.mp h
        cases h
        obtain ⟨hitems, hsteps⟩ := mapM_eq_ok.mp hsteps
        refine joins_of_elements hshape (hitems ▸ hlength) hitems fun i hi => ?_
        exact ih _ (List.getElem_mem _) (hsteps i (hitems ▸ hi) hi)

end Value

namespace Operation

open Value

/-- Every operator but `and` and `or` works on all pairs of scalars that meet. It succeeds exactly
when all arrays that meet agree in length and it succeeds on all those pairs; its result joins the
operands, and its fault is the first one. -/
theorem binary_broadcasts {op : BinaryOp} (hop : op ≠ .and ∧ op ≠ .or) (division : Division)
    (u w : Value) :
    ((∃ v, binary division op u w = .ok v) ↔
      ∀ path a b, u.Meets w path a b → Combines (binaryScalar division op) a b) ∧
      (∀ v, binary division op u w = .ok v → Joins (binaryScalar division op) u w v) ∧
      ∀ fault, binary division op u w = .error fault ↔
        FirstClash (binaryScalar division op) u w fault := by
  rw [binary_eq_broadcast hop]
  obtain ⟨hok, herror⟩ := broadcast_outcome (binaryScalar division op) u w
  refine ⟨hok.trans ?_, fun v => ?_, herror⟩
  · simp only [combines_iff, ClashAt]
    constructor
    · intro h path a b hmeets fault hclash
      exact h path fault ⟨a, b, hmeets, hclash⟩
    · rintro h path fault ⟨a, b, hmeets, hclash⟩
      exact h path a b hmeets fault hclash
  · exact joins_of_broadcast fun a b c => isScalar_of_binaryScalar hop

def minuend : Value := array [integer 1, array [integer 2, integer 3]]

def subtrahend : Value := array [array [integer 10, integer 20], integer 5]

/-- In the difference a scalar meets an array on either side. In `[1, [2, 3], 4] / [2, [5], 0]`
lengths differ before the division by zero is met. -/
theorem binary_broadcasts_nested :
    (BinaryOp.sub ≠ .and ∧ BinaryOp.sub ≠ .or) ∧ (BinaryOp.div ≠ .and ∧ BinaryOp.div ≠ .or) ∧
      (∃ v, binary .exact .sub minuend subtrahend = .ok v ∧
        v.part? [0, 1] = some (integer (-19)) ∧ v.part? [1, 0] = some (integer (-3))) ∧
      FirstClash (binaryScalar .exact .div)
        (array [integer 1, array [integer 2, integer 3], integer 4])
        (array [integer 2, array [integer 5], integer 0]) (.shapeMismatch 2 1) := by
  have hsub : BinaryOp.sub ≠ .and ∧ BinaryOp.sub ≠ .or := by decide
  have hdiv : BinaryOp.div ≠ .and ∧ BinaryOp.div ≠ .or := by decide
  have hright : minuend.Meets subtrahend [0, 1] (integer 1) (integer 20) :=
    ⟨rfl, rfl, .inr ⟨_, rfl⟩⟩
  have hleft : minuend.Meets subtrahend [1, 0] (integer 2) (integer 5) :=
    ⟨rfl, rfl, .inl ⟨_, rfl⟩⟩
  obtain ⟨-, hjoins, -⟩ := binary_broadcasts hsub .exact minuend subtrahend
  refine ⟨hsub, hdiv, ⟨_, rfl, ?_, ?_⟩, ((binary_broadcasts hdiv .exact _ _).2.2 _).mp rfl⟩
  · obtain ⟨c, hc, hpart⟩ := (hjoins _ rfl).leaf hright rfl rfl
    cases hc
    exact hpart
  · obtain ⟨c, hc, hpart⟩ := (hjoins _ rfl).leaf hleft rfl rfl
    cases hc
    exact hpart

end Operation

end Formula
