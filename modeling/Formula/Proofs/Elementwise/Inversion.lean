import Formula.Proofs.Elementwise.Broadcasting

/-! # De Morgan's laws for elementwise logic

A change of leaves that a scalar operation respects is respected by the operation on values of any
shape. Inversion is such a change for `&` and `|` on booleans and on 64-bit integers. -/

namespace Formula

namespace Value

/-- The value with its leaves changed. -/
def map (h : Value → Value) : Value → Value
  | array items => array (items.map fun item => item.map h)
  | leaf => h leaf

/-- Every leaf is of the kind. -/
inductive Uniform (kind : Kind) : Value → Prop where
  | leaf {v : Value} (hv : v.isScalar = true) (h : v.kind = kind) : Uniform kind v
  | array {items : List Value} (h : ∀ item ∈ items, Uniform kind item) : Uniform kind (array items)

/-- Arrays that differ in length meet, which is what the fault says. -/
def Mismatch (u w : Value) (fault : Fault) : Prop :=
  ∃ path lefts rights, u.Meets w path (array lefts) (array rights) ∧
    lefts.length ≠ rights.length ∧ fault = .shapeMismatch lefts.length rights.length

variable {f f' : Value → Value → Except Fault Value} {h : Value → Value} {u w a b v : Value}
  {kind : Kind} {path : List Nat} {fault : Fault}

/-! ## Changing leaves -/

theorem map_of_isScalar (hv : v.isScalar = true) : v.map h = h v := by
  cases v with
  | array items => cases hv
  | _ => simp [map]

theorem map_array (items : List Value) : (array items).map h = array (items.map (map h)) := by
  simp [map]

section

variable (hh : ∀ v, v.isScalar = true → (h v).isScalar = true)
include hh

theorem length?_map (v : Value) : (v.map h).length? = v.length? := by
  rcases isScalar_or_array v with hv | ⟨items, rfl⟩
  · rw [map_of_isScalar hv, (length?_eq_none_iff v).mpr hv, length?_eq_none_iff]
    exact hh v hv
  · simp [map_array, length?]

theorem isScalar_map (v : Value) : (v.map h).isScalar = true ↔ v.isScalar = true := by
  rw [← length?_eq_none_iff, length?_map hh, length?_eq_none_iff]

theorem facing_map (u w : Value) :
    facing (u.map h) (w.map h) = (facing u w).map (Prod.map (map h) (map h)) := by
  have hscalar := isScalar_map hh
  rcases isScalar_or_array u with hu | ⟨lefts, rfl⟩ <;>
    rcases isScalar_or_array w with hw | ⟨rights, rfl⟩
  · rw [facing_of_isScalar hu hw, facing_of_isScalar ((hscalar u).mpr hu) ((hscalar w).mpr hw),
      List.map_nil]
  · rw [map_array, facing_of_isScalar_left hu, facing_of_isScalar_left ((hscalar u).mpr hu)]
    simp
  · rw [map_array, facing_of_isScalar_right hw, facing_of_isScalar_right ((hscalar w).mpr hw)]
    simp
  · rw [map_array, map_array, facing, facing, List.zip_map]

end

/-- Two values are scalars, or arrays that differ in length, or combine element by element. -/
theorem scalars_or_lengths (u w : Value) :
    (u.isScalar = true ∧ w.isScalar = true) ∨
      (∃ m n, u.length? = some m ∧ w.length? = some n ∧ m ≠ n) ∨
      (¬ (u.isScalar = true ∧ w.isScalar = true) ∧
        ∀ m n, u.length? = some m → w.length? = some n → m = n) := by
  by_cases hshape : u.isScalar = true ∧ w.isScalar = true
  · exact .inl hshape
  · by_cases hlengths : ∃ m n, u.length? = some m ∧ w.length? = some n ∧ m ≠ n
    · exact .inr (.inl hlengths)
    · refine .inr (.inr ⟨hshape, fun m n hm hn => ?_⟩)
      exact Decidable.not_not.mp fun hne => hlengths ⟨m, n, hm, hn, hne⟩

theorem broadcast_of_length?_ne {m n : Nat} (hu : u.length? = some m) (hw : w.length? = some n)
    (hne : m ≠ n) : broadcast f u w = .error (.shapeMismatch m n) := by
  obtain ⟨lefts, rfl, rfl⟩ := (length?_eq_some_iff u m).mp hu
  obtain ⟨rights, rfl, rfl⟩ := (length?_eq_some_iff w n).mp hw
  exact broadcast_of_clash (.lengths hne)

theorem broadcast_of_length?_eq (hshape : ¬ (u.isScalar = true ∧ w.isScalar = true))
    (hlengths : ∀ m n, u.length? = some m → w.length? = some n → m = n) :
    broadcast f u w =
      (do return array (← (facing u w).mapM fun pair => broadcast f pair.1 pair.2)) := by
  have hcombines : Combines f u w := by
    refine ⟨?_, fun hu hw => absurd ⟨hu, hw⟩ hshape⟩
    rintro lefts rights rfl rfl
    exact hlengths _ _ rfl rfl
  exact (broadcast_eq_facing hshape hcombines).1

/-- A change of leaves that the operation respects on scalars that meet carries over from the
operands to the result. -/
theorem map_broadcast (hh : ∀ v, v.isScalar = true → (h v).isScalar = true)
    (hleaves : ∀ path a b, u.Meets w path a b → a.isScalar = true → b.isScalar = true →
      (f a b).map (map h) = f' (h a) (h b)) :
    (broadcast f u w).map (map h) = broadcast f' (u.map h) (w.map h) := by
  have hscalar := isScalar_map hh
  induction u, w using facing_induction with
  | step u w ih =>
      rcases scalars_or_lengths u w with ⟨hu, hw⟩ | ⟨m, n, hm, hn, hne⟩ | ⟨hshape, hlengths⟩
      · rw [broadcast_of_isScalar hu hw,
          broadcast_of_isScalar ((hscalar u).mpr hu) ((hscalar w).mpr hw), map_of_isScalar hu,
          map_of_isScalar hw]
        exact hleaves [] u w (meets_nil.mpr ⟨rfl, rfl⟩) hu hw
      · rw [broadcast_of_length?_ne hm hn hne,
          broadcast_of_length?_ne (by rwa [length?_map hh]) (by rwa [length?_map hh]) hne]
        rfl
      · -- A change of leaves is one of the elements, so it moves into the traversal of the pairs.
        have hitems : ((facing u w).mapM fun pair => broadcast f pair.1 pair.2).map
            (List.map (map h)) =
            (facing (u.map h) (w.map h)).mapM fun pair => broadcast f' pair.1 pair.2 := by
          rw [map_mapM, facing_map hh, List.mapM_map]
          refine mapM_congr fun pair hpair => ih pair hpair fun path a b hmeets => ?_
          obtain ⟨i, hmeets⟩ := meets_of_mem_facing hpair hmeets
          exact hleaves _ a b hmeets
        rw [broadcast_of_length?_eq hshape hlengths,
          broadcast_of_length?_eq (by rwa [hscalar, hscalar])
            (by rwa [length?_map hh, length?_map hh]), ← hitems]
        cases (facing u w).mapM fun pair => broadcast f pair.1 pair.2 with
        | error fault => rfl
        | ok items => simp [Except.map, map_array]

/-- An operation without faults on scalars that meet fails where arrays differ in length. -/
theorem broadcast_mismatch (hleaves : ∀ path a b, u.Meets w path a b → a.isScalar = true →
      b.isScalar = true → ∃ c, f a b = .ok c) :
    ((∃ fault, broadcast f u w = .error fault) ↔ ∃ fault, Mismatch u w fault) ∧
      ∀ fault, broadcast f u w = .error fault → Mismatch u w fault := by
  have hclash : ∀ path fault, ClashAt f u w path fault → Mismatch u w fault := by
    rintro path fault ⟨a, b, hmeets, hclash⟩
    cases hclash with
    | lengths hne => exact ⟨path, _, _, hmeets, hne, rfl⟩
    | leaves ha hb herror =>
        obtain ⟨c, hc⟩ := hleaves path a b hmeets ha hb
        cases hc.symm.trans herror
  obtain ⟨hsucceeds, hfails⟩ := broadcast_outcome f u w
  have hfault : ∀ fault, broadcast f u w = .error fault → Mismatch u w fault := by
    intro fault herror
    obtain ⟨path, hfirst, -⟩ := (hfails fault).mp herror
    exact hclash path fault hfirst
  refine ⟨⟨fun ⟨fault, herror⟩ => ⟨fault, hfault fault herror⟩, ?_⟩, hfault⟩
  rintro ⟨_, path, lefts, rights, hmeets, hne, rfl⟩
  rw [exists_eq_error_iff]
  intro v hv
  exact hsucceeds.mp ⟨v, hv⟩ path _ ⟨_, _, hmeets, .lengths hne⟩

/-! ## Leaves of one kind -/

theorem Uniform.kind_eq (hv : v.Uniform kind) (hscalar : v.isScalar = true) : v.kind = kind := by
  cases hv with
  | leaf _ h => exact h
  | array => cases hscalar

theorem Uniform.of_mem {items : List Value} (hitems : (Value.array items).Uniform kind)
    {item : Value} (h : item ∈ items) : item.Uniform kind := by
  cases hitems with
  | leaf hv => cases hv
  | array hitems => exact hitems item h

theorem Uniform.of_reach? (hv : v.Uniform kind) (h : v.reach? path = some a) : a.Uniform kind := by
  induction path generalizing v with
  | nil =>
      rw [reach?_nil] at h
      cases h
      exact hv
  | cons i path ih =>
      rcases isScalar_or_array v with hscalar | ⟨items, rfl⟩
      · rw [reach?_of_isScalar hscalar] at h
        cases h
        exact hv
      · obtain ⟨item, hitem, h⟩ := Option.bind_eq_some_iff.mp h
        exact ih (hv.of_mem (List.mem_of_getElem? hitem)) h

/-- Scalars that meet in values of one kind are of that kind. -/
theorem Uniform.of_meets (hu : u.Uniform kind) (hw : w.Uniform kind) (h : u.Meets w path a b) :
    a.Uniform kind ∧ b.Uniform kind :=
  ⟨hu.of_reach? h.1, hw.of_reach? h.2.1⟩

theorem uniform_of_broadcast
    (hf : ∀ path a b c, u.Meets w path a b → a.isScalar = true → b.isScalar = true →
      f a b = .ok c → c.isScalar = true ∧ c.kind = kind)
    (h : broadcast f u w = .ok v) : v.Uniform kind := by
  induction u, w using facing_induction generalizing v with
  | step u w ih =>
      rcases scalars_or_lengths u w with ⟨hu, hw⟩ | ⟨m, n, hm, hn, hne⟩ | ⟨hshape, hlengths⟩
      · rw [broadcast_of_isScalar hu hw] at h
        obtain ⟨hv, hkind⟩ := hf [] u w v (meets_nil.mpr ⟨rfl, rfl⟩) hu hw h
        exact .leaf hv hkind
      · rw [broadcast_of_length?_ne hm hn hne] at h
        cases h
      · rw [broadcast_of_length?_eq hshape hlengths] at h
        obtain ⟨items, hitems, h⟩ := bind_eq_ok.mp h
        cases h
        refine .array fun item hitem => ?_
        obtain ⟨pair, hpair, hitem⟩ := (mem_of_mapM_eq_ok hitems).mp hitem
        refine ih pair hpair (fun path a b c hmeets => ?_) hitem
        obtain ⟨i, hmeets⟩ := meets_of_mem_facing hpair hmeets
        exact hf _ a b c hmeets

/-- A change that has no faults on leaves of the kind is one of the value. -/
theorem Uniform.mapLeaves_eq_ok {g : Value → Except Fault Value} (hv : v.Uniform kind)
    (hg : ∀ a, a.isScalar = true → a.kind = kind → g a = .ok (h a)) :
    mapLeaves g v = .ok (v.map h) := by
  induction hv with
  | leaf hscalar hkind =>
      rw [mapLeaves_of_isScalar hscalar, hg _ hscalar hkind, map_of_isScalar hscalar]
  | @array items _ ih =>
      rw [mapLeaves, mapLeavesItems_eq, mapM_congr (g := fun item => pure (item.map h)) ih,
        List.mapM_pure, map_array]
      rfl

theorem Uniform.map (hv : v.Uniform kind)
    (hh : ∀ a, a.isScalar = true → a.kind = kind → (h a).isScalar = true ∧ (h a).kind = kind) :
    (v.map h).Uniform kind := by
  induction hv with
  | leaf hscalar hkind =>
      rw [map_of_isScalar hscalar]
      exact .leaf (hh _ hscalar hkind).1 (hh _ hscalar hkind).2
  | array _ ih =>
      rw [map_array]
      refine .array fun item hitem => ?_
      obtain ⟨item, hmem, rfl⟩ := List.mem_map.mp hitem
      exact ih item hmem

theorem Uniform.map_map_eq (hv : v.Uniform kind)
    (hscalar : ∀ v, v.isScalar = true → (h v).isScalar = true) (hh : ∀ v, h (h v) = v) :
    (v.map h).map h = v := by
  induction hv with
  | leaf hv => rw [map_of_isScalar hv, map_of_isScalar (hscalar _ hv), hh]
  | array _ ih =>
      rw [map_array, map_array, List.map_map]
      congr 1
      exact (List.map_congr_left ih).trans (List.map_id _)

end Value

namespace Operation

open Value

/-- What `~` makes of booleans and integers. -/
def inverse : Value → Value
  | .bool b => .bool !b
  | .integer n => .integer (~~~n)
  | v => v

/-- Conjunction and disjunction, each of which inversion turns into the other. -/
inductive Dual : BinaryOp → BinaryOp → Prop where
  | and : Dual .bitAnd .bitOr
  | or : Dual .bitOr .bitAnd

/-- The operator inverted is its dual of inverted operands. They fail together, where arrays that
differ in length meet and nowhere else. -/
structure DeMorgan (division : Division) (op dual : BinaryOp) (u w : Value) : Prop where
  law : (binary division op u w >>= unary .invert) =
    (do binary division dual (← unary .invert u) (← unary .invert w))
  fails_iff : (∃ fault, (binary division op u w >>= unary .invert) = .error fault) ↔
    ∃ fault, Mismatch u w fault
  fault_eq : ∀ fault, (binary division op u w >>= unary .invert) = .error fault →
    Mismatch u w fault

variable {op dual : BinaryOp} {kind : Kind} {u w a b : Value} {division : Division}

/-! ## Scalars -/

@[simp] theorem isScalar_inverse (v : Value) : (inverse v).isScalar = v.isScalar := by
  cases v <;> rfl

@[simp] theorem kind_inverse (v : Value) : (inverse v).kind = v.kind := by
  cases v <;> rfl

@[simp] theorem inverse_inverse (v : Value) : inverse (inverse v) = v := by
  cases v <;> simp [inverse]

theorem complement_and (m n : Int64) : ~~~(m &&& n) = ~~~m ||| ~~~n := by
  rw [← Int64.toBitVec_inj]
  simp [BitVec.not_and]

theorem complement_or (m n : Int64) : ~~~(m ||| n) = ~~~m &&& ~~~n := by
  rw [← Int64.toBitVec_inj]
  simp [BitVec.not_or]

theorem unaryScalar_invert (hkind : kind = .bool ∨ kind = .int) (ha : a.kind = kind) :
    unaryScalar .invert a = .ok (inverse a) := by
  subst ha
  cases a <;> simp [Value.kind] at hkind <;> rfl

/-- Two booleans or two integers have a result of their kind, and inversion respects it. -/
theorem bitwise_inverse (hop : Dual op dual) (hkind : kind = .bool ∨ kind = .int)
    (ha : a.kind = kind) (hb : b.kind = kind) :
    ∃ c, bitwise op a b = .ok c ∧ c.isScalar = true ∧ c.kind = kind ∧
      bitwise dual (inverse a) (inverse b) = .ok (inverse c) := by
  rcases hkind with rfl | rfl
  · cases a <;> cases ha
    cases b <;> cases hb
    cases hop
    · exact ⟨_, rfl, rfl, rfl, by simp [bitwise, inverse]⟩
    · exact ⟨_, rfl, rfl, rfl, by simp [bitwise, inverse]⟩
  · cases a <;> cases ha
    cases b <;> cases hb
    cases hop
    · exact ⟨_, rfl, rfl, rfl, by simp [bitwise, integral?, inverse, complement_and]⟩
    · exact ⟨_, rfl, rfl, rfl, by simp [bitwise, integral?, inverse, complement_or]⟩

theorem Dual.binary_eq (hop : Dual op dual) (division : Division) (u w : Value) :
    binary division op u w = broadcast (bitwise op) u w ∧
      binary division dual u w = broadcast (bitwise dual) u w := by
  cases hop <;> exact ⟨rfl, rfl⟩

/-! ## Values -/

theorem unary_invert (hkind : kind = .bool ∨ kind = .int) (hu : u.Uniform kind) :
    unary .invert u = .ok (u.map inverse) :=
  hu.mapLeaves_eq_ok fun _ _ ha => unaryScalar_invert hkind ha

theorem bitwise_inverse_of_meets (hop : Dual op dual) (hkind : kind = .bool ∨ kind = .int)
    (hu : u.Uniform kind) (hw : w.Uniform kind) {path : List Nat} (hmeets : u.Meets w path a b)
    (ha : a.isScalar = true) (hb : b.isScalar = true) :
    ∃ c, bitwise op a b = .ok c ∧ c.isScalar = true ∧ c.kind = kind ∧
      bitwise dual (inverse a) (inverse b) = .ok (inverse c) := by
  obtain ⟨hua, hwb⟩ := hu.of_meets hw hmeets
  exact bitwise_inverse hop hkind (hua.kind_eq ha) (hwb.kind_eq hb)

/-- The result has leaves of the kind again, so that its inversion has no faults of its own. -/
theorem binary_bind_invert (division : Division) (hop : Dual op dual)
    (hkind : kind = .bool ∨ kind = .int) (hu : u.Uniform kind) (hw : w.Uniform kind) :
    (binary division op u w >>= unary .invert) =
      (broadcast (bitwise op) u w).map (Value.map inverse) := by
  rw [(hop.binary_eq division u w).1]
  cases hv : broadcast (bitwise op) u w with
  | error fault => rfl
  | ok v =>
      apply unary_invert hkind
      refine uniform_of_broadcast (fun path a b c hmeets ha hb hc => ?_) hv
      obtain ⟨c', hc', hscalar, hresult, -⟩ := bitwise_inverse_of_meets hop hkind hu hw hmeets ha hb
      cases hc'.symm.trans hc
      exact ⟨hscalar, hresult⟩

theorem deMorgan_of_uniform (hop : Dual op dual) (hkind : kind = .bool ∨ kind = .int)
    (hu : u.Uniform kind) (hw : w.Uniform kind) : DeMorgan division op dual u w := by
  have hinvert := binary_bind_invert division hop hkind hu hw
  have herror : ∀ fault, (binary division op u w >>= unary .invert) = .error fault ↔
      broadcast (bitwise op) u w = .error fault := by
    intro fault
    rw [hinvert]
    cases broadcast (bitwise op) u w <;> simp [Except.map]
  obtain ⟨hfails, hfault⟩ := broadcast_mismatch fun path a b hmeets ha hb =>
    (bitwise_inverse_of_meets hop hkind hu hw hmeets ha hb).imp fun c hc => hc.1
  refine ⟨?_, ?_, ?_⟩
  · rw [hinvert, unary_invert hkind hu, unary_invert hkind hw, ok_bind, ok_bind,
      (hop.binary_eq division _ _).2]
    apply map_broadcast (fun v hv => by simpa using hv)
    intro path a b hmeets ha hb
    obtain ⟨c, hc, hscalar, -, hinverse⟩ := bitwise_inverse_of_meets hop hkind hu hw hmeets ha hb
    rw [hc, hinverse, Except.map, map_of_isScalar hscalar]
  · simpa only [herror] using hfails
  · simpa only [herror] using hfault

/-- De Morgan's laws, for values of any shape whose leaves are all booleans or all integers; and
inverting twice changes nothing. -/
theorem invert_deMorgan {kind : Kind} (hkind : kind = .bool ∨ kind = .int) (division : Division)
    {u w : Value} (hu : u.Uniform kind) (hw : w.Uniform kind) :
    DeMorgan division .bitAnd .bitOr u w ∧ DeMorgan division .bitOr .bitAnd u w ∧
      (unary .invert u >>= unary .invert) = .ok u := by
  refine ⟨deMorgan_of_uniform .and hkind hu hw, deMorgan_of_uniform .or hkind hu hw, ?_⟩
  have hinverted : (u.map inverse).Uniform kind := hu.map fun a ha hakind => by simp [ha, hakind]
  rw [unary_invert hkind hu, ok_bind, unary_invert hkind hinverted,
    hu.map_map_eq (fun v hv => by simpa using hv) inverse_inverse]

def flags : Value := array [array [integer 12, integer (-7)], integer 3]

def mask : Value := array [integer 10, array [integer 5]]

/-- An array meets a scalar on either side. In `True & []` nothing is combined, and of `[True]` and
`[]` the lengths differ. -/
theorem invert_deMorgan_nested :
    flags.Uniform .int ∧ mask.Uniform .int ∧
      (do binary .exact .bitOr (← unary .invert flags) (← unary .invert mask)) =
        .ok (array [array [integer (-9), integer (-9)], array [integer (-2)]]) ∧
      (bool true).Uniform .bool ∧ (array []).Uniform .bool ∧
      (do binary .exact .bitOr (← unary .invert (bool true)) (← unary .invert (array []))) =
        .ok (array []) ∧
      ∃ fault, Mismatch (array [bool true]) (array []) fault := by
  have hinteger (n : Int64) : (integer n).Uniform .int := .leaf rfl rfl
  have hflags : flags.Uniform .int := .array (by simp [hinteger, Uniform.array])
  have hmask : mask.Uniform .int := .array (by simp [hinteger, Uniform.array])
  have htrue : (bool true).Uniform .bool := .leaf rfl rfl
  have hempty : (array []).Uniform .bool := .array (by simp)
  have hsingle : (array [bool true]).Uniform .bool := .array (by simpa using htrue)
  refine ⟨hflags, hmask, ?_, htrue, hempty, ?_, ?_⟩
  · exact (invert_deMorgan (.inr rfl) .exact hflags hmask).1.law.symm.trans rfl
  · exact (invert_deMorgan (.inl rfl) .exact htrue hempty).1.law.symm.trans rfl
  · exact (invert_deMorgan (.inl rfl) .exact hsingle hempty).1.fails_iff.mp ⟨_, rfl⟩

end Operation

end Formula
