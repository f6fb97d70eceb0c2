import Formula.Operation
import Formula.Proofs.Outcome

/-! # Operations on columns, row by row

A flat array is a column, a scalar the same value on every row. An operation on columns gives on
every row what it gives for the values of that row, and it fails exactly when some row fails. -/

namespace Formula

namespace Value

/-- The length of an array. -/
def length? : Value → Option Nat
  | array items => some items.length
  | _ => none

/-- The value on a row: the element of an array, and a scalar as it is. An array that is too short
has no such element and stays as it is. -/
def row (r : Nat) : Value → Value
  | array items => items[r]?.getD (array items)
  | scalar => scalar

/-- Scalars, and flat arrays of length `n`. -/
inductive Columnar (n : Nat) : Value → Prop where
  | scalar {v : Value} (h : v.isScalar = true) : Columnar n v
  | column {items : List Value} (hlength : items.length = n)
      (hflat : ∀ item ∈ items, item.isScalar = true) : Columnar n (array items)

theorem length?_eq_none_iff (v : Value) : v.length? = none ↔ v.isScalar = true := by
  cases v <;> simp [length?, isScalar]

theorem length?_eq_some_iff (v : Value) (n : Nat) :
    v.length? = some n ↔ ∃ items, v = array items ∧ items.length = n := by
  cases v <;> simp [length?]

theorem row_of_isScalar {v : Value} (h : v.isScalar = true) (r : Nat) : v.row r = v := by
  cases v <;> first | rfl | cases h

@[simp] theorem row_array_of_lt {items : List Value} {r : Nat} (h : r < items.length) :
    (array items).row r = items[r] := by
  simp [row, h]

theorem Columnar.length? {n m : Nat} {v : Value} (h : Columnar n v) (hm : v.length? = some m) :
    m = n := by
  cases h with
  | scalar h =>
      rw [(length?_eq_none_iff v).mpr h] at hm
      cases hm
  | column hlength _ => simpa [Value.length?, hlength] using hm.symm

theorem Columnar.isScalar_row {n r : Nat} {v : Value} (h : Columnar n v) (hr : r < n) :
    (v.row r).isScalar = true := by
  cases h with
  | scalar h => rwa [row_of_isScalar h]
  | column hlength hflat =>
      rw [row_array_of_lt (hlength ▸ hr)]
      exact hflat _ (List.getElem_mem _)

end Value

open Value

/-! ## Kernels give scalars -/

namespace Operation

theorem isScalar_of_checked {n : Option Int64} {v : Value} (h : checked n = .ok v) :
    v.isScalar = true := by
  cases n <;> simp [checked, Fault.orElse] at h
  subst h
  rfl

theorem isScalar_of_arithmetic {op : BinaryOp} {u w v : Value}
    (h : arithmetic op u w = .ok v) : v.isScalar = true := by
  simp only [arithmetic, bind_eq_ok] at h
  obtain ⟨operands, _, h⟩ := h
  split at h
  all_goals first
    | exact isScalar_of_checked h
    | (simp at h; subst h; rfl)
    | simp at h

theorem isScalar_of_divide {division : Division} {u w v : Value}
    (h : divide division u w = .ok v) : v.isScalar = true := by
  simp only [divide, bind_eq_ok] at h
  obtain ⟨operands, _, h⟩ := h
  split at h
  · obtain ⟨n, _, h⟩ := bind_eq_ok.mp h
    cases h
    rfl
  · split at h
    · cases h
    · cases h
      rfl

theorem isScalar_of_floorDivide {u w v : Value} (h : floorDivide u w = .ok v) :
    v.isScalar = true := by
  simp only [floorDivide, bind_eq_ok] at h
  obtain ⟨operands, _, h⟩ := h
  split at h
  · obtain ⟨n, _, h⟩ := bind_eq_ok.mp h
    cases h
    rfl
  · split at h
    · cases h
    · cases h
      rfl

theorem isScalar_of_modulo {u w v : Value} (h : modulo u w = .ok v) : v.isScalar = true := by
  simp only [modulo, bind_eq_ok] at h
  obtain ⟨operands, _, x, _, h⟩ := h
  cases h
  rfl

theorem isScalar_of_power {u w v : Value} (h : power u w = .ok v) : v.isScalar = true := by
  simp only [power, bind_eq_ok] at h
  obtain ⟨operands, _, h⟩ := h
  split at h
  · split at h
    · obtain ⟨e, _, h⟩ := bind_eq_ok.mp h
      exact isScalar_of_checked h
    · cases h
      rfl
  · cases h
    rfl

theorem isScalar_of_bitwise {op : BinaryOp} {u w v : Value} (h : bitwise op u w = .ok v) :
    v.isScalar = true := by
  unfold bitwise at h
  split at h
  · cases h
    rfl
  · split at h
    · cases h
      rfl
    · cases h

theorem bool_of_comparison {op : BinaryOp} {u w v : Value} (h : comparison op u w = .ok v) :
    ∃ b, v = .bool b := by
  have hmixed : ∀ {v}, compareMixed op u w = .ok v → ∃ b, v = .bool b := by
    intro v h
    unfold compareMixed at h
    split at h <;> cases h <;> exact ⟨_, rfl⟩
  unfold comparison at h
  split at h
  · cases h
    exact ⟨_, rfl⟩
  · exact hmixed h
  · exact hmixed h
  · obtain ⟨operands, _, h⟩ := bind_eq_ok.mp h
    cases h
    exact ⟨_, rfl⟩

theorem isScalar_of_comparison {op : BinaryOp} {u w v : Value}
    (h : comparison op u w = .ok v) : v.isScalar = true := by
  obtain ⟨b, rfl⟩ := bool_of_comparison h
  rfl

/-- The kernel of every operator but `and` and `or` makes a scalar of two scalars. -/
theorem isScalar_of_binaryScalar {division : Division} {op : BinaryOp} {u w v : Value}
    (hop : op ≠ .and ∧ op ≠ .or) (h : binaryScalar division op u w = .ok v) :
    v.isScalar = true := by
  cases op <;> simp only [binaryScalar] at h
  case and => exact absurd rfl hop.1
  case or => exact absurd rfl hop.2
  case div => exact isScalar_of_divide h
  case floorDiv => exact isScalar_of_floorDivide h
  case mod => exact isScalar_of_modulo h
  case pow => exact isScalar_of_power h
  case bitAnd | bitOr => exact isScalar_of_bitwise h
  case add | sub | mul => exact isScalar_of_arithmetic h
  all_goals exact isScalar_of_comparison h

theorem isScalar_of_unaryScalar {op : UnaryOp} {u v : Value} (h : unaryScalar op u = .ok v) :
    v.isScalar = true := by
  unfold unaryScalar at h
  split at h
  all_goals first
    | (cases h; rfl)
    | cases h
    | skip
  rename_i n
  cases hneg : Integer.neg? n with
  | none => simp [hneg, Fault.orElse] at h
  | some m =>
      simp only [hneg, Option.map_some, Fault.orElse, Except.ok.injEq] at h
      exact h ▸ rfl

end Operation

/-! ## Results row by row -/

/-- A result on columns of length `n` beside the results on their rows: a value whose rows they
are, or a failure that some row shares. -/
inductive Rowwise {ε : Type} (n : Nat) (rows : Nat → Except ε Value) : Except ε Value → Prop where
  | ok {v : Value} (hv : Columnar n v) (hrows : ∀ r < n, rows r = .ok (v.row r)) :
      Rowwise n rows (.ok v)
  | error {r : Nat} {e e' : ε} (hr : r < n) (hrow : rows r = .error e) :
      Rowwise n rows (.error e')

namespace Rowwise

variable {ε : Type} {n : Nat} {rows rows' : Nat → Except ε Value} {x : Except ε Value}

theorem congr (h : Rowwise n rows x) (hrows : ∀ r < n, rows r = rows' r) :
    Rowwise n rows' x := by
  cases h with
  | ok hv h => exact .ok hv fun r hr => hrows r hr ▸ h r hr
  | error hr h => exact .error hr (hrows _ hr ▸ h)

theorem bind {k : Nat → Value → Except ε Value} {f : Value → Except ε Value}
    (h : Rowwise n rows x)
    (hf : ∀ v, Columnar n v → Rowwise n (fun r => k r (v.row r)) (f v)) :
    Rowwise n (fun r => rows r >>= k r) (x >>= f) := by
  cases h with
  | @ok v hv h =>
      apply (hf v hv).congr
      intro r hr
      rw [h r hr, ok_bind]
  | error hr h => exact .error hr (by rw [h, error_bind])

theorem locate {rows : Nat → Except Fault Value} {x : Except Fault Value}
    (h : Rowwise n rows x) (pos : Nat) :
    Rowwise n (fun r => Fault.locate pos (rows r)) (Fault.locate pos x) := by
  cases h with
  | ok hv h => exact .ok hv fun r hr => by rw [h r hr, Fault.locate]
  | error hr h => exact .error hr (by rw [h, Fault.locate])

/-- A traversal that gives a scalar for every row. -/
theorem ofMapM {α : Type} {f : α → Except ε Value} {xs : List α} (hlength : xs.length = n)
    (hscalar : ∀ x ∈ xs, ∀ v, f x = .ok v → v.isScalar = true)
    (hrows : ∀ (r : Nat) (hr : r < xs.length), f xs[r] = rows r) :
    Rowwise n rows (do return .array (← xs.mapM f)) := by
  subst hlength
  cases h : xs.mapM f with
  | ok ys =>
      obtain ⟨hys, hsteps⟩ := mapM_eq_ok.mp h
      refine .ok (.column hys ?_) ?_
      · intro y hy
        obtain ⟨i, hi, rfl⟩ := List.mem_iff_getElem.mp hy
        exact hscalar _ (List.getElem_mem (hys ▸ hi)) _ (hsteps i (hys ▸ hi) hi)
      · intro r hr
        rw [row_array_of_lt (hys ▸ hr), ← hrows r hr]
        exact hsteps r hr (hys ▸ hr)
  | error e =>
      obtain ⟨i, hi, hstep, _⟩ := mapM_eq_error.mp h
      exact .error hi (hrows i hi ▸ hstep)

/-- With scalars alone, every row gives the one result; there must be a row to share a failure. -/
theorem ofConstant (hn : 0 < n) (hscalar : ∀ v, x = .ok v → v.isScalar = true) :
    Rowwise n (fun _ => x) x := by
  cases x with
  | ok v =>
      refine .ok (.scalar (hscalar v rfl)) fun r _ => ?_
      rw [row_of_isScalar (hscalar v rfl)]
  | error e => exact .error hn rfl

theorem eq_ok {v : Value} (h : Rowwise n rows (.ok v)) :
    Columnar n v ∧ ∀ r < n, rows r = .ok (v.row r) := by
  cases h with
  | ok hv hrows => exact ⟨hv, hrows⟩

/-- Where every result is an array, the results on the rows determine it. -/
theorem eq_ok_iff (h : Rowwise n rows x) (harray : ∀ u, x = .ok u → u.length? = some n)
    {v : Value} : x = .ok v ↔ ∃ items, v = array items ∧ items.length = n ∧
      ∀ (r : Nat) (hr : r < items.length), rows r = .ok items[r] := by
  constructor
  · rintro rfl
    obtain ⟨items, rfl, rfl⟩ := (length?_eq_some_iff v n).mp (harray v rfl)
    refine ⟨items, rfl, rfl, fun r hr => ?_⟩
    rw [h.eq_ok.2 r hr, row_array_of_lt hr]
  · rintro ⟨items, rfl, rfl, hsteps⟩
    cases h with
    | @ok u _ hrows =>
        obtain ⟨items', rfl, hlength⟩ := (length?_eq_some_iff u _).mp (harray u rfl)
        have hitems : items' = items := by
          apply List.ext_getElem hlength
          intro r hr' hr
          have hstep := hrows r hr
          rw [hsteps r hr, row_array_of_lt hr'] at hstep
          exact (Except.ok.inj hstep).symm
        rw [hitems]
    | error hr hrow =>
        rw [hsteps _ hr] at hrow
        cases hrow

end Rowwise

/-! ## Broadcasting -/

namespace Value

variable {f : Value → Except Fault Value} {g : Value → Value → Except Fault Value}

theorem mapLeaves_of_isScalar {v : Value} (h : v.isScalar = true) : mapLeaves f v = f v := by
  cases v <;> first | rfl | cases h

theorem mapLeavesItems_eq (items : List Value) :
    mapLeavesItems f items = items.mapM (mapLeaves f) := by
  induction items with
  | nil => rfl
  | cons item items ih => rw [mapLeavesItems, List.mapM_cons, ih]

theorem mapLeavesItems_eq_mapM {items : List Value}
    (hflat : ∀ item ∈ items, item.isScalar = true) :
    mapLeavesItems f items = items.mapM f := by
  rw [mapLeavesItems_eq]
  exact mapM_congr fun item hitem => mapLeaves_of_isScalar (hflat item hitem)

theorem broadcast_of_isScalar_left {u w : Value} (h : u.isScalar = true) :
    broadcast g u w = mapLeaves (g u) w := by
  cases u <;> first | (cases w <;> rfl) | cases h

theorem broadcast_of_isScalar_right {items : List Value} {w : Value} (h : w.isScalar = true) :
    broadcast g (array items) w = mapLeaves (fun u => g u w) (array items) := by
  cases w <;> first | rfl | cases h

theorem broadcast_of_isScalar {u w : Value} (hu : u.isScalar = true) (hw : w.isScalar = true) :
    broadcast g u w = g u w := by
  rw [broadcast_of_isScalar_left hu, mapLeaves_of_isScalar hw]

theorem broadcastItems_eq (lefts rights : List Value) :
    broadcastItems g lefts rights =
      (lefts.zip rights).mapM fun pair => broadcast g pair.1 pair.2 := by
  induction lefts generalizing rights with
  | nil => cases rights <;> rfl
  | cons left lefts ih =>
      cases rights with
      | nil => rfl
      | cons right rights => rw [broadcastItems, List.zip_cons_cons, List.mapM_cons, ih]

theorem broadcastItems_eq_mapM {lefts rights : List Value}
    (hlefts : ∀ item ∈ lefts, item.isScalar = true)
    (hrights : ∀ item ∈ rights, item.isScalar = true) :
    broadcastItems g lefts rights =
      (lefts.zip rights).mapM fun pair => g pair.1 pair.2 := by
  rw [broadcastItems_eq]
  refine mapM_congr fun pair hpair => ?_
  obtain ⟨hleft, hright⟩ := List.of_mem_zip hpair
  exact broadcast_of_isScalar (hlefts _ hleft) (hrights _ hright)

/-- An operation that makes scalars of scalars works on the leaves of a column row by row. -/
theorem mapLeaves_rowwise {n : Nat} {v : Value} (hn : 0 < n) (hv : Columnar n v)
    (hf : ∀ u w, f u = .ok w → w.isScalar = true) :
    Rowwise n (fun r => f (v.row r)) (mapLeaves f v) := by
  cases hv with
  | scalar h =>
      rw [mapLeaves_of_isScalar h]
      simpa only [row_of_isScalar h] using Rowwise.ofConstant hn (hf v)
  | @column items hlength hflat =>
      rw [mapLeaves, mapLeavesItems_eq_mapM hflat]
      refine .ofMapM hlength (fun u _ => hf u) fun r hr => ?_
      rw [row_array_of_lt hr]

/-- A broadcast operation that makes scalars of scalars works on columns row by row. -/
theorem broadcast_rowwise {n : Nat} {u w : Value} (hn : 0 < n) (hu : Columnar n u)
    (hw : Columnar n w) (hg : ∀ a b v, g a b = .ok v → v.isScalar = true) :
    Rowwise n (fun r => g (u.row r) (w.row r)) (broadcast g u w) := by
  cases hu with
  | scalar hu =>
      rw [broadcast_of_isScalar_left hu]
      simpa only [row_of_isScalar hu] using mapLeaves_rowwise hn hw (hg u)
  | @column lefts hlefts hleft =>
      have hcolumn : Columnar n (array lefts) := .column hlefts hleft
      cases hw with
      | scalar hw =>
          rw [broadcast_of_isScalar_right hw]
          simpa only [row_of_isScalar hw] using
            mapLeaves_rowwise (f := fun a => g a w) hn hcolumn fun a => hg a w
      | @column rights hrights hright =>
          rw [broadcast, if_pos (hlefts.trans hrights.symm), broadcastItems_eq_mapM hleft hright]
          refine .ofMapM (by simp [hlefts, hrights]) (fun pair _ => hg pair.1 pair.2) ?_
          intro r hr
          have hr' : r < lefts.length ∧ r < rights.length := by
            rw [List.length_zip] at hr
            omega
          rw [row_array_of_lt hr'.1, row_array_of_lt hr'.2, List.getElem_zip]

theorem length_of_mapLeavesItems {items out : List Value} (h : mapLeavesItems f items = .ok out) :
    out.length = items.length := by
  induction items generalizing out with
  | nil =>
      cases h
      rfl
  | cons item items ih =>
      obtain ⟨u, _, h⟩ := bind_eq_ok.mp h
      obtain ⟨rest, hrest, h⟩ := bind_eq_ok.mp h
      cases h
      simp [ih hrest]

theorem length_of_broadcastItems {lefts rights out : List Value}
    (hlength : lefts.length = rights.length) (h : broadcastItems g lefts rights = .ok out) :
    out.length = lefts.length := by
  induction lefts generalizing rights out with
  | nil =>
      cases rights with
      | nil =>
          cases h
          rfl
      | cons right rights => simp at hlength
  | cons left lefts ih =>
      cases rights with
      | nil => simp at hlength
      | cons right rights =>
          obtain ⟨u, _, h⟩ := bind_eq_ok.mp h
          obtain ⟨rest, hrest, h⟩ := bind_eq_ok.mp h
          cases h
          simp [ih (Nat.succ.inj hlength) hrest]

theorem length?_of_mapLeaves {v result : Value} (hf : ∀ u w, f u = .ok w → w.isScalar = true)
    (h : mapLeaves f v = .ok result) : result.length? = v.length? := by
  cases v with
  | array items =>
      obtain ⟨out, hout, h⟩ := bind_eq_ok.mp h
      cases h
      simp [length?, length_of_mapLeavesItems hout]
  | _ => exact (length?_eq_none_iff result).mpr (hf _ _ h)

/-- A broadcast result has the length of the array operands, which agree. -/
theorem length?_of_broadcast {u w result : Value}
    (hg : ∀ a b v, g a b = .ok v → v.isScalar = true) (h : broadcast g u w = .ok result) :
    result.length? = u.length?.or w.length? ∧
      ∀ n m, u.length? = some n → w.length? = some m → n = m := by
  cases hu : u.length? with
  | none =>
      rw [broadcast_of_isScalar_left ((length?_eq_none_iff u).mp hu)] at h
      exact ⟨length?_of_mapLeaves (hg u) h, by simp⟩
  | some n =>
      obtain ⟨lefts, rfl, rfl⟩ := (length?_eq_some_iff u n).mp hu
      cases hw : w.length? with
      | none =>
          rw [broadcast_of_isScalar_right ((length?_eq_none_iff w).mp hw)] at h
          exact ⟨length?_of_mapLeaves (fun a => hg a w) h, by simp⟩
      | some m =>
          obtain ⟨rights, rfl, rfl⟩ := (length?_eq_some_iff w m).mp hw
          rw [broadcast] at h
          split at h
          · rename_i hlength
            obtain ⟨out, hout, h⟩ := bind_eq_ok.mp h
            cases h
            refine ⟨by simp [length?, length_of_broadcastItems hlength hout], ?_⟩
            intro n m hn hm
            cases hn
            cases hm
            exact hlength
          · cases h

end Value

/-! ## Operations -/

namespace Operation

theorem unary_eq_mapLeaves {op : UnaryOp} (hop : op ≠ .not) (v : Value) :
    unary op v = mapLeaves (unaryScalar op) v := by
  cases op
  case not => exact absurd rfl hop
  all_goals rfl

theorem binary_eq_broadcast {division : Division} {op : BinaryOp} (hop : op ≠ .and ∧ op ≠ .or)
    (u w : Value) : binary division op u w = broadcast (binaryScalar division op) u w := by
  cases op
  case and => exact absurd rfl hop.1
  case or => exact absurd rfl hop.2
  all_goals rfl

theorem binary_of_isScalar {division : Division} {op : BinaryOp} {u w : Value}
    (hop : op ≠ .and ∧ op ≠ .or) (hu : u.isScalar = true) (hw : w.isScalar = true) :
    binary division op u w = binaryScalar division op u w := by
  rw [binary_eq_broadcast hop, broadcast_of_isScalar hu hw]

theorem unary_rowwise {n : Nat} {op : UnaryOp} {v : Value} (hn : 0 < n) (hv : Columnar n v)
    (hop : op ≠ .not) : Rowwise n (fun r => unary op (v.row r)) (unary op v) := by
  rw [unary_eq_mapLeaves hop]
  apply (mapLeaves_rowwise hn hv fun _ _ => isScalar_of_unaryScalar).congr
  intro r hr
  rw [unary_eq_mapLeaves hop, mapLeaves_of_isScalar (hv.isScalar_row hr)]

theorem binary_rowwise {n : Nat} {division : Division} {op : BinaryOp} {u w : Value}
    (hn : 0 < n) (hu : Columnar n u) (hw : Columnar n w) (hop : op ≠ .and ∧ op ≠ .or) :
    Rowwise n (fun r => binary division op (u.row r) (w.row r)) (binary division op u w) := by
  rw [binary_eq_broadcast hop]
  apply (broadcast_rowwise hn hu hw fun _ _ _ => isScalar_of_binaryScalar hop).congr
  intro r hr
  rw [binary_of_isScalar hop (hu.isScalar_row hr) (hw.isScalar_row hr)]

/-! ## Lengths of results -/

/-- The operations keep the length of an array operand. -/
theorem length?_of_unary {op : UnaryOp} {v result : Value} (hop : op ≠ .not)
    (h : unary op v = .ok result) : result.length? = v.length? := by
  rw [unary_eq_mapLeaves hop] at h
  exact length?_of_mapLeaves (fun _ _ => isScalar_of_unaryScalar) h

theorem length?_of_binary {division : Division} {op : BinaryOp} {u w result : Value}
    (hop : op ≠ .and ∧ op ≠ .or) (h : binary division op u w = .ok result) :
    result.length? = u.length?.or w.length? ∧
      ∀ n m, u.length? = some n → w.length? = some m → n = m := by
  rw [binary_eq_broadcast hop] at h
  exact length?_of_broadcast (fun _ _ _ => isScalar_of_binaryScalar hop) h

end Operation

end Formula
