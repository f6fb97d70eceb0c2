import Formula.Fault

/-! # Results of steps that may fail

Every reader, kernel and engine is a sequence of steps in `Except`. These equations take such a
sequence apart. -/

namespace Formula

variable {ε α β : Type}

@[simp] theorem ok_bind (a : α) (f : α → Except ε β) : (Except.ok a >>= f) = f a := rfl

@[simp] theorem error_bind (e : ε) (f : α → Except ε β) :
    (Except.error e >>= f) = .error e := rfl

@[simp] theorem bind_ok (x : Except ε α) : (x >>= .ok) = x := by
  cases x <;> rfl

@[simp] theorem pure_eq_ok (a : α) : (pure a : Except ε α) = .ok a := rfl

theorem bind_eq_ok {x : Except ε α} {f : α → Except ε β} {b : β} :
    (x >>= f) = .ok b ↔ ∃ a, x = .ok a ∧ f a = .ok b := by
  cases x <;> simp

theorem bind_eq_error {x : Except ε α} {f : α → Except ε β} {e : ε} :
    (x >>= f) = .error e ↔ x = .error e ∨ ∃ a, x = .ok a ∧ f a = .error e := by
  cases x <;> simp

theorem exists_eq_error_iff {x : Except ε α} : (∃ e, x = .error e) ↔ ∀ a, x ≠ .ok a := by
  cases x <;> simp

theorem exists_eq_ok_iff {x : Except ε α} : (∃ a, x = .ok a) ↔ ∀ e, x ≠ .error e := by
  cases x <;> simp

theorem Fault.locate_eq_ok {pos : Nat} {x : Except Fault α} {a : α} :
    Fault.locate pos x = .ok a ↔ x = .ok a := by
  cases x <;> simp [Fault.locate]

theorem Fault.locate_eq_error {pos : Nat} {x : Except Fault α} {e : RuntimeError} :
    Fault.locate pos x = .error e ↔ ∃ fault, x = .error fault ∧ e = ⟨fault, pos⟩ := by
  cases x <;> simp [Fault.locate, eq_comm]

/-! ## Traversals -/

theorem mapM_congr {f g : α → Except ε β} {xs : List α} (h : ∀ x ∈ xs, f x = g x) :
    xs.mapM f = xs.mapM g := by
  induction xs with
  | nil => rfl
  | cons x xs ih =>
      rw [List.mapM_cons, List.mapM_cons, h x (by simp), ih fun y hy => h y (by simp [hy])]

/-- A traversal succeeds with the results of its steps. -/
theorem mapM_eq_ok {f : α → Except ε β} {xs : List α} {ys : List β} :
    xs.mapM f = .ok ys ↔ ys.length = xs.length ∧
      ∀ (i : Nat) (hx : i < xs.length) (hy : i < ys.length), f xs[i] = .ok ys[i] := by
  induction xs generalizing ys with
  | nil => cases ys <;> simp
  | cons x xs ih =>
      rw [List.mapM_cons, bind_eq_ok]
      constructor
      · rintro ⟨y, hy, h⟩
        obtain ⟨rest, hrest, h⟩ := bind_eq_ok.mp h
        cases h
        obtain ⟨hlength, hsteps⟩ := ih.mp hrest
        refine ⟨by simp [hlength], ?_⟩
        intro i hx hi
        cases i with
        | zero => exact hy
        | succ i => exact hsteps i (Nat.lt_of_succ_lt_succ hx) (Nat.lt_of_succ_lt_succ hi)
      · rintro ⟨hlength, hsteps⟩
        cases ys with
        | nil => simp at hlength
        | cons y ys =>
            refine ⟨y, hsteps 0 (by simp) (by simp), bind_eq_ok.mpr ⟨ys, ih.mpr ⟨?_, ?_⟩, rfl⟩⟩
            · simpa using hlength
            · intro i hx hy
              exact hsteps (i + 1) (Nat.succ_lt_succ hx) (Nat.succ_lt_succ hy)

/-- A traversal fails with the error of the first step that fails. -/
theorem mapM_eq_error {f : α → Except ε β} {xs : List α} {e : ε} :
    xs.mapM f = .error e ↔ ∃ (i : Nat) (hx : i < xs.length), f xs[i] = .error e ∧
      ∀ (j : Nat) (hj : j < i), ∃ y, f xs[j] = .ok y := by
  induction xs with
  | nil => simp
  | cons x xs ih =>
      rw [List.mapM_cons, bind_eq_error]
      constructor
      · rintro (h | ⟨y, hy, h⟩)
        · exact ⟨0, by simp, h, by simp⟩
        · rcases bind_eq_error.mp h with h | ⟨rest, _, h⟩
          · obtain ⟨i, hx, hi, hbefore⟩ := ih.mp h
            refine ⟨i + 1, Nat.succ_lt_succ hx, hi, ?_⟩
            intro j hj
            cases j with
            | zero => exact ⟨y, hy⟩
            | succ j => exact hbefore j (Nat.lt_of_succ_lt_succ hj)
          · cases h
      · rintro ⟨i, hx, hi, hbefore⟩
        cases i with
        | zero => exact .inl hi
        | succ i =>
            obtain ⟨y, hy⟩ := hbefore 0 (Nat.succ_pos i)
            refine .inr ⟨y, hy, bind_eq_error.mpr (.inl (ih.mpr ?_))⟩
            exact ⟨i, Nat.lt_of_succ_lt_succ hx, hi,
              fun j hj => hbefore (j + 1) (Nat.succ_lt_succ hj)⟩

/-- A traversal fails as a search for errors succeeds. -/
theorem mapM_eq_error_iff_findSome? {f : α → Except ε β} {g : α → Option ε} {xs : List α} {e : ε}
    (h : ∀ x ∈ xs, ∀ e, f x = .error e ↔ g x = some e) :
    xs.mapM f = .error e ↔ xs.findSome? g = some e := by
  induction xs with
  | nil => simp
  | cons x xs ih =>
      have hx := h x (by simp)
      have ih := ih fun y hy => h y (by simp [hy])
      rw [List.mapM_cons, List.findSome?_cons]
      cases hfx : f x with
      | error e' =>
          rw [(hx e').mp hfx, error_bind, Except.error.injEq, Option.some_inj]
      | ok y =>
          have hnone : g x = none := by
            refine Option.eq_none_iff_forall_ne_some.mpr fun e' he' => ?_
            rw [(hx e').mpr he'] at hfx
            cases hfx
          rw [hnone, ok_bind, bind_eq_error, ← ih]
          simp

theorem exists_mapM_eq_ok {f : α → Except ε β} {xs : List α} :
    (∃ ys, xs.mapM f = .ok ys) ↔ ∀ x ∈ xs, ∃ y, f x = .ok y := by
  induction xs with
  | nil => simp
  | cons x xs ih =>
      rw [List.forall_mem_cons, ← ih, List.mapM_cons]
      cases f x with
      | error e => simp
      | ok y => cases xs.mapM f <;> simp

/-- The results of a traversal are those of its steps. -/
theorem mem_of_mapM_eq_ok {f : α → Except ε β} {xs : List α} {ys : List β} {y : β}
    (h : xs.mapM f = .ok ys) : y ∈ ys ↔ ∃ x ∈ xs, f x = .ok y := by
  obtain ⟨hlength, hsteps⟩ := mapM_eq_ok.mp h
  constructor
  · intro hy
    obtain ⟨i, hi, rfl⟩ := List.mem_iff_getElem.mp hy
    exact ⟨_, List.getElem_mem (hlength ▸ hi), hsteps i (hlength ▸ hi) hi⟩
  · rintro ⟨x, hx, hfx⟩
    obtain ⟨i, hi, rfl⟩ := List.mem_iff_getElem.mp hx
    have hstep := hsteps i hi (hlength.symm ▸ hi)
    rw [hfx, Except.ok.injEq] at hstep
    exact hstep ▸ List.getElem_mem _

/-- A change of results may be made in every step of a traversal or after it. -/
theorem map_mapM {γ : Type} (f : α → Except ε β) (k : β → γ) (xs : List α) :
    (xs.mapM f).map (List.map k) = xs.mapM fun x => (f x).map k := by
  induction xs with
  | nil => rfl
  | cons x xs ih =>
      rw [List.mapM_cons, List.mapM_cons, ← ih]
      cases f x with
      | error e => rfl
      | ok y => cases xs.mapM f <;> rfl

/-- A fold that fails has gone well up to a step that fails. -/
theorem exists_step_of_foldlM_eq_error {f : β → α → Except ε β} {xs : List α} {b : β} {e : ε}
    (h : xs.foldlM f b = .error e) : ∃ before x after b', xs = before ++ x :: after ∧
      before.foldlM f b = .ok b' ∧ f b' x = .error e := by
  induction xs generalizing b with
  | nil => cases h
  | cons x xs ih =>
      rw [List.foldlM_cons] at h
      rcases bind_eq_error.mp h with hx | ⟨b', hb', h⟩
      · exact ⟨[], x, xs, b, rfl, rfl, hx⟩
      · obtain ⟨before, y, after, b'', rfl, hbefore, hy⟩ := ih h
        refine ⟨x :: before, y, after, b'', rfl, ?_, hy⟩
        rw [List.foldlM_cons, hb', ok_bind, hbefore]

/-! ## Computations whose errors are known -/

/-- Every error of the computation has the property. -/
def FailsWith (P : ε → Prop) (x : Except ε α) : Prop :=
  ∀ e, x = .error e → P e

namespace FailsWith

variable {P Q : ε → Prop} {x : Except ε α}

theorem ok (a : α) : FailsWith P (.ok a : Except ε α) := fun _ h => nomatch h

theorem error {e : ε} (h : P e) : FailsWith P (.error e : Except ε α) := by
  rintro _ ⟨⟩
  exact h

theorem mono (h : FailsWith P x) (hsub : ∀ e, P e → Q e) : FailsWith Q x :=
  fun e he => hsub e (h e he)

theorem bind {k : α → Except ε β} (h : FailsWith P x)
    (hnext : ∀ a, x = .ok a → FailsWith P (k a)) : FailsWith P (x >>= k) := by
  intro e he
  rcases bind_eq_error.mp he with hx | ⟨a, hx, hk⟩
  · exact h e hx
  · exact hnext a hx e hk

theorem ite {c : Prop} [Decidable c] {y : Except ε α} (hx : FailsWith P x)
    (hy : FailsWith P y) : FailsWith P (if c then x else y) := by
  split
  · exact hx
  · exact hy

theorem mapM {f : α → Except ε β} {xs : List α} (h : ∀ x ∈ xs, FailsWith P (f x)) :
    FailsWith P (xs.mapM f) := by
  intro e he
  obtain ⟨i, hi, hstep, -⟩ := mapM_eq_error.mp he
  exact h _ (List.getElem_mem hi) e hstep

theorem orElse {P : Fault → Prop} {fault : Fault} (h : P fault) (a : Option α) :
    FailsWith P (Fault.orElse fault a) := by
  cases a with
  | some a => exact .ok a
  | none => exact .error h

/-- The fault of an operation is located where the operation stands. -/
theorem locate {P : Fault → Prop} {x : Except Fault α} (h : FailsWith P x) (pos : Nat) :
    FailsWith (fun e => e.pos = pos ∧ P e.fault) (Fault.locate pos x) := by
  cases x with
  | ok a => exact .ok a
  | error fault => exact .error ⟨rfl, h fault rfl⟩

end FailsWith

end Formula
