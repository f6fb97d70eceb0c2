import Formula.Proofs.Documents.Keys
import Formula.Proofs.Documents.Values

/-! # Namespaces of documents

An object gives the names of its members, and any other document a plain value. The failure names
the smallest key among the members without a value. -/

namespace Formula.Json

/-! ## What a document gives -/

/-- A document that is no object. -/
def IsPlain (document : Json) : Prop := ∀ members, document ≠ object members

/-- A resolver answers the keys of members with what they stand for, and answers nothing else. -/
structure Answers (members : List (String × Json)) (r : Resolver) : Prop where
  member : ∀ key document, (key, document) ∈ members →
    ∃ v, r.resolve key = some v ∧ document.StandsFor v
  other : ∀ name, name ∉ members.map Prod.fst → r.resolve name = none

/-- The smallest key, by its bytes, of a member without a value, and why that member has none. -/
structure FirstOffends (members : List (String × Json)) (key : String) (reason : NoValue) :
    Prop where
  offends : ∃ document, (key, document) ∈ members ∧ document.FirstLacks reason
  least : ∀ other document, (other, document) ∈ members → ¬ document.HasValue →
    Text.bytes key ≤ Text.bytes other

/-- The outcome says all that the document says, or why it cannot. -/
structure Faithful (document : Json) (outcome : Except Failure Namespace) : Prop where
  succeeds : (∃ n, outcome = .ok n) ↔ ∀ m ∈ document.named, m.2.HasValue
  keyed : ∀ members n, document = object members → outcome = .ok n →
    ∃ r, n = .keyed r ∧ Answers members r
  plain : ∀ n, document.IsPlain → outcome = .ok n →
    ∃ v, n = .plain v ∧ document.StandsFor v
  fails : ∀ e, outcome = .error e → ∃ key reason,
    e = .invalidBinding key reason.message ∧ FirstOffends document.named key reason

/-! ## Conversion -/

variable {members : List (String × Json)} {m : String × Json} {document : Json} {e : Failure}

/-- The entry of a member in the bindings. -/
def namedMember (m : String × Json) : Except Failure (String × Value) :=
  (namedValue m.1 m.2).map (m.1, ·)

theorem namedMember_eq_ok_iff {entry : String × Value} :
    namedMember m = .ok entry ↔ entry.1 = m.1 ∧ m.2.StandsFor entry.2 := by
  rw [← toValue_eq_ok_iff, namedMember, namedValue]
  cases m.2.toValue with
  | ok v =>
      simp only [Except.map, Except.ok.injEq, Prod.ext_iff, eq_comm]
  | error reason => simp [Except.map]

theorem namedMember_eq_error_iff :
    namedMember m = .error e ↔
      ∃ reason, e = .invalidBinding m.1 reason.message ∧ m.2.FirstLacks reason := by
  simp only [← toValue_eq_error_iff, namedMember, namedValue]
  cases m.2.toValue with
  | ok v => simp [Except.map]
  | error reason => simp [Except.map, eq_comm]

theorem exists_namedMember_iff : (∃ entry, namedMember m = .ok entry) ↔ m.2.HasValue := by
  simp only [namedMember_eq_ok_iff, ← exists_toValue_iff, toValue_eq_ok_iff, Prod.exists]
  simp

/-- Members are converted one by one, and then bound. -/
theorem toBindings_eq (members : List (String × Json)) :
    toBindings members = (members.mapM namedMember).map Bindings.ofList := by
  suffices h : ∀ b : Bindings, members.foldlM (fun (b : Bindings) (member : String × Json) => do
      return b.insert member.1 (← namedValue member.1 member.2)) b = (members.mapM namedMember).map
        fun entries => entries.foldl (fun b entry => b.insert entry.1 entry.2) b from
    h Bindings.empty
  induction members with
  | nil => exact fun b => rfl
  | cons m members ih =>
      intro b
      rw [List.foldlM_cons, List.mapM_cons, namedMember]
      cases namedValue m.1 m.2 with
      | error e => rfl
      | ok v =>
          refine (ih _).trans ?_
          cases members.mapM namedMember <;> rfl

theorem IsPlain.named_eq (h : IsPlain document) :
    document.named = [("<document>", document)] := by
  cases document with
  | object members => exact absurd rfl (h members)
  | _ => rfl

theorem IsPlain.toNamespace_eq (h : IsPlain document) :
    document.toNamespace = (namedValue "<document>" document).map .plain := by
  cases document with
  | object members => exact absurd rfl (h members)
  | _ => rfl

theorem toNamespace_object (members : List (String × Json)) :
    (object members).toNamespace =
      (members.mapM namedMember).map fun entries => .keyed (.ofBindings (.ofList entries)) := by
  rw [toNamespace, toBindings_eq]
  cases members.mapM namedMember <;> rfl

/-- Conversion fails where that of a member does. -/
theorem toNamespace_eq_error_iff :
    document.toNamespace = .error e ↔ document.named.mapM namedMember = .error e := by
  by_cases h : IsPlain document
  · rw [h.toNamespace_eq, h.named_eq, List.mapM_cons, List.mapM_nil, namedMember]
    cases namedValue "<document>" document <;> simp [Except.map]
  · obtain ⟨members, rfl⟩ := not_forall_not.mp h
    rw [toNamespace_object, named]
    cases members.mapM namedMember <;> simp [Except.map]

theorem exists_toNamespace_iff :
    (∃ n, document.toNamespace = .ok n) ↔ ∀ m ∈ document.named, m.2.HasValue := by
  simp only [← exists_namedMember_iff, ← exists_mapM_eq_ok]
  rw [exists_eq_ok_iff, exists_eq_ok_iff]
  simp only [ne_eq, toNamespace_eq_error_iff]

/-- The entries of members bind the keys of the members alone. -/
theorem answers_ofList {entries : List (String × Value)} (hkeys : ByKey members)
    (h : members.mapM namedMember = .ok entries) :
    Answers members (.ofBindings (.ofList entries)) := by
  have hnames : entries.map Prod.fst = members.map Prod.fst := by
    obtain ⟨hlength, hsteps⟩ := mapM_eq_ok.mp h
    refine List.ext_getElem (by simp [hlength]) fun i hi hm => ?_
    rw [List.length_map] at hi hm
    rw [List.getElem_map, List.getElem_map]
    exact (namedMember_eq_ok_iff.mp (hsteps i hm hi)).1
  have hdistinct : (entries.map Prod.fst).Nodup := hnames ▸ hkeys.nodup
  constructor
  · intro key document hmember
    obtain ⟨entry, hentry⟩ := exists_mapM_eq_ok.mp ⟨entries, h⟩ _ hmember
    obtain ⟨hkey, hvalue⟩ : entry.1 = key ∧ document.StandsFor entry.2 :=
      namedMember_eq_ok_iff.mp hentry
    refine ⟨entry.2, (Bindings.get?_ofList_eq_some_iff hdistinct).mpr ?_, hvalue⟩
    rw [← hkey]
    exact (mem_of_mapM_eq_ok h).mpr ⟨_, hmember, hentry⟩
  · intro name hname
    refine Option.eq_none_iff_forall_ne_some.mpr fun value hvalue => hname ?_
    rw [← hnames]
    exact List.mem_map_of_mem ((Bindings.get?_ofList_eq_some_iff hdistinct).mp hvalue)

/-- The first member in the order of the keys that has no value has the smallest such key. -/
theorem firstOffends_of_mapM_eq_error (hkeys : ByKey members)
    (h : members.mapM namedMember = .error e) :
    ∃ key reason, e = .invalidBinding key reason.message ∧ FirstOffends members key reason := by
  obtain ⟨i, hi, hfails, hbefore⟩ := mapM_eq_error.mp h
  obtain ⟨reason, rfl, hreason⟩ := namedMember_eq_error_iff.mp hfails
  refine ⟨_, reason, rfl, ⟨_, List.getElem_mem hi, hreason⟩, ?_⟩
  intro other document hother hoffends
  obtain ⟨j, hj, heq⟩ := List.mem_iff_getElem.mp hother
  rcases lt_trichotomy i j with hlater | rfl | hearlier
  · have hlt := List.pairwise_iff_getElem.mp hkeys i j hi hj hlater
    rw [heq] at hlt
    exact List.le_of_lt hlt
  · rw [heq]
    exact List.le_refl _
  · refine absurd (exists_namedMember_iff.mp (hbefore j hearlier)) ?_
    rw [heq]
    exact hoffends

/-- A document whose members are in the byte order of their keys becomes a namespace that answers
each key with the value of its member, and any other document becomes its value. There is a failure
if a part of the document has no value, and it names the smallest key of such a member. -/
theorem toNamespace_faithful (document : Json) (h : ByKey document.named) :
    document.Faithful document.toNamespace where
  succeeds := exists_toNamespace_iff
  keyed := by
    rintro members n rfl hn
    rw [toNamespace_object] at hn
    cases hentries : members.mapM namedMember with
    | error e => simp [hentries, Except.map] at hn
    | ok entries =>
        rw [hentries] at hn
        cases hn
        exact ⟨_, rfl, answers_ofList h hentries⟩
  plain := by
    intro n hplain hn
    rw [hplain.toNamespace_eq, namedValue] at hn
    cases hv : document.toValue with
    | error reason => simp [hv, Except.map] at hn
    | ok v =>
        rw [hv] at hn
        cases hn
        exact ⟨v, rfl, toValue_eq_ok_iff.mp hv⟩
  fails := fun e he => firstOffends_of_mapM_eq_error h (toNamespace_eq_error_iff.mp he)

/-- Members that are not given in order, two of them without a value. -/
def unsorted : Json := ofMembers [("é", null), ("z", .bool true), ("b", .array [.string "x",
  .array [.number (.natural 1), .object []], null]), ("a", .number (.natural 2))]

/-- The failure is that of the smaller key, at its first part without a value. -/
theorem toNamespace_faithful_unsorted :
    unsorted.toNamespace = .error (.invalidBinding "b" "objects are namespaces, not values") ∧
      ByKey unsorted.named ∧
      unsorted.Faithful (.error (.invalidBinding "b" "objects are namespaces, not values")) := by
  have houtcome : unsorted.toNamespace =
      .error (.invalidBinding "b" "objects are namespaces, not values") := by
    rfl
  have hkeys : ByKey unsorted.named := byKey_named_ofMembers _
  exact ⟨houtcome, hkeys, houtcome ▸ toNamespace_faithful unsorted hkeys⟩

end Formula.Json
