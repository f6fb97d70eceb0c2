import Formula.CommandLine.Binding
import Formula.Proofs.Rendering.Values

/-! # Values that are given back

What a value of integers, booleans and arrays is shown as can be given for a name on the command
line, unless one of the integers is the smallest one. -/

namespace Formula

theorem Text.trim_eq_self {cs : List Char} (h : ∀ c ∈ cs, isBlank c = false) : trim cs = cs := by
  have hkept {ds : List Char} (hds : ∀ c ∈ ds, isBlank c = false) :
      ds.dropWhile isBlank = ds := by
    cases ds with
    | nil => rfl
    | cons d ds =>
        have hd := hds d List.mem_cons_self
        exact List.dropWhile_cons_of_neg (Bool.eq_false_iff.mp hd)
  rw [trim, hkept h, hkept (fun c hc => h c (List.mem_reverse.mp hc)), List.reverse_reverse]

namespace Token

theorem toNat_of_isWordPart {c : Char} (h : isWordPart c = true) :
    48 ≤ c.toNat ∧ c.toNat ≤ 122 ∧ c.toNat ≠ 61 := by
  rcases Bool.or_eq_true_iff.mp h with hstart | hdigit
  · have hrange := toNat_of_isWordStart hstart
    omega
  · have hrange := toNat_of_isDigit hdigit
    omega

/-- A name has neither blank characters nor an equals sign. -/
theorem IsName.forall_mem {name : String} (h : IsName name) :
    ∀ c ∈ name.toList, Text.isBlank c = false ∧ c ≠ '=' := by
  obtain ⟨c, cs, hname, hstart, hpart⟩ := h.1
  have hword {d : Char} (hd : isWordPart d = true) : Text.isBlank d = false ∧ d ≠ '=' := by
    obtain ⟨hlow, hhigh, hne⟩ := toNat_of_isWordPart hd
    refine ⟨isBlank_eq_false (by omega) (by omega), ?_⟩
    rintro rfl
    exact hne rfl
  rw [hname]
  refine List.forall_mem_cons.mpr ⟨hword (Bool.or_eq_true_iff.mpr (.inl hstart)), ?_⟩
  exact fun d hd => hword (hpart d hd)

end Token

namespace CommandLine

open Formula.Expr

/-- A literal of the text is too large, and the text is refused for it. -/
def TooLarge {α : Type} (text : String) (x : Except String α) : Prop :=
  ∃ ls pos, Lexeme.ofText text = .ok ls ∧ ⟨.integer none, pos⟩ ∈ ls ∧
    x = .error (SyntaxError.located .literalTooLarge pos).message

/-- What a value is shown as is an expression of the value, unless an integer in it is the smallest
one. -/
theorem closedValue_plain {v : Value} {P : Int64 → Prop} (h : v.BuiltFrom P) :
    (v.Negatable → closedValue v.plain = .ok v) ∧
      (¬ v.Negatable → TooLarge v.plain (closedValue v.plain)) := by
  obtain ⟨hblank, ls, hls, htokens⟩ := (Value.spells_plain h).ofText
  have hsettles := Value.isRead h .extended v.plain.utf8ByteSize ls [] htokens
    (Grammar.stops_nil _)
  rw [List.append_nil] at hsettles
  rw [closedValue, ofText_eq_readAll .extended hblank, hls, ok_bind, readAll]
  generalize read .extended v.plain.utf8ByteSize .disjunction ls = outcome at hsettles
  cases hsettles with
  | @done e hfits he =>
      refine ⟨fun _ => ?_, absurd hfits⟩
      simp only [ok_bind, pure_eq_ok, he .empty .exact]
  | @tooLarge pos hfits hmem =>
      exact ⟨fun h => absurd h hfits, fun _ => ⟨ls, pos, hls, hmem, rfl⟩⟩

theorem binding_append {name : String} (text : String) (hname : Token.IsName name) :
    binding (name ++ "=" ++ text) = (do
      let value ← closedValue text
      return (name, value)) := by
  have hcs : (name ++ "=" ++ text).toList = name.toList ++ '=' :: text.toList := by
    rw [String.toList_append, String.toList_append, List.append_assoc]
    rfl
  have hbefore : (name.toList ++ '=' :: text.toList).takeWhile (· ≠ '=') = name.toList := by
    apply Token.takeWhile_eq_self
    · intro c hc
      exact decide_eq_true (hname.forall_mem c hc).2
    · rintro c ⟨⟩
      rfl
  have htrim : Text.trim name.toList = name.toList :=
    Text.trim_eq_self fun c hc => (hname.forall_mem c hc).1
  have hafter :
      (name.toList ++ '=' :: text.toList).drop (name.toList.length + 1) = text.toList := by
    rw [← List.drop_drop, List.drop_left]
    rfl
  unfold binding
  simp only [hcs, hbefore, hafter, htrim, List.drop_left, reduceCtorEq, if_false,
    String.ofList_toList]

/-- A name that is bound to what a value of integers, booleans and arrays is shown as gets the
value. It is refused when an integer in the value is the smallest one, whose literal is too
large. -/
theorem binding_plain {name : String} {v : Value}
    (hname : Lexeme.ofText name = .ok [⟨.name name, 0⟩]) (hv : v.BuiltFrom fun _ => True) :
    (v.BuiltFrom (· ≠ Int64.minValue) → binding (name ++ "=" ++ v.plain) = .ok (name, v)) ∧
      (¬ v.BuiltFrom (· ≠ Int64.minValue) →
        TooLarge v.plain (binding (name ++ "=" ++ v.plain))) := by
  obtain ⟨c, rest, tail, hscan⟩ := Lexeme.scan?_of_mem hname List.mem_cons_self
  rw [binding_append v.plain (Token.isName_of_scan? hscan)]
  obtain ⟨hvalue, htooLarge⟩ := closedValue_plain hv
  refine ⟨fun hfits => ?_, fun hfits => ?_⟩
  · rw [hvalue hfits]
    rfl
  · obtain ⟨ls, pos, hls, hmem, hpos⟩ := htooLarge hfits
    rw [hpos]
    exact ⟨ls, pos, hls, hmem, rfl⟩

/-- An array with a negative integer, a boolean and an empty array. -/
def nested : Value := .array [.array [.integer (-3), .bool true], .array []]

theorem binding_plain_nested :
    Lexeme.ofText "x" = .ok [⟨.name "x", 0⟩] ∧ (nested.BuiltFrom fun _ => True) ∧
      nested.BuiltFrom (· ≠ Int64.minValue) ∧
      "x" ++ "=" ++ nested.plain = "x=[[-3, True], []]" ∧
      binding ("x" ++ "=" ++ nested.plain) = .ok ("x", nested) := by
  have hname : Lexeme.ofText "x" = .ok [⟨.name "x", 0⟩] := by
    rw [Lexeme.ofText_eq_readWithin]
    rfl
  have hbuilt {P : Int64 → Prop} (h : P (-3)) : nested.BuiltFrom P := by
    simp [nested, Value.builtFrom_array, Value.builtFrom_integer, h, Value.BuiltFrom.bool]
  have hfits : nested.BuiltFrom (· ≠ Int64.minValue) := hbuilt (by decide)
  exact ⟨hname, hbuilt trivial, hfits, by decide, (binding_plain hname (hbuilt trivial)).1 hfits⟩

/-- The smallest integer is not read back. -/
theorem binding_minValue :
    "x" ++ "=" ++ (Value.integer Int64.minValue).plain = "x=-9223372036854775808" ∧
      binding ("x" ++ "=" ++ (Value.integer Int64.minValue).plain) =
        .error "Error at position 1: Literal is too large." := by
  have hname : Token.IsName "x" := ⟨⟨'x', [], rfl, rfl, fun d hd => nomatch hd⟩, rfl⟩
  have hbuilt : (Value.integer Int64.minValue).BuiltFrom fun _ => True := .integer trivial
  have hfits : ¬ (Value.integer Int64.minValue).Negatable :=
    fun h => Value.builtFrom_integer.mp h rfl
  obtain ⟨ls, pos, hls, hmem, hrefused⟩ := (closedValue_plain hbuilt).2 hfits
  have hlexemes : Lexeme.ofText (Value.integer Int64.minValue).plain =
      .ok [⟨.symbol .minus, 0⟩, ⟨.integer none, 1⟩] := by
    rw [Lexeme.ofText_eq_readWithin]
    rfl
  rw [hlexemes] at hls
  cases hls
  refine ⟨by decide, ?_⟩
  have hpos : pos = 1 := by simpa using hmem
  rw [binding_append _ hname, hrefused, hpos]
  rfl

end CommandLine

end Formula
