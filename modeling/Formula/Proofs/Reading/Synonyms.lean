import Formula.Proofs.Lexing.Tiling
import Formula.Proofs.Reading.Correspondence

/-! # Keywords for elementwise operators

Under the extended grammar the keywords `and` and `or` are other spellings of `&` and `|`: replacing
any of them changes neither what is read nor what is wrong and where. -/

namespace Formula

/-- The mark that a keyword is another spelling of. -/
def Symbol.elementwise : Symbol → Symbol
  | and => ampersand
  | or => bar
  | s => s

def Token.elementwise : Token → Token
  | symbol s => symbol s.elementwise
  | t => t

/-- The lexemes with marks in the place of the keywords at the chosen places. -/
def Lexeme.respell (chosen : Nat → Bool) (ls : List Lexeme) : List Lexeme :=
  ls.mapIdx fun i l => if chosen i then { l with token := l.token.elementwise } else l

/-- The token is the same or a mark in the place of a keyword. -/
def Token.Respelled (t t' : Token) : Prop := t' = t ∨ t' = t.elementwise

theorem Grammar.samePart_elementwise (s : Symbol) :
    extended.SamePart extended s s.elementwise := by
  cases s with
  | and | or =>
      refine ⟨fun level => ?_, fun _ => rfl, .inl rfl, fun mark hmark => ?_⟩
      · cases level <;> rfl
      · cases mark <;> first | decide | exact absurd hmark (by decide)
  | _ => exact .refl _ _

theorem Token.Respelled.like {t t' : Token} (h : t.Respelled t') :
    t.Like .extended .extended t' := by
  rcases h with rfl | rfl
  · exact .refl _ _
  · cases t with
    | symbol s => exact .symbol (Grammar.samePart_elementwise s)
    | _ => exact .refl _ _

theorem correspondence_respelled (stop : Nat) :
    Correspondence .extended .extended Token.Respelled id stop where
  like _ _ h := h.like
  below _ _ _ _ := rfl

theorem Lexeme.forall₂_respell (chosen : Nat → Bool) (ls : List Lexeme) :
    ls.Forall₂ (Corresponds Token.Respelled id) (respell chosen ls) := by
  induction ls generalizing chosen with
  | nil => exact .nil
  | cons l ls ih =>
      rw [respell, List.mapIdx_cons]
      refine .cons ?_ (ih fun i => chosen (i + 1))
      split
      · exact ⟨.inr rfl, rfl⟩
      · exact ⟨.inl rfl, rfl⟩

/-- The outcomes are the same expression, or faults of one kind at one place, which show the same
token or one that is spelled in the other way. -/
inductive SameReading : Except SyntaxError Expr → Except SyntaxError Expr → Prop where
  | ok (e : Expr) : SameReading (.ok e) (.ok e)
  | error {fault fault' : SyntaxFault} (pos : Nat) (h : fault.Like Token.Respelled fault') :
      SameReading (.error (.located fault pos)) (.error (.located fault' pos))
  | blank : SameReading (.error .blank) (.error .blank)

theorem SameReading.of_alikeAll {x x' : Except SyntaxError Expr}
    (h : AlikeAll Token.Respelled id x x') : SameReading x x' := by
  cases h with
  | ok e =>
      rw [Expr.relocate_id]
      exact .ok e
  | error h =>
      cases h with
      | located pos h => exact .error pos h

namespace Expr

theorem sameReading_readAll (chosen : Nat → Bool) (stop : Nat) (ls : List Lexeme) :
    SameReading (readAll .extended stop ls)
      (readAll .extended stop (Lexeme.respell chosen ls)) := by
  have hcorrespondence := correspondence_respelled stop
  exact .of_alikeAll (readAll_alike hcorrespondence (Lexeme.forall₂_respell chosen ls))

theorem sameReading_ofText {chosen : Nat → Bool} {source source' : String} {ls : List Lexeme}
    (h : Lexeme.ofText source = .ok ls)
    (h' : Lexeme.ofText source' = .ok (Lexeme.respell chosen ls))
    (hsize : source'.utf8ByteSize = source.utf8ByteSize) :
    SameReading (ofText .extended source) (ofText .extended source') := by
  have hblank : source'.toList.all Text.isBlank = true ↔ source.toList.all Text.isBlank = true := by
    rw [Lexeme.all_isBlank_iff h, Lexeme.all_isBlank_iff h', Lexeme.respell, List.mapIdx_eq_nil_iff]
  by_cases hsource : source.toList.all Text.isBlank = true
  · rw [ofText, ofText, if_pos hsource, if_pos (hblank.mpr hsource)]
    exact .blank
  · rw [ofText_eq_readAll _ hsource, ofText_eq_readAll _ (mt hblank.mp hsource), h, h', ok_bind,
      ok_bind, hsize]
    exact sameReading_readAll chosen _ ls

/-- Marks in the place of any of the keywords change neither the expression that lexemes are nor
what is wrong with them and where; and so it is with texts that differ in nothing else. -/
theorem readAll_respell (chosen : Nat → Bool) (stop : Nat) (ls : List Lexeme) :
    SameReading (readAll .extended stop ls)
        (readAll .extended stop (Lexeme.respell chosen ls)) ∧
      ∀ source source', Lexeme.ofText source = .ok ls →
        Lexeme.ofText source' = .ok (Lexeme.respell chosen ls) →
        source'.utf8ByteSize = source.utf8ByteSize →
        SameReading (ofText .extended source) (ofText .extended source') :=
  ⟨sameReading_readAll chosen stop ls, fun _ _ => sameReading_ofText⟩

/-- A mark in the place of a keyword that is also out of place. -/
theorem readAll_respell_misplaced :
    SameReading (ofText .extended "[a and b or]") (ofText .extended "[a &   b | ]") := by
  have hls : Lexeme.ofText "[a and b or]" = .ok [⟨.symbol .openBracket, 0⟩, ⟨.name "a", 1⟩,
      ⟨.symbol .and, 3⟩, ⟨.name "b", 7⟩, ⟨.symbol .or, 9⟩, ⟨.symbol .closeBracket, 11⟩] := by
    rw [Lexeme.ofText_eq_readWithin]
    rfl
  have hls' : Lexeme.ofText "[a &   b | ]" = .ok [⟨.symbol .openBracket, 0⟩, ⟨.name "a", 1⟩,
      ⟨.symbol .ampersand, 3⟩, ⟨.name "b", 7⟩, ⟨.symbol .bar, 9⟩,
      ⟨.symbol .closeBracket, 11⟩] := by
    rw [Lexeme.ofText_eq_readWithin]
    rfl
  exact (readAll_respell (fun _ => true) 12 _).2 _ _ hls hls' rfl

end Expr

end Formula
