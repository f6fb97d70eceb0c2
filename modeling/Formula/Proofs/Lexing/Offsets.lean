import Formula.Proofs.Lexing.Tiling

/-! # Offsets of lexemes

Every lexeme stands in the text at its byte offset, and so does the text that is no token where
reading ends. -/

namespace Formula

/-- The text `piece` stands in the source at the byte offset `pos`. -/
def StandsAt (source : String) (pos : Nat) (piece : String) : Prop :=
  ∃ before after : String, source = before ++ piece ++ after ∧ before.utf8ByteSize = pos

/-- What is written at the position of the lexeme is its token. -/
def Lexeme.Stands (source : String) (l : Lexeme) : Prop :=
  ∃ piece : String, StandsAt source l.pos piece ∧ Token.Matches piece.toList l.token

theorem Text.byteLength_eq_utf8ByteSize (cs : List Char) :
    byteLength cs = (String.ofList cs).utf8ByteSize := by
  induction cs with
  | nil => rfl
  | cons c cs ih =>
      have hsplit : String.ofList (c :: cs) = String.singleton c ++ String.ofList cs := by
        rw [String.singleton_eq_ofList, ← String.ofList_append]
        rfl
      rw [hsplit, String.utf8ByteSize_append, String.utf8ByteSize_singleton, ← ih, byteLength]

theorem standsAt_of_toList {source : String} {before piece after : List Char}
    (h : source.toList = before ++ (piece ++ after)) :
    StandsAt source (Text.byteLength before) (String.ofList piece) := by
  refine ⟨String.ofList before, String.ofList after, ?_, ?_⟩
  · rw [← String.ofList_append, ← String.ofList_append, List.append_assoc, ← h,
      String.ofList_toList]
  · rw [Text.byteLength_eq_utf8ByteSize]

theorem Token.Matches.eq_name {lexeme : List Char} {id : String}
    (h : Matches lexeme (.name id)) : id = String.ofList lexeme := by
  generalize htoken : Token.name id = token at h
  cases h with
  | name _ _ =>
      cases htoken
      rfl
  | _ => cases htoken

/-- A name stands where its lexeme does. -/
theorem Lexeme.Stands.name {source id : String} {pos : Nat}
    (h : (⟨.name id, pos⟩ : Lexeme).Stands source) : StandsAt source pos id := by
  obtain ⟨piece, hstands, hmatches⟩ := h
  rw [hmatches.eq_name, String.ofList_toList]
  exact hstands

theorem Tiled.stands {source : String} {read : List Char} {ls : List Lexeme}
    (h : Tiled source.toList read ls) : ∀ l ∈ ls, l.Stands source := by
  induction h with
  | nil => exact fun _ hl => nomatch hl
  | @snoc read gap lexeme rest ls token _ hsource _ htoken ih =>
      intro l hl
      rcases List.mem_append.mp hl with hl | hl
      · exact ih l hl
      · obtain rfl := List.mem_singleton.mp hl
        rw [← List.append_assoc] at hsource
        refine ⟨String.ofList lexeme, standsAt_of_toList hsource, ?_⟩
        rw [String.toList_ofList]
        exact htoken.spells

namespace Lexeme

theorem stands_of_ofText {source : String} {ls : List Lexeme} (h : ofText source = .ok ls) :
    ∀ l ∈ ls, l.Stands source := by
  have htiling := tiling_ofText source
  rw [h] at htiling
  cases htiling with
  | complete htiled _ _ => exact htiled.stands

theorem pos_lt_of_ofText {source : String} {ls : List Lexeme} (h : ofText source = .ok ls) :
    ∀ l ∈ ls, l.pos < source.utf8ByteSize := by
  have htiling := tiling_ofText source
  rw [h] at htiling
  cases htiling with
  | @complete read gap _ htiled hsource _ =>
      have hsize : source.utf8ByteSize = Text.byteLength read + Text.byteLength gap := by
        rw [← Text.byteLength_append, ← hsource, Text.byteLength_eq_utf8ByteSize,
          String.ofList_toList]
      intro l hl
      rw [hsize]
      exact Nat.lt_add_right _ (htiled.pairwise_pos.2 l hl)

theorem unreadable_isPrefix (c : Char) (cs : List Char) :
    Token.unreadable c cs <+: c :: cs := by
  unfold Token.unreadable
  split
  · exact List.cons_prefix_cons.mpr ⟨rfl, Token.scanQuoted_isPrefix c cs⟩
  · exact List.prefix_append [c] cs

/-- A text that has no lexemes is refused at what is no token. -/
theorem unreadable_of_ofText {source : String} {e : SyntaxError} (h : ofText source = .error e) :
    ∃ text pos, e = .located (.unreadable text) pos ∧ StandsAt source pos text := by
  have htiling := tiling_ofText source
  rw [h] at htiling
  cases htiling with
  | @stuck read gap rest c ls _ hsource _ _ _ =>
      obtain ⟨after, hafter⟩ := unreadable_isPrefix c rest
      rw [← hafter, ← List.append_assoc] at hsource
      exact ⟨_, _, rfl, standsAt_of_toList hsource⟩

end Lexeme

end Formula
