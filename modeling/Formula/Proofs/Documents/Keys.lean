import Formula.Json
import Mathlib.Data.String.Basic

/-! # Order of keys

The order of texts by their characters is the order by their UTF-8 bytes, so reading leaves the
members of an object in the byte order of their keys. -/

namespace Formula

namespace Text

/-- The bytes of a text. -/
def bytes (s : String) : List UInt8 := s.toUTF8.data.toList

theorem bytes_eq (s : String) : bytes s = s.toList.flatMap String.utf8EncodeChar := by
  rw [bytes, String.toUTF8_eq_toByteArray, ← String.utf8Encode_toList, List.utf8Encode,
    List.toList_data_toByteArray]

theorem cons_ofNat_lt_iff {a b : ℕ} {as bs : List UInt8} (ha : a < 256) (hb : b < 256) :
    UInt8.ofNat a :: as < UInt8.ofNat b :: bs ↔ a < b ∨ a = b ∧ as < bs := by
  rw [List.cons_lt_cons_iff, UInt8.lt_iff_toNat_lt, ← UInt8.toNat_inj, UInt8.toNat_ofNat',
    UInt8.toNat_ofNat', Nat.mod_eq_of_lt ha, Nat.mod_eq_of_lt hb]

/-- The bytes of two characters are in their order, whatever follows. -/
theorem utf8EncodeChar_append_lt {c d : Char} (h : c < d) (cs ds : List UInt8) :
    String.utf8EncodeChar c ++ cs < String.utf8EncodeChar d ++ ds := by
  have hd : d.val.toNat < 0x110000 := by
    have := d.valid
    simp only [UInt32.isValidChar, Nat.isValidChar] at this
    omega
  have hcd : c.val.toNat < d.val.toNat := h
  -- The digits of both characters to base 64 are quotients of one another.
  have h12 (k : ℕ) : k / 4096 = k / 64 / 64 := by
    rw [Nat.div_div_eq_div_mul]
  have h18 (k : ℕ) : k / 262144 = k / 64 / 64 / 64 := by
    rw [Nat.div_div_eq_div_mul, Nat.div_div_eq_div_mul]
  simp only [String.utf8EncodeChar, h12, h18]
  generalize c.val.toNat = m at *
  generalize d.val.toNat = n at *
  split_ifs <;> simp (disch := omega) only [List.cons_append, cons_ofNat_lt_iff] <;> omega

theorem flatMap_utf8EncodeChar_lt {cs ds : List Char} (h : cs < ds) :
    cs.flatMap String.utf8EncodeChar < ds.flatMap String.utf8EncodeChar := by
  induction cs generalizing ds with
  | nil =>
      cases ds with
      | nil => exact absurd h (lt_irrefl _)
      | cons d ds =>
          rw [List.flatMap_nil, List.flatMap_cons]
          cases hd : String.utf8EncodeChar d with
          | nil => exact absurd hd String.utf8EncodeChar_ne_nil
          | cons byte more => exact List.nil_lt_cons _ _
  | cons c cs ih =>
      cases ds with
      | nil => cases h
      | cons d ds =>
          rw [List.flatMap_cons, List.flatMap_cons]
          rcases List.cons_lt_cons_iff.mp h with hhead | ⟨rfl, htail⟩
          · exact utf8EncodeChar_append_lt hhead _ _
          · exact List.append_left_lt (ih htail)

/-- Texts are ordered by their bytes. -/
theorem bytes_lt_bytes {s t : String} : bytes s < bytes t ↔ s < t := by
  have hmono {s t : String} (h : s < t) : bytes s < bytes t := by
    rw [bytes_eq, bytes_eq]
    exact flatMap_utf8EncodeChar_lt (String.lt_iff.mp h)
  refine ⟨fun h => ?_, hmono⟩
  rcases lt_trichotomy s t with hlt | rfl | hgt
  · exact hlt
  · exact absurd h (List.lt_irrefl _)
  · exact absurd h (List.lt_asymm (hmono hgt))

end Text

namespace Json

/-- Members are in the byte order of their keys, each key once. -/
def ByKey (members : List (String × Json)) : Prop :=
  members.Pairwise fun m later => Text.bytes m.1 < Text.bytes later.1

variable {members : List (String × Json)} {key : String} {d : Json}

theorem byKey_iff : ByKey members ↔ members.Pairwise fun m later => m.1 < later.1 := by
  simp only [ByKey, Text.bytes_lt_bytes]

theorem ByKey.nodup (h : ByKey members) : (members.map Prod.fst).Nodup :=
  List.pairwise_map.mpr ((byKey_iff.mp h).imp ne_of_lt)

theorem mem_insertMember {m : String × Json} (h : m ∈ insertMember key d members) :
    m = (key, d) ∨ m ∈ members := by
  induction members with
  | nil => exact .inl (List.mem_singleton.mp h)
  | cons first members ih =>
      rw [insertMember] at h
      split_ifs at h
      · exact List.mem_cons.mp h
      · exact (List.mem_cons.mp h).imp_right (List.mem_cons_of_mem _)
      · rcases List.mem_cons.mp h with rfl | h
        · exact .inr List.mem_cons_self
        · exact (ih h).imp_right (List.mem_cons_of_mem _)

theorem ByKey.insertMember (h : ByKey members) : ByKey (insertMember key d members) := by
  rw [byKey_iff] at h ⊢
  induction members with
  | nil => exact List.pairwise_singleton _ _
  | cons first members ih =>
      obtain ⟨hfirst, hmembers⟩ := List.pairwise_cons.mp h
      rw [Json.insertMember]
      split_ifs with hlt heq
      · refine List.pairwise_cons.mpr ⟨fun m hm => ?_, h⟩
        rcases List.mem_cons.mp hm with rfl | hm
        · exact hlt
        · exact hlt.trans (hfirst m hm)
      · rw [heq]
        exact List.pairwise_cons.mpr ⟨hfirst, hmembers⟩
      · refine List.pairwise_cons.mpr ⟨fun m hm => ?_, ih hmembers⟩
        rcases mem_insertMember hm with rfl | hm
        · exact lt_of_le_of_ne (not_lt.mp hlt) (Ne.symm heq)
        · exact hfirst m hm

/-- The members of an object by key, and any other document by the name of a whole one. -/
def named : Json → List (String × Json)
  | object members => members
  | document => [("<document>", document)]

/-- An object that is read has its members in the byte order of their keys. -/
theorem byKey_named_ofMembers (given : List (String × Json)) : ByKey (ofMembers given).named := by
  suffices h : ∀ sorted, ByKey sorted →
      ByKey (given.foldl (fun sorted m => Json.insertMember m.1 m.2 sorted) sorted) from
    h [] List.Pairwise.nil
  induction given with
  | nil => exact fun sorted hsorted => hsorted
  | cons m given ih => exact fun sorted hsorted => ih _ hsorted.insertMember

end Json

end Formula
