import Bson.Proofs.ExtendedJson.Wrappers
import Bson.Proofs.Text.Hex

/-!
# The texts of object ids

An id has one text in lower case, and is read from this text in any case.

* `ObjectId.IsSpelling`: the texts that spell an id. `ObjectId.Refused`: why another is refused, the
  first of three reasons.
* `ObjectId.isSpelling_or_refused`: each text is of one kind. `ObjectId.ofHex_of_isSpelling`,
  `ObjectId.ofHex_of_refused`: what reading does with it.
* `ObjectId.ofHex_inverts_toHex`: the statement about texts and ids.
-/

namespace Bson

open Grammar ExtendedJson Text

namespace ObjectId

/-- A text that spells an id: 24 hexadecimal digits of either case. -/
def IsSpelling (s : String) : Prop := s.length = 24 ∧ ∀ c ∈ s.toList, Hex.IsDigit c

/-- Why a text is refused as that of an id: it spells no bytes, or other than twelve. -/
inductive Refused (s : String) : Fault → Prop
  | hex {fault : Hex.Fault} : Hex.Faulty (utf8 s) fault → Refused s (.hex fault)
  | wrongSize : (utf8 s).length % 2 = 0 → (∀ b ∈ utf8 s, Hex.IsDigitByte b) →
    (utf8 s).length ≠ 24 → Refused s .wrongSize

theorem length_utf8_of_isDigit {s : String} (h : ∀ c ∈ s.toList, Hex.IsDigit c) :
    (utf8 s).length = s.length := by
  rw [Hex.utf8_of_isDigit h, List.length_map, String.length_toList]

theorem isSpelling_or_refused (s : String) : IsSpelling s ∨ ∃ fault, Refused s fault := by
  rcases Hex.faulty_or_digits (utf8 s) with ⟨fault, hfault⟩ | ⟨heven, hdigits⟩
  · exact .inr ⟨_, .hex hfault⟩
  · by_cases hlength : (utf8 s).length = 24
    · have hchars := Hex.forall_isDigitByte_iff.1 hdigits
      exact .inl ⟨(length_utf8_of_isDigit hchars).symm.trans hlength, hchars⟩
    · exact .inr ⟨_, .wrongSize heven hdigits hlength⟩

theorem ofHex_of_isSpelling {s : String} (h : IsSpelling s) :
    ∃ id, ofHex s = .ok id ∧ id.toHex = s.toLower := by
  obtain ⟨hlength, hchars⟩ := h
  have hutf8 : (utf8 s).length = 24 := (length_utf8_of_isDigit hchars).trans hlength
  obtain ⟨bytes, hdecode, hsize, hlower⟩ :=
    Hex.decode_of_digits (by omega) (Hex.forall_isDigitByte_iff.2 hchars)
  have htwelve : bytes.size = 12 := by omega
  refine ⟨⟨bytes, htwelve⟩, ?_, hlower⟩
  rw [ofHex, hdecode]
  exact dif_pos htwelve

theorem ofHex_of_refused {s : String} {fault : Fault} (h : Refused s fault) :
    ofHex s = .error fault := by
  cases h with
  | hex hfault => rw [ofHex, Hex.decode_of_faulty hfault]
  | wrongSize heven hdigits hlength =>
    obtain ⟨bytes, hdecode, hsize, -⟩ := Hex.decode_of_digits heven hdigits
    have hother : ¬bytes.size = 12 := by omega
    rw [ofHex, hdecode]
    exact dif_neg hother

theorem exists_ofHex_iff {s : String} : (∃ id, ofHex s = .ok id) ↔ IsSpelling s := by
  constructor
  · rintro ⟨id, hid⟩
    rcases isSpelling_or_refused s with h | ⟨fault, h⟩
    · exact h
    · rw [ofHex_of_refused h] at hid
      cases hid
  · intro h
    obtain ⟨id, hid, -⟩ := ofHex_of_isSpelling h
    exact ⟨id, hid⟩

theorem ofHex_eq_ok_iff {s : String} {id : ObjectId} :
    ofHex s = .ok id ↔ IsSpelling s ∧ id.toHex = s.toLower := by
  constructor
  · intro hid
    have h : IsSpelling s := exists_ofHex_iff.1 ⟨id, hid⟩
    obtain ⟨read, hread, hlower⟩ := ofHex_of_isSpelling h
    rw [hid, Except.ok.injEq] at hread
    exact ⟨h, hread ▸ hlower⟩
  · rintro ⟨h, hlower⟩
    obtain ⟨read, hread, hlower'⟩ := ofHex_of_isSpelling h
    -- ids with one text are one id
    have hsame : (.ok id : Except Fault ObjectId) = .ok read := by
      rw [← ofHex_toHex id, ← ofHex_toHex read, hlower, hlower']
    rw [hread, hsame]

theorem ofHex_eq_error_iff {s : String} {fault : Fault} :
    ofHex s = .error fault ↔ Refused s fault := by
  constructor
  · intro herror
    rcases isSpelling_or_refused s with h | ⟨fault', h⟩
    · obtain ⟨id, hid, -⟩ := ofHex_of_isSpelling h
      rw [hid] at herror
      cases herror
    · rw [ofHex_of_refused h, Except.error.injEq] at herror
      exact herror ▸ h
  · exact ofHex_of_refused

/-- **Ids and their texts.** A text is read as an id exactly if it is 24 hexadecimal digits of
either case, and the id is then the one that is written as the text in lower case. An id is read
back from its text and from the wrapper around this text. Any other text is refused, for the first
of three reasons that applies: its bytes are odd in number; one of them is no digit, and the first
such byte is named; they spell another number of bytes than twelve. -/
theorem ofHex_inverts_toHex (s : String) (id : ObjectId) (fault : Fault) :
    ((∃ read, ofHex s = .ok read) ↔ IsSpelling s) ∧
      (ofHex s = .ok id ↔ IsSpelling s ∧ id.toHex = s.toLower) ∧
      ofHex id.toHex = .ok id ∧
      toValue (wrap "$oid" (.string id.toHex)) = .ok (.objectId id) ∧
      (ofHex s = .error fault ↔ Refused s fault) :=
  ⟨exists_ofHex_iff, ofHex_eq_ok_iff, ofHex_toHex id, toValue_objectId id, ofHex_eq_error_iff⟩

/-- Digits of both cases spell an id, which is written in lower case and read back from there. -/
theorem ofHex_inverts_toHex_mixed :
    IsSpelling "507F1f77BCF86cd799439011" ∧
      ∃ id, ofHex "507F1f77BCF86cd799439011" = .ok id ∧ id.toHex = "507f1f77bcf86cd799439011" ∧
        toValue (wrap "$oid" (.string "507f1f77bcf86cd799439011")) = .ok (.objectId id) := by
  have hspelling : IsSpelling "507F1f77BCF86cd799439011" := ⟨rfl, by simp [Hex.IsDigit]⟩
  have hlower : "507F1f77BCF86cd799439011".toLower = "507f1f77bcf86cd799439011" := by
    rw [← String.toList_inj, Hex.toList_toLower]
    decide
  obtain ⟨id, hid, -⟩ := ofHex_of_isSpelling hspelling
  obtain ⟨-, hread, -, hwrapped, -⟩ :=
    ofHex_inverts_toHex "507F1f77BCF86cd799439011" id .wrongSize
  have htext : id.toHex = "507f1f77bcf86cd799439011" := (hread.1 hid).2.trans hlower
  rw [htext] at hwrapped
  exact ⟨hspelling, id, hid, htext, hwrapped⟩

/-- An odd number of bytes is told before a byte that is no digit, and this before the size. -/
example : ofHex "0g0" = .error (.hex .oddLength) ∧
    ofHex "0é0" = .error (.hex (.badDigit 0xC3 1)) ∧ ofHex "0A" = .error .wrongSize :=
  ⟨rfl, rfl, rfl⟩

end ObjectId

end Bson
