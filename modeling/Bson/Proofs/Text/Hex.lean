import Bson.Proofs.Grammar.Texts
import Bson.Proofs.Text.RoundTrip

/-!
# Texts of hexadecimal digits

Which texts spell bytes, and what is wrong with the others.

* `IsDigit`, `IsDigitByte`: the digits of either case, as characters and as bytes of a text.
* `forall_isDigitByte_iff`, `utf8_of_isDigit`: the bytes of a text are digits exactly if its
  characters are, and then each character is one byte.
* `Faulty`: what is wrong with the bytes of a text. `decode_of_faulty`: reading them reports it.
* `decode_of_digits`: an even number of digits is read as the bytes that are written as the same
  digits in lower case. `faulty_or_digits`: there is no third kind of text.
-/

namespace Bson

open Grammar

namespace Text.Hex

/-! ### Digits -/

/-- A hexadecimal digit of either case. -/
def IsDigit (c : Char) : Prop := c.isDigit ∨ ('a' ≤ c ∧ c ≤ 'f') ∨ ('A' ≤ c ∧ c ≤ 'F')

instance : DecidablePred IsDigit := fun _ => inferInstanceAs (Decidable (_ ∨ _))

/-- A byte that is a digit if it is taken for a character. -/
def IsDigitByte (b : UInt8) : Prop := IsDigit (Char.ofNat b.toNat)

instance : DecidablePred IsDigitByte := fun b =>
  inferInstanceAs (Decidable (IsDigit (Char.ofNat b.toNat)))

/-- The character of a byte, in lower case. -/
def lowerChar (b : UInt8) : Char := (Char.ofNat b.toNat).toLower

/-- What holds of the numbers below 256 holds of all bytes. -/
theorem forall_byte {P : UInt8 → Prop} (h : ∀ k < 256, P (UInt8.ofNat k)) (b : UInt8) : P b :=
  of_forall_lt h b.toNat_lt

theorem IsDigitByte.toNat_lt {b : UInt8} : IsDigitByte b → b.toNat < 128 :=
  forall_byte (P := fun b => IsDigitByte b → b.toNat < 128) (by decide +kernel) b

/-- A digit has a value below sixteen, which is written as the digit in lower case. -/
theorem digit?_of_isDigitByte {b : UInt8} (h : IsDigitByte b) :
    ∃ d, digit? b = some d ∧ d.toNat < 16 ∧ digit d = lowerChar b := by
  have hvalue : (digit? b).any fun d => d.toNat < 16 ∧ digit d = lowerChar b :=
    forall_byte (P := fun b => IsDigitByte b →
      (digit? b).any fun d => d.toNat < 16 ∧ digit d = lowerChar b) (by decide +kernel) b h
  obtain ⟨d, hd, hp⟩ := (Option.any_eq_true _ _).1 hvalue
  exact ⟨d, hd, of_decide_eq_true hp⟩

theorem digit?_of_not_isDigitByte {b : UInt8} : ¬IsDigitByte b → digit? b = none :=
  forall_byte (P := fun b => ¬IsDigitByte b → digit? b = none) (by decide +kernel) b

/-! ### Digits as characters -/

theorem IsDigit.toNat_lt {c : Char} (h : IsDigit c) : c.toNat < 128 := by
  have hle : ∀ d : Char, d.toNat < 128 → c ≤ d → c.toNat < 128 := fun d hd hcd =>
    Nat.lt_of_le_of_lt (UInt32.le_iff_toNat_le.1 hcd) hd
  rcases h with hdigit | ⟨-, hle'⟩ | ⟨-, hle'⟩
  · rw [Char.isDigit, Bool.and_eq_true, decide_eq_true_eq, decide_eq_true_eq] at hdigit
    exact hle '9' (by decide) hdigit.2
  · exact hle 'f' (by decide) hle'
  · exact hle 'F' (by decide) hle'

theorem ofNat_byte {c : Char} (h : c.toNat < 128) :
    Char.ofNat (UInt8.ofNat c.toNat).toNat = c := by
  have hbyte : (UInt8.ofNat c.toNat).toNat = c.toNat :=
    UInt8.toNat_ofNat_of_lt' (Nat.lt_trans h (by decide))
  rw [hbyte, Char.ofNat_toNat]

/-- The bytes of a character are digits exactly if it is a digit. -/
theorem forall_mem_utf8EncodeChar_iff {c : Char} :
    (∀ b ∈ String.utf8EncodeChar c, IsDigitByte b) ↔ IsDigit c := by
  rcases utf8EncodeChar_cases c with ⟨hlt, hsingle⟩ | ⟨hle, hhigh⟩
  · rw [hsingle, List.forall_mem_singleton, IsDigitByte, ofNat_byte hlt]
  · -- neither the character nor any of its bytes is among the first 128
    constructor
    · intro h
      obtain ⟨b, hb⟩ := List.exists_mem_of_ne_nil _ (String.utf8EncodeChar_ne_nil (c := c))
      exact absurd (h b hb).toNat_lt (Nat.not_lt.2 (hhigh b hb))
    · intro h
      exact absurd h.toNat_lt (Nat.not_lt.2 hle)

theorem forall_isDigitByte_iff {s : String} :
    (∀ b ∈ utf8 s, IsDigitByte b) ↔ ∀ c ∈ s.toList, IsDigit c := by
  simp only [utf8_eq, List.mem_flatMap, forall_exists_index, and_imp]
  constructor
  · intro h c hc
    exact forall_mem_utf8EncodeChar_iff.1 fun b hb => h b c hc hb
  · intro h b c hc hb
    exact forall_mem_utf8EncodeChar_iff.2 (h c hc) b hb

/-- Digits take one byte each. -/
theorem utf8_of_isDigit {s : String} (h : ∀ c ∈ s.toList, IsDigit c) :
    utf8 s = s.toList.map fun c => UInt8.ofNat c.toNat := by
  rw [utf8_eq]
  generalize s.toList = cs at h
  induction cs with
  | nil => rfl
  | cons c cs ih =>
    rw [List.forall_mem_cons] at h
    have hbyte : String.utf8EncodeChar c = [UInt8.ofNat c.toNat] := by
      rcases utf8EncodeChar_cases c with ⟨-, hsingle⟩ | ⟨hle, -⟩
      · exact hsingle
      · exact absurd h.1.toNat_lt (Nat.not_lt.2 hle)
    rw [List.flatMap_cons, List.map_cons, hbyte, ih h.2]
    rfl

theorem toList_toLower (s : String) : s.toLower.toList = s.toList.map Char.toLower :=
  String.toList_map

theorem map_lowerChar_utf8 {s : String} (h : ∀ c ∈ s.toList, IsDigit c) :
    (utf8 s).map lowerChar = s.toLower.toList := by
  rw [utf8_of_isDigit h, List.map_map, toList_toLower]
  refine List.map_congr_left fun c hc => ?_
  change (Char.ofNat (UInt8.ofNat c.toNat).toNat).toLower = c.toLower
  rw [ofNat_byte (h c hc).toNat_lt]

/-! ### Reading pairs of digits -/

theorem digitAt_of_isDigitByte {b : UInt8} (h : IsDigitByte b) (position : Nat) :
    ∃ d, digitAt b position = .ok d ∧ d.toNat < 16 ∧ digit d = lowerChar b := by
  obtain ⟨d, hd, hlt, hlower⟩ := digit?_of_isDigitByte h
  exact ⟨d, by rw [digitAt, hd], hlt, hlower⟩

theorem digitAt_of_not_isDigitByte {b : UInt8} (h : ¬IsDigitByte b) (position : Nat) :
    digitAt b position = .error (.badDigit b position) := by
  rw [digitAt, digit?_of_not_isDigitByte h]

/-- The digits of a byte that two values make are those of the values. -/
theorem ofByte_pair {high low : UInt8} (hhigh : high.toNat < 16) (hlow : low.toNat < 16) :
    ofByte (high * 16 + low) = [digit high, digit low] := by
  have hsum : (high * 16 + low).toNat = high.toNat * 16 + low.toNat := by
    rw [UInt8.toNat_add, UInt8.toNat_mul]
    change (high.toNat * 16 % 256 + low.toNat) % 256 = _
    omega
  have hdiv : (high * 16 + low) / 16 = high := by
    rw [← UInt8.toNat_inj, UInt8.toNat_div, hsum]
    change (high.toNat * 16 + low.toNat) / 16 = _
    omega
  have hmod : (high * 16 + low) % 16 = low := by
    rw [← UInt8.toNat_inj, UInt8.toNat_mod, hsum]
    change (high.toNat * 16 + low.toNat) % 16 = _
    omega
  rw [ofByte, hdiv, hmod]

/-- Of an even number of bytes, none are left when no pair is. -/
theorem eq_nil_of_no_pair {bytes : List UInt8} (heven : bytes.length % 2 = 0)
    (hpair : ∀ high low rest, bytes = high :: low :: rest → False) : bytes = [] := by
  cases bytes with
  | nil => rfl
  | cons high rest =>
    cases rest with
    | nil => cases heven
    | cons low rest => exact (hpair high low rest rfl).elim

theorem length_flatMap_ofByte (values : List UInt8) :
    (values.flatMap ofByte).length = 2 * values.length := by
  induction values with
  | nil => rfl
  | cons b rest ih =>
    have hpair : (ofByte b).length = 2 := rfl
    rw [List.flatMap_cons, List.length_append, ih, hpair, List.length_cons]
    omega

theorem decodeFrom_of_digits (position : Nat) {bytes : List UInt8}
    (heven : bytes.length % 2 = 0) (h : ∀ b ∈ bytes, IsDigitByte b) :
    ∃ values, decodeFrom position bytes = .ok values ∧
      values.flatMap ofByte = bytes.map lowerChar := by
  induction position, bytes using decodeFrom.induct with
  | case1 position high low rest ih =>
    simp only [List.forall_mem_cons] at h
    obtain ⟨hhigh, hlow, hrest⟩ := h
    obtain ⟨x, hx, hxlt, hxlower⟩ := digitAt_of_isDigitByte hhigh position
    obtain ⟨y, hy, hylt, hylower⟩ := digitAt_of_isDigitByte hlow (position + 1)
    obtain ⟨values, hvalues, hlower⟩ := ih (by simp only [List.length_cons] at heven; omega) hrest
    refine ⟨(x * 16 + y) :: values, ?_, ?_⟩
    · rw [decodeFrom, hx, hy, hvalues]
      rfl
    · rw [List.flatMap_cons, ofByte_pair hxlt hylt, hlower, hxlower, hylower]
      rfl
  | case2 bytes position hpair =>
    obtain rfl := eq_nil_of_no_pair heven hpair
    exact ⟨[], rfl, rfl⟩

/-- The first byte that is no digit is reported, whether it stands first or second in its pair. -/
theorem decodeFrom_of_not_digit {position : Nat} {bytes front rest : List UInt8} {byte : UInt8}
    (hbytes : bytes = front ++ byte :: rest) (heven : bytes.length % 2 = 0)
    (hfront : ∀ b ∈ front, IsDigitByte b) (hbyte : ¬IsDigitByte byte) :
    decodeFrom position bytes = .error (.badDigit byte (position + front.length)) := by
  induction position, bytes using decodeFrom.induct generalizing front with
  | case1 position high low tail ih =>
    rw [decodeFrom]
    cases front with
    | nil =>
      obtain ⟨rfl, -⟩ := List.cons.inj hbytes
      rw [digitAt_of_not_isDigitByte hbyte]
      rfl
    | cons first front =>
      rw [List.cons_append, List.cons.injEq] at hbytes
      obtain ⟨rfl, htail⟩ := hbytes
      rw [List.forall_mem_cons] at hfront
      obtain ⟨x, hx, -⟩ := digitAt_of_isDigitByte hfront.1 position
      rw [hx]
      cases front with
      | nil =>
        obtain ⟨rfl, -⟩ := List.cons.inj htail
        rw [digitAt_of_not_isDigitByte hbyte]
        rfl
      | cons second front =>
        rw [List.cons_append, List.cons.injEq] at htail
        obtain ⟨rfl, hrest⟩ := htail
        rw [List.forall_mem_cons] at hfront
        obtain ⟨y, hy, -⟩ := digitAt_of_isDigitByte hfront.2.1 (position + 1)
        have htail := ih hrest (by simp only [List.length_cons] at heven; omega) hfront.2.2
        have hposition : position + 2 + front.length = position + (front.length + 1 + 1) := by omega
        rw [hy, htail, List.length_cons, List.length_cons, hposition]
        rfl
  | case2 bytes position hpair =>
    rw [eq_nil_of_no_pair heven hpair] at hbytes
    exact absurd hbytes.symm (List.append_ne_nil_of_right_ne_nil front (List.cons_ne_nil byte rest))

/-! ### Reading texts -/

/-- What is wrong with the bytes of a text that spells no bytes: there is an odd number of them, or
else one is no digit, and it is the first. -/
inductive Faulty (bytes : List UInt8) : Fault → Prop
  | oddLength : bytes.length % 2 = 1 → Faulty bytes .oddLength
  | badDigit {front rest : List UInt8} {byte : UInt8} : bytes.length % 2 = 0 →
    bytes = front ++ byte :: rest → (∀ b ∈ front, IsDigitByte b) → ¬IsDigitByte byte →
    Faulty bytes (.badDigit byte front.length)

theorem faulty_or_digits (bytes : List UInt8) :
    (∃ fault, Faulty bytes fault) ∨ bytes.length % 2 = 0 ∧ ∀ b ∈ bytes, IsDigitByte b := by
  by_cases hodd : bytes.length % 2 = 1
  · exact .inl ⟨_, .oddLength hodd⟩
  · have heven : bytes.length % 2 = 0 := by omega
    cases hfirst : bytes.find? fun b => ¬IsDigitByte b with
    | none =>
      rw [List.find?_eq_none] at hfirst
      exact .inr ⟨heven, fun b hb => by simpa using hfirst b hb⟩
    | some byte =>
      obtain ⟨hbyte, front, rest, hbytes, hfront⟩ := List.find?_eq_some_iff_append.1 hfirst
      exact .inl ⟨_, .badDigit heven hbytes (fun b hb => by simpa using hfront b hb)
        (of_decide_eq_true hbyte)⟩

theorem decode_of_even {s : String} (heven : (utf8 s).length % 2 = 0) :
    decode s = (decodeFrom 0 (utf8 s)).map List.toByteArray := by
  have hodd : ¬(utf8 s).length % 2 = 1 := by omega
  rw [decode_eq]
  exact if_neg hodd

theorem decode_of_faulty {s : String} {fault : Fault} (h : Faulty (utf8 s) fault) :
    decode s = .error fault := by
  cases h with
  | oddLength hodd =>
    rw [decode_eq]
    exact if_pos hodd
  | badDigit heven hbytes hfront hbyte =>
    rw [decode_of_even heven, decodeFrom_of_not_digit hbytes heven hfront hbyte, Nat.zero_add]
    rfl

theorem decode_of_digits {s : String} (heven : (utf8 s).length % 2 = 0)
    (h : ∀ b ∈ utf8 s, IsDigitByte b) :
    ∃ bytes, decode s = .ok bytes ∧ 2 * bytes.size = (utf8 s).length ∧
      encode bytes = s.toLower := by
  obtain ⟨values, hvalues, hlower⟩ := decodeFrom_of_digits 0 heven h
  refine ⟨values.toByteArray, ?_, ?_, ?_⟩
  · rw [decode_of_even heven, hvalues]
    rfl
  · rw [List.size_toByteArray, ← length_flatMap_ofByte, hlower, List.length_map]
  · rw [encode, List.toList_data_toByteArray, hlower,
      map_lowerChar_utf8 (forall_isDigitByte_iff.1 h), String.ofList_toList]

end Text.Hex

end Bson
