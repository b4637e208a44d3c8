import Bson.Calendar.Rfc3339
import Bson.Proofs.Calendar.Date
import Bson.Proofs.Text.RoundTrip
import Bson.Proofs.Text.Scanning

/-!
# Instants are read back from their texts

* `isPadded_padded`, `reads_number`: numbers that are filled up with zeros.
* `reads_date`, `reads_time`, `reads_offset`: the parts of an instant.
* `Rfc3339.read?_text`: an instant in a year from 0 to 9999 is read back from its text in UTC.
-/

namespace Bson

namespace Calendar.Rfc3339

open Text Text.Scan

variable {rest : List Char}

/-! ### Numbers -/

/-- The digits of a number that has no more of them than the width. -/
structure IsPadded (width n : Nat) (cs : List Char) : Prop where
  length_eq : cs.length = width
  isDigit : ∀ c ∈ cs, c.isDigit
  value_eq : digitsValue? 10 cs = some n

theorem isPadded_padded {width n : Nat} (h : n < 10 ^ width) (hwidth : 0 < width) :
    IsPadded width n (padded width n).toList := by
  have hle : (Nat.toDigits 10 n).length ≤ width :=
    (Nat.length_toDigits_le_iff (by decide) hwidth).2 h
  have hlength : (padded width n).toList.length = width := by
    rw [padded, String.toList_ofList, List.length_append, List.length_replicate]
    omega
  have hdigits : ∀ c ∈ (padded width n).toList, c.isDigit := by
    rw [padded, String.toList_ofList]
    exact List.forall_mem_append.2 ⟨isDigit_of_mem_replicate _, isDigit_of_mem_toDigits⟩
  have hne : (padded width n).toList ≠ [] := List.ne_nil_of_length_pos (hlength.symm ▸ hwidth)
  refine ⟨hlength, hdigits, digitsValue?_eq_some.2 ⟨hne, hdigits, ?_⟩⟩
  rw [padded, String.toList_ofList, Nat.ofDigitChars_append, Nat.ofDigitChars_replicate_zero,
    Nat.mul_zero, Nat.ofDigitChars_ten_toDigits]

theorem reads_number {width n : Nat} (h : n < 10 ^ width) (hwidth : 0 < width) :
    Reads (number width) (padded width n).toList n rest := by
  obtain ⟨hlength, hdigits, hvalue⟩ := isPadded_padded h hwidth
  have hcount : Reads (count (padded width n).toList.length Char.isDigit) _ _ rest :=
    reads_count hdigits
  rw [hlength] at hcount
  refine hcount.bind_nil ?_
  rw [hvalue]
  exact reads_pure n

theorem reads_field {greatest n : Nat} (hle : n ≤ greatest) (hgreatest : greatest < 100) :
    Reads (field greatest) (padded 2 n).toList n rest := by
  refine (reads_number (show n < 10 ^ 2 by omega) (by decide)).bind_nil ?_
  rw [if_pos hle]
  exact reads_pure n

/-! ### Dates and times -/

/-- The characters of a date in a year from 0 to 9999. -/
def dateChars (d : Date) : List Char :=
  (padded 4 d.year.toNat).toList ++ '-' ::
    ((padded 2 d.month).toList ++ '-' :: (padded 2 d.day).toList)

theorem reads_date {d : Date} (hleast : 0 ≤ d.year) (hgreatest : d.year ≤ 9999)
    (hmonth : d.month < 100) (hday : d.day < 100) (hvalid : d.isValid = true) :
    Reads date (dateChars d) d rest := by
  refine (reads_number (show d.year.toNat < 10 ^ 4 by omega) (by decide)).bind (.char_bind ?_)
  refine (reads_number hmonth (by decide)).bind (.char_bind ?_)
  refine (reads_number hday (by decide)).bind_nil ?_
  rw [Int.toNat_of_nonneg hleast]
  change Reads (if d.isValid then pure d else failure) [] d rest
  rw [if_pos hvalid]
  exact reads_pure d

/-- The characters of the milliseconds of a second, none if there are none. -/
def fractionChars (millis : Nat) : List Char :=
  if millis = 0 then [] else '.' :: (padded 3 millis).toList

theorem reads_fractionMillis {millis : Nat} (h : millis < 1000) :
    Reads fractionMillis (fractionChars millis) millis ('Z' :: rest) := by
  unfold fractionChars
  split
  · rename_i hzero
    rw [hzero]
    exact .peek?_bind (reads_pure 0)
  · obtain ⟨hlength, hdigits, hvalue⟩ :=
      isPadded_padded (show millis < 10 ^ 3 from h) (by decide)
    refine .peek?_bind (.char_bind ?_)
    refine (reads_takeWhile1 (List.ne_nil_of_length_pos (by omega)) hdigits (by decide)).bind_nil ?_
    rw [List.take_append_of_le_length (by omega), List.take_of_length_le (by omega), hvalue]
    exact reads_pure millis

/-- The characters of a time of day in milliseconds. -/
def timeChars (ofDay : Nat) : List Char :=
  (padded 2 (ofDay / 1000 / 3600)).toList ++ ':' ::
    ((padded 2 (ofDay / 1000 / 60 % 60)).toList ++ ':' ::
      ((padded 2 (ofDay / 1000 % 60)).toList ++ fractionChars (ofDay % 1000)))

theorem reads_time {ofDay : Nat} (h : ofDay < 86400000) :
    Reads time (timeChars ofDay) ofDay ('Z' :: rest) := by
  have hsum : (ofDay / 1000 / 3600 * 3600 + ofDay / 1000 / 60 % 60 * 60 + ofDay / 1000 % 60) *
      1000 + ofDay % 1000 = ofDay := by omega
  refine (reads_field (by omega) (by decide)).bind (.char_bind ?_)
  refine (reads_field (by omega) (by decide)).bind (.char_bind ?_)
  refine (reads_field (by omega) (by decide)).bind ((reads_fractionMillis (by omega)).bind_nil ?_)
  rw [Nat.min_eq_left (by omega), if_neg (by omega), Nat.add_zero, hsum]
  exact reads_pure ofDay

theorem reads_offset : Reads offset ['Z'] 0 rest :=
  .peek?_bind (.satisfy_bind rfl (reads_pure 0))

/-! ### Instants -/

variable {millis : Int}

/-- The characters of an instant in a year from 0 to 9999. -/
theorem toList_text (hleast : 0 ≤ (dateOf millis).year) (hgreatest : (dateOf millis).year ≤ 9999) :
    (text "Z" millis).toList =
      dateChars (dateOf millis) ++ 'T' :: (timeChars (millis % dayMillis).toNat ++ ['Z']) := by
  have hyear : yearText (dateOf millis).year = padded 4 (dateOf millis).year.toNat :=
    if_pos ⟨hleast, hgreatest⟩
  have hfraction : (if (millis % dayMillis).toNat % 1000 = 0 then "" else
      "." ++ padded 3 ((millis % dayMillis).toNat % 1000)).toList =
        fractionChars ((millis % dayMillis).toNat % 1000) := by
    unfold fractionChars
    split
    · rfl
    · exact String.toList_append
  have hmarks : "-".toList = ['-'] ∧ "T".toList = ['T'] ∧ ":".toList = [':'] ∧
      "Z".toList = ['Z'] := ⟨rfl, rfl, rfl, rfl⟩
  simp only [text, dateChars, timeChars, String.toList_append, hyear, hfraction, hmarks,
    List.append_assoc, List.cons_append, List.nil_append]

/-- An instant in a year from 0 to 9999 is read back from its text in UTC. -/
theorem read?_text (hleast : 0 ≤ (dateOf millis).year) (hgreatest : (dateOf millis).year ≤ 9999) :
    read? (text "Z" millis) = some millis := by
  have hdays : (dateOf millis).toDays = millis / dayMillis := Date.toDays_ofDays _
  have hsum : millis / dayMillis * dayMillis + millis % dayMillis = millis :=
    Int.ediv_mul_add_emod millis dayMillis
  have hnonneg : 0 ≤ millis % dayMillis := Int.emod_nonneg _ (by decide)
  have hlt : (millis % dayMillis).toNat < 86400000 :=
    (Int.toNat_lt hnonneg).2 (Int.emod_lt_of_pos millis (by decide))
  obtain ⟨hmonth, hday⟩ := Date.ofDays_lt_hundred (millis / dayMillis)
  refine run?_eq ?_
  rw [toList_text hleast hgreatest]
  refine (reads_date hleast hgreatest hmonth hday (Date.isValid_ofDays _)).bind
    (.satisfy_bind (by decide) ?_)
  refine (reads_time hlt).bind (reads_offset.bind_nil ?_)
  rw [hdays, Int.toNat_of_nonneg hnonneg, Int.zero_mul, Int.sub_zero, hsum]
  exact reads_pure millis

end Calendar.Rfc3339

end Bson
