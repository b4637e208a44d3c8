import Bson.Calendar.Date

/-!
# Days and dates

Every day has one date, which is in the calendar and counts back to the day.

* `daysBeforeYear_succ`: the length of a year. `yearOfDay_spec`: the year that a day lies in.
* `monthAndDay_eq`: the month and the day of the month.
* `Date.isValid_ofDays`, `Date.toDays_ofDays`: the date of a day.
-/

namespace Bson.Calendar

/-! ### Years -/

/-- The number of days of a year. -/
def yearLength (year : Int) : Nat := if isLeap year then 366 else 365

theorem isLeap_eq_true {year : Int} :
    isLeap year = true ↔ year % 4 = 0 ∧ (year % 100 ≠ 0 ∨ year % 400 = 0) :=
  decide_eq_true_iff

theorem daysBeforeYear_succ (year : Int) :
    daysBeforeYear (year + 1) = daysBeforeYear year + yearLength year := by
  unfold daysBeforeYear yearLength
  split
  · rename_i h
    have := isLeap_eq_true.1 h
    omega
  · rename_i h
    have := mt isLeap_eq_true.2 h
    omega

theorem yearOfDay_spec (n : Int) :
    daysBeforeYear (yearOfDay n) ≤ n ∧ n < daysBeforeYear (yearOfDay n + 1) := by
  -- the mean length of a year is wrong by one year at most
  have hbelow : daysBeforeYear (400 * n / 146097 - 1) ≤ n := by
    unfold daysBeforeYear
    omega
  have habove : n < daysBeforeYear (400 * n / 146097 + 1 + 1) := by
    unfold daysBeforeYear
    omega
  unfold yearOfDay
  simp only
  split
  · rename_i h
    exact ⟨hbelow, by rwa [Int.sub_add_cancel]⟩
  · rename_i hge
    split
    · rename_i h
      exact ⟨h, habove⟩
    · rename_i h
      exact ⟨Int.not_lt.1 hge, Int.not_le.1 h⟩

/-! ### Months -/

theorem foldl_add (ls : List Nat) (n : Nat) : ls.foldl (· + ·) n = n + ls.foldl (· + ·) 0 := by
  induction ls generalizing n with
  | nil => rfl
  | cons l ls ih =>
    rw [List.foldl_cons, List.foldl_cons, ih, ih (0 + l)]
    omega

/-- The month is the one that the day lies in, and the day is counted from its first. -/
theorem monthAndDay_eq {lengths : List Nat} (month : Nat) {n : Nat}
    (h : n < lengths.foldl (· + ·) 0) :
    ∃ i r, i < lengths.length ∧ r < lengths.getD i 0 ∧
      (lengths.take i).foldl (· + ·) 0 + r = n ∧
        monthAndDay lengths month n = (month + i, r + 1) := by
  induction lengths generalizing month n with
  | nil => exact absurd h (Nat.not_lt_zero n)
  | cons length rest ih =>
    rw [List.foldl_cons, foldl_add] at h
    by_cases hlt : n < length
    · exact ⟨0, n, Nat.succ_pos _, hlt, Nat.zero_add n, if_pos hlt⟩
    · obtain ⟨i, r, hi, hr, hsum, heq⟩ := ih (month + 1) (n := n - length) (by omega)
      refine ⟨i + 1, r, Nat.succ_lt_succ hi, hr, ?_, ?_⟩
      · rw [List.take_succ_cons, List.foldl_cons, foldl_add]
        omega
      · rw [monthAndDay, if_neg hlt, heq, Nat.add_right_comm, Nat.add_assoc]

theorem foldl_monthLengths (year : Int) :
    (monthLengths year).foldl (· + ·) 0 = yearLength year := by
  unfold monthLengths yearLength
  cases isLeap year <;> rfl

theorem le_of_mem_monthLengths {year : Int} {length : Nat} (h : length ∈ monthLengths year) :
    length ≤ 31 := by
  have hall : ∀ l ∈ monthLengths year, l ≤ 31 := by
    unfold monthLengths
    cases isLeap year <;> decide
  exact hall length h

theorem getD_monthLengths_le (year : Int) (i : Nat) : (monthLengths year).getD i 0 ≤ 31 := by
  rw [List.getD_eq_getElem?_getD]
  cases h : (monthLengths year)[i]? with
  | none => exact Nat.zero_le _
  | some length => exact le_of_mem_monthLengths (List.mem_of_getElem? h)

/-! ### Dates -/

namespace Date

/-- What the date of a day is. -/
theorem ofDays_spec (n : Int) :
    ∃ i r, i < 12 ∧ r < (monthLengths (yearOfDay (n + epoch))).getD i 0 ∧
      ((monthLengths (yearOfDay (n + epoch))).take i).foldl (· + ·) 0 + r =
        (n + epoch - daysBeforeYear (yearOfDay (n + epoch))).toNat ∧
      ofDays n = ⟨yearOfDay (n + epoch), 1 + i, r + 1⟩ := by
  obtain ⟨hge, hlt⟩ := yearOfDay_spec (n + epoch)
  rw [daysBeforeYear_succ] at hlt
  have hday : (n + epoch - daysBeforeYear (yearOfDay (n + epoch))).toNat <
      (monthLengths (yearOfDay (n + epoch))).foldl (· + ·) 0 := by
    rw [foldl_monthLengths]
    omega
  obtain ⟨i, r, hi, hr, hsum, heq⟩ := monthAndDay_eq 1 hday
  refine ⟨i, r, hi, hr, hsum, ?_⟩
  unfold ofDays
  simp only
  rw [heq]

/-- The date of a day is in the calendar. -/
theorem isValid_ofDays (n : Int) : (ofDays n).isValid = true := by
  obtain ⟨i, r, -, hr, -, heq⟩ := ofDays_spec n
  rw [heq, isValid, decide_eq_true_iff]
  refine ⟨Nat.succ_pos r, ?_⟩
  simp only [monthLength]
  rw [if_neg (by omega), Nat.add_sub_cancel_left]
  exact hr

/-- The date of a day counts back to the day. -/
theorem toDays_ofDays (n : Int) : (ofDays n).toDays = n := by
  obtain ⟨i, r, -, -, hsum, heq⟩ := ofDays_spec n
  have hge := (yearOfDay_spec (n + epoch)).1
  rw [heq]
  simp only [toDays, daysBeforeMonth, Nat.add_sub_cancel_left]
  omega

/-- Months and days have two digits. -/
theorem ofDays_lt_hundred (n : Int) : (ofDays n).month < 100 ∧ (ofDays n).day < 100 := by
  obtain ⟨i, r, hi, hr, -, heq⟩ := ofDays_spec n
  have hle := getD_monthLengths_le (yearOfDay (n + epoch)) i
  rw [heq]
  exact ⟨show 1 + i < 100 by omega, show r + 1 < 100 by omega⟩

end Date

end Bson.Calendar
