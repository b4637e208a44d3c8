import Bson.Proofs.Text.RoundTrip
import Mathlib.Data.List.Basic
import Mathlib.Data.List.TakeWhile

/-!
# Numerals that are read back

The parts of a decimal number are found again in a text that is put together from them.

* `head?_toDigits_ne`: the digits of a number start with a zero only for zero itself.
* `Numeral.ofChars?_fraction`, `Numeral.ofChars?_whole`: a text with a point and one without.
* `Numeral.exponent?_eq_some`: an exponent with its sign.
* `Numeral.coefficient_eq`, `Numeral.ofDigitChars_lt`: the number that the digits spell, and how
  large it can be.
* `Numeral.forall_mem_of_ofChars?`: the characters that a numeral may have.
-/

namespace Bson.Text

theorem digitChar_ne_zero : ∀ {n : Nat}, n < 10 → n ≠ 0 → n.digitChar ≠ '0' := by decide

/-- The digits of a number start with a zero only for zero itself. -/
theorem head?_toDigits_ne {n : Nat} (hn : n ≠ 0) : (Nat.toDigits 10 n).head? ≠ some '0' := by
  induction n using Nat.strongRecOn with
  | ind n ih =>
    rw [Nat.toDigits_eq_if (by decide)]
    split
    · rename_i hlt
      exact fun h => digitChar_ne_zero hlt hn (Option.some.inj h)
    · rw [List.head?_append_of_ne_nil _ Nat.toDigits_ne_nil]
      exact ih _ (by omega) (by omega)

namespace Numeral

variable {whole fraction tail : List Char}

theorem takeWhile_digits (hdigits : ∀ c ∈ whole, c.isDigit) (htail : ∀ c ∈ tail.head?, ¬c.isDigit) :
    (whole ++ tail).takeWhile Char.isDigit = whole ∧
      (whole ++ tail).dropWhile Char.isDigit = tail := by
  rw [List.takeWhile_append_of_pos hdigits, List.dropWhile_append_of_pos hdigits]
  cases tail with
  | nil => exact ⟨List.append_nil whole, rfl⟩
  | cons c tail =>
    have hc : ¬c.isDigit := htail c rfl
    rw [List.takeWhile_cons_of_neg hc, List.dropWhile_cons_of_neg hc, List.append_nil]
    exact ⟨rfl, rfl⟩

/-- A number with a point. -/
theorem ofChars?_fraction (negative : Bool) (hne : whole ≠ []) (hwhole : ∀ c ∈ whole, c.isDigit)
    (hfraction : ∀ c ∈ fraction, c.isDigit) (htail : ∀ c ∈ tail.head?, ¬c.isDigit) :
    ofChars? (signChars negative ++ (whole ++ '.' :: (fraction ++ tail))) =
      (exponent? tail).map (⟨signOf negative, whole, some fraction, ·⟩) := by
  have hhead : ∀ c ∈ (whole ++ '.' :: (fraction ++ tail)).head?, c.isDigit := fun c hc => by
    rw [List.head?_append_of_ne_nil _ hne] at hc
    exact hwhole c (List.mem_of_mem_head? hc)
  have hpoint : ∀ c ∈ ('.' :: (fraction ++ tail)).head?, ¬c.isDigit := fun c hc => by
    cases hc
    decide
  obtain ⟨htake, hdrop⟩ := takeWhile_digits hwhole hpoint
  obtain ⟨htake', hdrop'⟩ := takeWhile_digits hfraction htail
  simp only [ofChars?, splitSign_signChars negative hhead, htake, hdrop, htake', hdrop']

/-- A number without a point. -/
theorem ofChars?_whole (negative : Bool) (hne : whole ≠ []) (hwhole : ∀ c ∈ whole, c.isDigit)
    (htail : ∀ c ∈ tail.head?, ¬c.isDigit) (hpoint : tail.head? ≠ some '.') :
    ofChars? (signChars negative ++ (whole ++ tail)) =
      (exponent? tail).map (⟨signOf negative, whole, none, ·⟩) := by
  have hhead : ∀ c ∈ (whole ++ tail).head?, c.isDigit := fun c hc => by
    rw [List.head?_append_of_ne_nil _ hne] at hc
    exact hwhole c (List.mem_of_mem_head? hc)
  obtain ⟨htake, hdrop⟩ := takeWhile_digits hwhole htail
  simp only [ofChars?, splitSign_signChars negative hhead, htake, hdrop]
  split
  · exact absurd rfl hpoint
  · rfl

theorem exponent?_cons {c : Char} {rest : List Char} (hmark : c = 'e' ∨ c = 'E') :
    exponent? (c :: rest) = (digitsValue? 10 (splitSign rest).2).map fun n : Nat =>
      some (if (splitSign rest).1 = some '-' then -(n : Int) else n) := by
  rw [exponent?, if_pos hmark]
  dsimp only
  cases digitsValue? 10 (splitSign rest).2 <;> rfl

/-- An exponent that always shows its sign. -/
theorem exponent?_eq_some (e : Int) :
    exponent? ('e' :: (if e < 0 then '-' else '+') :: Nat.toDigits 10 e.natAbs) =
      some (some e) := by
  rw [exponent?_cons (.inl rfl)]
  by_cases hneg : e < 0
  · rw [if_pos hneg]
    simp only [splitSign, digitsValue?_toDigits, Option.map_some, if_true]
    congr 2
    omega
  · have hplus : ¬(some '+' = some '-') := by decide
    rw [if_neg hneg]
    simp only [splitSign, digitsValue?_toDigits, Option.map_some, if_neg hplus]
    congr 2
    omega

/-- The number that the digits of a numeral spell. -/
theorem coefficient_eq {n : Numeral} (hwhole : ∀ c ∈ n.whole, c.isDigit)
    (hfraction : ∀ c ∈ n.fraction.getD [], c.isDigit) :
    n.coefficient = Nat.ofDigitChars 10 (n.whole ++ n.fraction.getD []) 0 := by
  rw [coefficient, digitsFrom?_eq_some.2 ⟨List.forall_mem_append.2 ⟨hwhole, hfraction⟩, rfl⟩,
    Option.getD_some]

/-- The number that digits spell has no more digits than they are. -/
theorem ofDigitChars_lt {ds : List Char} (hdigits : ∀ c ∈ ds, c.isDigit) :
    Nat.ofDigitChars 10 ds 0 < 10 ^ ds.length := by
  induction ds with
  | nil => exact Nat.one_pos
  | cons c rest ih =>
    obtain ⟨hc, hrest⟩ := List.forall_mem_cons.1 hdigits
    have hdigit : c.toNat - '0'.toNat + 1 ≤ 10 := by
      have hnine : c.toNat ≤ 57 := (Char.isDigit_iff_toNat.1 hc).2
      have hzero : '0'.toNat = 48 := rfl
      omega
    rw [Nat.ofDigitChars_cons, Nat.ofDigitChars_eq_ofDigitChars_zero, Nat.mul_zero, Nat.zero_add,
      List.length_cons]
    calc 10 ^ rest.length * (c.toNat - '0'.toNat) + Nat.ofDigitChars 10 rest 0
        < 10 ^ rest.length * (c.toNat - '0'.toNat + 1) := Nat.add_lt_add_left (ih hrest) _
      _ ≤ 10 ^ rest.length * 10 := Nat.mul_le_mul_left _ hdigit

/-! ### Characters -/

/-- Whether a character may stand in a numeral. -/
def IsNumeralChar (c : Char) : Prop := c.isDigit ∨ c ∈ ['+', '-', '.', 'e', 'E']

theorem forall_mem_of_splitSign {cs : List Char} (h : ∀ c ∈ (splitSign cs).2, IsNumeralChar c) :
    ∀ c ∈ cs, IsNumeralChar c := by
  unfold splitSign at h
  split at h
  · exact List.forall_mem_cons.2 ⟨.inr (by decide), h⟩
  · exact List.forall_mem_cons.2 ⟨.inr (by decide), h⟩
  · exact h

theorem forall_mem_of_exponent? {cs : List Char} {e : Option Int} (h : exponent? cs = some e) :
    ∀ c ∈ cs, IsNumeralChar c := by
  cases cs with
  | nil => exact fun c hc => nomatch hc
  | cons c rest =>
    by_cases hmark : c = 'e' ∨ c = 'E'
    · rw [exponent?_cons hmark] at h
      obtain ⟨n, hn, -⟩ := Option.map_eq_some_iff.1 h
      refine List.forall_mem_cons.2 ⟨.inr ?_, forall_mem_of_splitSign fun d hd => ?_⟩
      · rcases hmark with rfl | rfl <;> decide
      · exact .inl ((digitsValue?_eq_some.1 hn).2.1 d hd)
    · rw [exponent?, if_neg hmark] at h
      cases h

theorem forall_mem_of_dropWhile {cs : List Char}
    (h : ∀ c ∈ cs.dropWhile Char.isDigit, IsNumeralChar c) : ∀ c ∈ cs, IsNumeralChar c := by
  intro c hc
  rw [← List.takeWhile_append_dropWhile (p := Char.isDigit) (l := cs)] at hc
  rcases List.mem_append.1 hc with htake | hdrop
  · exact .inl (List.mem_takeWhile_imp htake)
  · exact h c hdrop

/-- A numeral has digits, signs, points and exponent marks, and no other characters. -/
theorem forall_mem_of_ofChars? {cs : List Char} {n : Numeral} (h : ofChars? cs = some n) :
    ∀ c ∈ cs, IsNumeralChar c := by
  refine forall_mem_of_splitSign (forall_mem_of_dropWhile ?_)
  rw [ofChars?] at h
  dsimp only at h
  split at h
  · rename_i rest hrest
    obtain ⟨e, he, -⟩ := Option.map_eq_some_iff.1 h
    rw [hrest]
    exact List.forall_mem_cons.2
      ⟨.inr (by decide), forall_mem_of_dropWhile (forall_mem_of_exponent? he)⟩
  · obtain ⟨e, he, -⟩ := Option.map_eq_some_iff.1 h
    exact forall_mem_of_exponent? he

end Numeral

end Bson.Text
