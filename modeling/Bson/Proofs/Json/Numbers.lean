import Bson.Json.Token
import Bson.Json.Writing
import Bson.Proofs.Decimal.Parts
import Bson.Proofs.Decimal.Shortest
import Bson.Proofs.Text.Numeral

/-!
# JSON numbers that are read back

An integer is read back from its digits. The text of a finite double is read as a double too, by the
parts of the decimal that is written. That decimal is rounded to the double, but reading rounds its
parts, so that the double that is read may be another one near it; `51.248178375505404` is read one
bit too large. None is refused, not even near the greatest double.

* `Json.SpellsDouble`: texts that are read by the parts of a decimal, with one case for each way to
  set a decimal out: `spellsDouble_small`, `spellsDouble_inner`, `spellsDouble_large` and
  `spellsDouble_marked`.
* `Json.spelled`: the decimal that the text of a decimal spells, whichever the layout takes
  (`Json.spellsDouble_decimalText`).
* `Json.readBack`: the double that is read from the text of a double (`Json.ofWord?_double`).
  `Json.readBack_eq_self`: it is the double itself if that has few digits (`Json.IsShort`).
* `Json.ofWord?_integer`, `Json.ofWord?_largeInteger`: integers.
-/

namespace Bson.Json

open Text Text.Numeral Token

/-- Whether a numeral is a JSON number, but no integer, with the value of a decimal. -/
structure IsDouble (n : Numeral) (negative : Bool) (d : Decimal) : Prop where
  isJsonNumber : isJsonNumber n
  isWhole : n.isWhole = false
  isNegative : n.isNegative = negative
  parts_le : n.parts.Le d
  parts_eq : d.coefficient < 2 ^ 64 → n.parts = d

/-- Whether characters behind a sign spell a decimal. -/
def SpellsDouble (cs : List Char) (d : Decimal) : Prop :=
  ∀ negative, ∃ n, ofChars? (signChars negative ++ cs) = some n ∧ IsDouble n negative d

section Spells

variable {whole : List Char} {fraction : Option (List Char)} {exponent : Option Int}
  {cs ds : List Char} {c k : Nat}

theorem not_isDigit_of_mem_nil : ∀ c ∈ ([] : List Char).head?, ¬c.isDigit := fun c hc =>
  absurd hc (Option.not_mem_none c)

/-- The digits before the point of a JSON number: one zero, or no zero at the start. -/
def IsWholePart (whole : List Char) : Prop :=
  (∀ c ∈ whole, c.isDigit) ∧ (whole = ['0'] ∨ (whole ≠ [] ∧ whole.head? ≠ some '0'))

theorem IsWholePart.ne_nil (h : IsWholePart whole) : whole ≠ [] :=
  h.2.elim (fun hzero => hzero ▸ List.cons_ne_nil _ _) And.left

theorem isWholePart_singleton {d : Char} (hd : d.isDigit) : IsWholePart [d] := by
  refine ⟨fun c hc => List.mem_singleton.1 hc ▸ hd, ?_⟩
  by_cases hzero : d = '0'
  · exact .inl (congrArg (fun c => [c]) hzero)
  · exact .inr ⟨List.cons_ne_nil _ _, fun h => hzero (Option.some.inj h)⟩

theorem isWholePart_toDigits (n : Nat) : IsWholePart (Nat.toDigits 10 n) := by
  refine ⟨isDigit_of_mem_toDigits, ?_⟩
  rcases Nat.eq_zero_or_pos n with rfl | hpos
  · exact .inl (Nat.toDigits_zero 10)
  · exact .inr ⟨Nat.toDigits_ne_nil, head?_toDigits_ne (Nat.ne_of_gt hpos)⟩

theorem isJsonNumber_mk (negative : Bool) (hwhole : IsWholePart whole)
    (hfraction : fraction ≠ some []) :
    isJsonNumber ⟨signOf negative, whole, fraction, exponent⟩ :=
  decide_eq_true ⟨by cases negative <;> exact (nomatch ·), hwhole.2, hfraction⟩

/-- The parts of a numeral say what it is read as. -/
theorem spellsDouble_of_parts (fraction : Option (List Char)) (exponent : Option Int)
    (hread : ∀ negative, ofChars? (signChars negative ++ cs) =
      some ⟨signOf negative, whole, fraction, exponent⟩)
    (hwhole : IsWholePart whole) (hlength : whole.length ≤ 19) (hfraction : fraction ≠ some [])
    (hpart : fraction.isSome ∨ exponent.isSome) :
    SpellsDouble cs ⟨Nat.ofDigitChars 10 (whole ++ fraction.getD []) 0,
      exponent.getD 0 - (fraction.getD []).length⟩ := by
  intro negative
  have hroom : Nat.ofDigitChars 10 whole 0 < 2 ^ 64 :=
    calc Nat.ofDigitChars 10 whole 0 < 10 ^ whole.length := ofDigitChars_lt hwhole.1
      _ ≤ 10 ^ 19 := Nat.pow_le_pow_right (by decide) hlength
      _ < 2 ^ 64 := by decide
  refine ⟨_, hread negative, isJsonNumber_mk negative hwhole hfraction,
    decide_eq_false fun h => ?_, ?_, Numeral.parts_le hroom, fun h => Numeral.parts_eq h⟩
  · rw [Option.isNone_iff_eq_none, Option.isNone_iff_eq_none] at h
    dsimp only at h
    rw [h.1, h.2] at hpart
    exact hpart.elim Bool.false_ne_true Bool.false_ne_true
  · cases negative <;> rfl

/-- A number with digits on both sides of a point. -/
theorem spellsDouble_point (hwhole : IsWholePart whole) (hlength : whole.length ≤ 19)
    (hdigits : ∀ c ∈ ds, c.isDigit) (hne : ds ≠ []) :
    SpellsDouble (whole ++ '.' :: ds) ⟨Nat.ofDigitChars 10 (whole ++ ds) 0, -ds.length⟩ := by
  have hread : ∀ negative, ofChars? (signChars negative ++ (whole ++ '.' :: ds)) =
      some ⟨signOf negative, whole, some ds, none⟩ := fun negative => by
    rw [← List.append_nil ds, ofChars?_fraction negative hwhole.ne_nil hwhole.1 hdigits
      not_isDigit_of_mem_nil, List.append_nil]
    rfl
  have h := spellsDouble_of_parts (some ds) none hread hwhole hlength
    (fun h => hne (Option.some.inj h)) (.inl rfl)
  rwa [Option.getD_none, Int.zero_sub] at h

/-- A decimal below one: zeros stand before its digits. -/
theorem spellsDouble_small (c k : Nat) :
    SpellsDouble ('0' :: '.' :: (List.replicate k '0' ++ Nat.toDigits 10 c))
      ⟨c, -(k + (Nat.toDigits 10 c).length : Nat)⟩ := by
  have hdigits : ∀ d ∈ List.replicate k '0' ++ Nat.toDigits 10 c, d.isDigit :=
    List.forall_mem_append.2 ⟨isDigit_of_mem_replicate k, isDigit_of_mem_toDigits⟩
  have h := spellsDouble_point (isWholePart_singleton (d := '0') rfl) (by decide) hdigits
    (List.append_ne_nil_of_right_ne_nil _ Nat.toDigits_ne_nil)
  rw [List.singleton_append, List.singleton_append, Nat.ofDigitChars_cons, Nat.ofDigitChars_append,
    Nat.ofDigitChars_replicate_zero] at h
  rw [List.length_append, List.length_replicate] at h
  simpa only [Nat.mul_zero, Nat.zero_add, Nat.sub_self, Nat.ofDigitChars_ten_toDigits] using h

/-- A decimal with a point among its digits. -/
theorem spellsDouble_inner (hpos : 0 < k) (hle : k ≤ 19) (hlt : k < (Nat.toDigits 10 c).length) :
    SpellsDouble ((Nat.toDigits 10 c).take k ++ '.' :: (Nat.toDigits 10 c).drop k)
      ⟨c, -((Nat.toDigits 10 c).length - k : Nat)⟩ := by
  have hc : c ≠ 0 := fun hzero => by
    rw [hzero, Nat.toDigits_zero, List.length_singleton] at hlt
    omega
  have hhead : ((Nat.toDigits 10 c).take k).head? = (Nat.toDigits 10 c).head? := by
    rw [List.head?_take, if_neg (by omega)]
  have hwhole : IsWholePart ((Nat.toDigits 10 c).take k) := by
    refine ⟨fun d hd => isDigit_of_mem_toDigits d (List.mem_of_mem_take hd),
      .inr ⟨fun hnil => ?_, ?_⟩⟩
    · rw [hnil, eq_comm, List.head?_nil, List.head?_eq_none_iff] at hhead
      exact Nat.toDigits_ne_nil hhead
    · rw [hhead]
      exact head?_toDigits_ne hc
  have hdigits : ∀ d ∈ (Nat.toDigits 10 c).drop k, d.isDigit := fun d hd =>
    isDigit_of_mem_toDigits d (List.mem_of_mem_drop hd)
  have hlength : ((Nat.toDigits 10 c).take k).length ≤ 19 := by
    rw [List.length_take]
    omega
  have h := spellsDouble_point hwhole hlength hdigits (by
    rw [Ne, List.drop_eq_nil_iff]
    omega)
  rwa [List.take_append_drop, Nat.ofDigitChars_ten_toDigits, List.length_drop] at h

/-- A whole decimal: zeros stand behind its digits, and one behind the point. -/
theorem spellsDouble_large (h : c ≠ 0 ∨ k = 0) (hle : (Nat.toDigits 10 c).length + k ≤ 19) :
    SpellsDouble (Nat.toDigits 10 c ++ List.replicate k '0' ++ ['.', '0'])
      ⟨c * 10 ^ (k + 1), -1⟩ := by
  have hwhole : IsWholePart (Nat.toDigits 10 c ++ List.replicate k '0') := by
    rcases h with hc | rfl
    · refine ⟨List.forall_mem_append.2 ⟨isDigit_of_mem_toDigits, isDigit_of_mem_replicate k⟩,
        .inr ⟨List.append_ne_nil_of_left_ne_nil Nat.toDigits_ne_nil _, ?_⟩⟩
      rw [List.head?_append_of_ne_nil _ Nat.toDigits_ne_nil]
      exact head?_toDigits_ne hc
    · rw [List.replicate_zero, List.append_nil]
      exact isWholePart_toDigits c
  have hlength : (Nat.toDigits 10 c ++ List.replicate k '0').length ≤ 19 := by
    rwa [List.length_append, List.length_replicate]
  have hdigits : ∀ d ∈ ['0'], d.isDigit := List.forall_mem_singleton.2 rfl
  have hpoint := spellsDouble_point hwhole hlength hdigits (List.cons_ne_nil _ _)
  have hvalue : Nat.ofDigitChars 10 (Nat.toDigits 10 c ++ List.replicate k '0' ++ ['0']) 0 =
      c * 10 ^ (k + 1) := by
    rw [Nat.ofDigitChars_append, Nat.ofDigitChars_append, Nat.ofDigitChars_ten_toDigits,
      Nat.ofDigitChars_replicate_zero, Nat.ofDigitChars_cons, Nat.ofDigitChars_nil]
    rw [Nat.sub_self, Nat.add_zero, Nat.pow_succ, Nat.mul_comm c]
    rw [Nat.mul_comm (10 ^ k) 10, Nat.mul_assoc]
  rwa [hvalue] at hpoint

/-- A decimal with an exponent: a point stands behind the first digit, unless there is no other. -/
theorem spellsDouble_marked (e : Int) (hdigits : ∀ d ∈ ds, d.isDigit) (hne : ds ≠ []) :
    SpellsDouble (Decimal.marked ds e).toList
      ⟨Nat.ofDigitChars 10 ds 0, e - (ds.length - 1 : Nat)⟩ := by
  have hsign : (if e < 0 then "-" else "+").toList = [if e < 0 then '-' else '+'] := by
    split <;> rfl
  have hmark : "e".toList = ['e'] := rfl
  have hpoint : ".".toList = ['.'] := rfl
  have hexponent : ∀ c ∈ ('e' :: (if e < 0 then '-' else '+') :: Nat.toDigits 10 e.natAbs).head?,
      ¬c.isDigit := fun c hc => Option.some.inj hc ▸ by decide
  obtain ⟨d, rest, rfl⟩ := List.exists_cons_of_ne_nil hne
  have hwhole := isWholePart_singleton (hdigits d List.mem_cons_self)
  have hrest : ∀ c ∈ rest, c.isDigit := fun c hc => hdigits c (List.mem_cons_of_mem d hc)
  -- a single digit takes no point
  cases rest with
  | nil =>
    have hchars : (Decimal.marked [d] e).toList = [d] ++
        'e' :: (if e < 0 then '-' else '+') :: Nat.toDigits 10 e.natAbs := by
      simp only [Decimal.marked, Decimal.digits, String.toList_append, String.toList_ofList, hsign,
        hmark, Char.toString_eq_singleton, String.toList_singleton, List.cons_append,
        List.nil_append]
    rw [hchars]
    refine spellsDouble_of_parts none (some e) (fun negative => ?_) hwhole
      (show 1 ≤ 19 by decide) (by decide) (.inr rfl)
    rw [ofChars?_whole negative hwhole.ne_nil hwhole.1 hexponent
      (fun h => absurd (Option.some.inj h) (by decide)),
      exponent?_eq_some e, Option.map_some]
  | cons d' rest =>
    have hchars : (Decimal.marked (d :: d' :: rest) e).toList = [d] ++ '.' :: (d' :: rest ++
        'e' :: (if e < 0 then '-' else '+') :: Nat.toDigits 10 e.natAbs) := by
      simp only [Decimal.marked, Decimal.digits, String.toList_append, String.toList_ofList, hsign,
        hmark, hpoint, Char.toString_eq_singleton, String.toList_singleton, List.append_assoc,
        List.cons_append, List.nil_append]
    rw [hchars]
    refine spellsDouble_of_parts (some (d' :: rest)) (some e) (fun negative => ?_) hwhole
      (show 1 ≤ 19 by decide) (fun h => List.cons_ne_nil _ _ (Option.some.inj h)) (.inr rfl)
    rw [ofChars?_fraction negative hwhole.ne_nil hwhole.1 hrest hexponent, exponent?_eq_some e,
      Option.map_some]

/-- The decimal that the text of a decimal spells: behind a whole number without exponent stands
another zero. -/
def spelled (d : Decimal) : Decimal :=
  if 0 ≤ d.exponent ∧ (Nat.toDigits 10 d.coefficient).length + d.exponent ≤ 16 then
    ⟨d.coefficient * 10 ^ (d.exponent.toNat + 1), -1⟩
  else d

/-- It has the value of the decimal. -/
theorem spelled_same (d : Decimal) : (spelled d).Same d := by
  rw [spelled]
  split
  · obtain ⟨c, e⟩ := d
    rename_i h
    have hsame := Decimal.same_mul_ten_pow c (e.toNat + 1) (-1)
    have he : 0 ≤ e := h.1
    rwa [show (-1 : Int) + ((e.toNat + 1 : Nat) : Int) = e by omega] at hsame
  · rfl

/-- A decimal without an exponent. -/
theorem spellsDouble_positional {e : Int} (h : c ≠ 0 ∨ e = 0)
    (hle : (Nat.toDigits 10 c).length + e ≤ 16) :
    SpellsDouble (Decimal.positional ".0" (Nat.toDigits 10 c)
      ((Nat.toDigits 10 c).length + e)).toList (spelled ⟨c, e⟩) := by
  have hzero : "0.".toList = ['0', '.'] := rfl
  have hend : ".0".toList = ['.', '0'] := rfl
  have hpoint : ".".toList = ['.'] := rfl
  have hlength : 0 < (Nat.toDigits 10 c).length := Nat.length_toDigits_pos
  have hwhole : 0 ≤ e → spelled ⟨c, e⟩ = ⟨c * 10 ^ (e.toNat + 1), -1⟩ := fun he => if_pos ⟨he, hle⟩
  have hpart : e < 0 → spelled ⟨c, e⟩ = ⟨c, e⟩ := fun he => if_neg fun h => by
    have : 0 ≤ e := h.1
    omega
  rw [Decimal.positional]
  generalize hp : ((Nat.toDigits 10 c).length + e : Int) = p at hle ⊢
  split
  · have hsmall := spellsDouble_small c (-p).toNat
    rw [show -(((-p).toNat + (Nat.toDigits 10 c).length : Nat) : Int) = e by omega] at hsmall
    rw [hpart (by omega)]
    simpa only [String.toList_append, String.toList_ofList, hzero, List.cons_append,
      List.nil_append] using hsmall
  · obtain ⟨k, rfl⟩ : ∃ k : Nat, p = k := ⟨p.toNat, by omega⟩
    dsimp only
    rw [Int.toNat_natCast, String.toList_append, String.toList_ofList]
    by_cases hshort : (Nat.toDigits 10 c).length ≤ k
    · have hlarge := spellsDouble_large (c := c) (k := k - (Nat.toDigits 10 c).length)
        (h.imp_right fun he => by omega) (by omega)
      rw [hwhole (by omega), show e.toNat = k - (Nat.toDigits 10 c).length by omega,
        List.take_of_length_le hshort, List.drop_of_length_le hshort, List.isEmpty_nil, if_pos rfl,
        hend]
      exact hlarge
    · have hinner := spellsDouble_inner (c := c) (k := k) (by omega) (by omega) (by omega)
      have hrest : ((Nat.toDigits 10 c).drop k).isEmpty = false := by
        rw [List.isEmpty_eq_false_iff, Ne, List.drop_eq_nil_iff]
        omega
      rw [show -(((Nat.toDigits 10 c).length - k : Nat) : Int) = e by omega] at hinner
      rw [hpart (by omega), hrest, if_neg Bool.false_ne_true,
        show k - (Nat.toDigits 10 c).length = 0 by omega, List.replicate_zero, List.append_nil,
        String.toList_append, hpoint, String.toList_ofList]
      exact hinner

/-- **The text of a decimal spells a decimal of its value**, with or without an exponent. -/
theorem spellsDouble_decimalText {d : Decimal} (h : d.coefficient ≠ 0 ∨ d.exponent = 0) :
    SpellsDouble (doubleLayout.decimalText d).toList (spelled d) := by
  obtain ⟨c, e⟩ := d
  have hlength : 0 < (Nat.toDigits 10 c).length := Nat.length_toDigits_pos
  have hpoint : (if c = 0 then 1 else ((Nat.toDigits 10 c).length + e : Int)) =
      (Nat.toDigits 10 c).length + e := by
    split
    · rename_i hc
      have he : e = 0 := h.resolve_left (not_not_intro hc)
      rw [hc, he, Nat.toDigits_zero]
      rfl
    · rfl
  rw [Decimal.Layout.decimalText]
  simp only [Decimal.digits, hpoint]
  split
  · rename_i hmark
    have hmark' : (Nat.toDigits 10 c).length + e - 1 < -5 ∨
      15 < (Nat.toDigits 10 c).length + e - 1 := of_decide_eq_true hmark
    have hmarked := spellsDouble_marked ((Nat.toDigits 10 c).length + e - 1)
      (isDigit_of_mem_toDigits (n := c)) Nat.toDigits_ne_nil
    rw [Nat.ofDigitChars_ten_toDigits, show ((Nat.toDigits 10 c).length + e - 1 -
      ((Nat.toDigits 10 c).length - 1 : Nat) : Int) = e by omega] at hmarked
    rw [spelled, if_neg (by dsimp only; omega)]
    exact hmarked
  · rename_i hmark
    have hmark' : ¬((Nat.toDigits 10 c).length + e - 1 < -5 ∨
      15 < (Nat.toDigits 10 c).length + e - 1) := mt decide_eq_true hmark
    exact spellsDouble_positional h (by omega)

end Spells

/-! ### The numbers of JSON -/

theorem ofWord?_of_numeral {cs : List Char} {n : Numeral} (h : ofChars? cs = some n)
    (hjson : isJsonNumber n) : ofWord? cs = ofNumeral? n := by
  have hne : ∀ cs', ofChars? cs' = none → cs ≠ cs' := fun cs' hnone heq => by
    rw [heq, hnone] at h
    cases h
  rw [ofWord?, if_neg (hne _ (by decide)), if_neg (hne _ (by decide)),
    if_neg (hne _ (by decide)), h, Option.filter_some, if_pos hjson, Option.bind_some]

/-- The shortest decimal of zero is a plain zero. -/
theorem shortest_canonical {x : Double} (hfinite : x.isFinite) :
    (Decimal.shortest .even x).coefficient ≠ 0 ∨ (Decimal.shortest .even x).exponent = 0 := by
  by_cases hzero : x.isZero
  · rw [Decimal.shortest, if_pos hzero]
    exact .inr rfl
  · refine .inl fun hc => hzero ?_
    have habs := Decimal.toDouble_false_shortest .even hfinite
    rw [Decimal.toDouble, if_pos hc] at habs
    refine decide_eq_true ?_
    rw [← Double.toNat_bits_abs, ← habs]
    rfl

/-- The text of a finite double is a numeral for its shortest decimal. -/
theorem ofWord?_scalarText {x : Double} (hfinite : x.isFinite) :
    ∃ n, IsDouble n x.isNegative (spelled (Decimal.shortest .even x)) ∧
      ofWord? (scalarText (.double x)).toList = (n.parts.byParts? x.isNegative).map .double := by
  have hchars : (scalarText (.double x)).toList = signChars x.isNegative ++
      (doubleLayout.decimalText (Decimal.shortest .even x)).toList := by
    have hnan := Double.isNaN_of_isFinite hfinite
    rw [scalarText, Decimal.Layout.text, if_neg hnan, if_pos hfinite, String.toList_append]
    cases x.isNegative <;> rfl
  obtain ⟨n, hread, hn⟩ := spellsDouble_decimalText (shortest_canonical hfinite) x.isNegative
  refine ⟨n, hn, ?_⟩
  rw [hchars, ofWord?_of_numeral hread hn.isJsonNumber, ofNumeral?]
  simp only [hn.isWhole, hn.isNegative, Bool.false_eq_true, false_and, if_false]

/-- The double that is read from the text of a double. -/
def readBack (x : Double) : Double :=
  match ofWord? (scalarText (.double x)).toList with
  | some (.double y) => y
  | _ => x

/-- The greatest finite double is written with so few digits that it is read again. -/
theorem spelled_shortest_greatest : ∀ negative,
    spelled (Decimal.shortest .even (.ofMagnitude negative (Double.infinityMagnitude - 1))) =
      ⟨17976931348623157, 292⟩ := by
  decide +kernel

/-- The shortest decimal of a finite double is not refused, whatever of it is taken. -/
theorem isSome_byParts?_shortest {x : Double} (hfinite : x.isFinite) {n : Numeral}
    (hn : IsDouble n x.isNegative (spelled (Decimal.shortest .even x))) :
    (n.parts.byParts? x.isNegative).isSome := by
  have habs := Decimal.toDouble_false_shortest .even hfinite
  by_cases hgreatest : x.abs = Decimal.greatest.toDouble false
  · have hround : Decimal.greatest.toDouble false =
        .ofMagnitude false (Double.infinityMagnitude - 1) := by
      decide +kernel
    have hx := Double.eq_of_ofMagnitude_eq_abs (by decide) (hgreatest.trans hround).symm
    have hread : ∀ negative, ((⟨17976931348623157, 292⟩ : Decimal).byParts? negative).isSome := by
      decide +kernel
    have hspelled : spelled (Decimal.shortest .even x) = ⟨17976931348623157, 292⟩ := by
      rw [← hx]
      exact spelled_shortest_greatest _
    rw [hspelled] at hn
    rw [hn.parts_eq (by decide)]
    exact hread _
  · refine Decimal.isSome_byParts? _ n.coefficient_parts_lt
      ((hn.parts_le.trans (spelled_same _).le).trans (Decimal.le_greatest ?_ ?_))
    · rw [habs]
      exact Double.isFinite_abs hfinite
    · rwa [habs]

/-- **The text of a finite double is read as a double.** -/
theorem ofWord?_double {x : Double} (hfinite : x.isFinite) :
    ofWord? (scalarText (.double x)).toList = some (.double (readBack x)) := by
  obtain ⟨n, hn, hword⟩ := ofWord?_scalarText hfinite
  obtain ⟨y, hy⟩ := Option.isSome_iff_exists.1 (isSome_byParts?_shortest hfinite hn)
  rw [hy, Option.map_some] at hword
  rw [readBack, hword]

/-- If its text spells a decimal of 64 bits, it is the decimal, read by its parts. -/
theorem byParts?_spelled {x : Double} (hfinite : x.isFinite)
    (h : (spelled (Decimal.shortest .even x)).coefficient < 2 ^ 64) :
    (spelled (Decimal.shortest .even x)).byParts? x.isNegative = some (readBack x) := by
  obtain ⟨n, hn, hword⟩ := ofWord?_scalarText hfinite
  rw [ofWord?_double hfinite, hn.parts_eq h] at hword
  obtain ⟨y, hy, hxy⟩ := Option.map_eq_some_iff.1 hword.symm
  rw [hy, Token.double.inj hxy]

/-- Whether a double is finite and written with so few digits, so near to the point, that the
coefficient and the power of ten are doubles themselves. -/
def IsShort (x : Double) : Prop :=
  x.isFinite ∧ (spelled (Decimal.shortest .even x)).coefficient < 2 ^ 53 ∧
    (spelled (Decimal.shortest .even x)).exponent.natAbs ≤ 22

/-- **A short double is read back as it is.** -/
theorem readBack_eq_self {x : Double} (h : IsShort x) : readBack x = x := by
  obtain ⟨hfinite, hc, he⟩ := h
  have hread := byParts?_spelled hfinite (Nat.lt_trans hc (by decide))
  rw [Decimal.byParts?_eq_toDouble _ hc he, (spelled_same _).toDouble_eq,
    Decimal.toDouble_shortest .even hfinite] at hread
  exact (Option.some.inj hread).symm

-- `51.248178375505404` is not short, and is read as the next double
example : readBack ⟨0x40499FC44F1B2F60⟩ = ⟨0x40499FC44F1B2F61⟩ := by decide +kernel

theorem ofChars?_digits (negative : Bool) (n : Nat) :
    ofChars? (signChars negative ++ Nat.toDigits 10 n) =
      some ⟨signOf negative, Nat.toDigits 10 n, none, none⟩ := by
  rw [← List.append_nil (Nat.toDigits 10 n), ofChars?_whole negative Nat.toDigits_ne_nil
    isDigit_of_mem_toDigits not_isDigit_of_mem_nil (by decide), List.append_nil]
  rfl

theorem coefficient_digits (negative : Bool) (n : Nat) :
    coefficient ⟨signOf negative, Nat.toDigits 10 n, none, none⟩ = n := by
  rw [coefficient_eq isDigit_of_mem_toDigits (fun _ hc => absurd hc List.not_mem_nil),
    Option.getD_none, List.append_nil, Nat.ofDigitChars_ten_toDigits]

/-- The numeral of the digits of a number. -/
theorem ofWord?_digits (negative : Bool) (n : Nat) :
    ofWord? (signChars negative ++ Nat.toDigits 10 n) =
      ofNumeral? ⟨signOf negative, Nat.toDigits 10 n, none, none⟩ :=
  ofWord?_of_numeral (ofChars?_digits negative n)
    (isJsonNumber_mk negative (isWholePart_toDigits n) (nomatch ·))

/-- A signed integer. -/
theorem ofWord?_integer (n : Int64) :
    ofWord? (scalarText (.integer n)).toList = some (.integer n) := by
  have hle := n.le_toInt
  have hlt := n.toInt_lt
  rw [scalarText, toList_toString, ofWord?_digits, ofNumeral?]
  simp only [coefficient_digits]
  by_cases hneg : n.toInt < 0
  · have hback : -(n.toInt.natAbs : Int) = n.toInt := by omega
    have hminus : isNegative ⟨signOf true, Nat.toDigits 10 n.toInt.natAbs, none, none⟩ = true := rfl
    rw [decide_eq_true hneg, if_neg (fun h => h.2.1 hminus), if_neg (fun h => h.2.1 hminus),
      if_pos ⟨rfl, rfl, by omega, by omega⟩, hback, Int64.ofInt_toInt]
  · have hback : (n.toInt.natAbs : Int) = n.toInt := by omega
    rw [decide_eq_false hneg, if_pos ⟨rfl, Bool.false_ne_true, by omega⟩, ← Int64.ofInt_eq_ofNat,
      hback, Int64.ofInt_toInt]

/-- An unsigned integer beyond the signed range. -/
theorem ofWord?_largeInteger {n : UInt64} (h : 2 ^ 63 ≤ n.toNat) :
    ofWord? (scalarText (.largeInteger n)).toList = some (.largeInteger n) := by
  have hchars : (scalarText (.largeInteger n)).toList =
      signChars false ++ Nat.toDigits 10 n.toNat := by
    rw [scalarText, Nat.toString_eq_ofList_toDigits, String.toList_ofList]
    rfl
  have hlt := n.toNat_lt
  rw [hchars, ofWord?_digits, ofNumeral?]
  simp only [coefficient_digits]
  rw [if_neg (fun hsmall => by omega), if_pos ⟨rfl, Bool.false_ne_true, hlt⟩, UInt64.ofNat_toNat]

end Bson.Json
