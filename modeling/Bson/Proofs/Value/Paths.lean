import Bson.Proofs.Text.RoundTrip
import Bson.Value.Access

/-!
# Paths

A path is followed segment by segment, so a path of two parts leads where the second part leads from
the end of the first. Empty segments count like any other.

* `Path.segmentsOf_eq_splitOn`: the segments of a path are what stands between its dots.
  `Path.segments_append`: those of two paths with a dot between them follow each other.
* `Text.Spells`: how a number may be spelled. `Text.natural?_eq_some`: a number below a bound is read
  from each of its spellings, and from nothing else.
* `Value.follow?_append`: to follow segments is to follow some of them, then the others.
* `getPath?_composes`: the statement about paths.
-/

namespace Bson

namespace Path

/-- The segments of a path are what stands between the dots. -/
theorem segmentsOf_eq_splitOn (cs : List Char) : segmentsOf cs = cs.splitOn '.' := by
  induction cs with
  | nil => rfl
  | cons c rest ih =>
    rw [segmentsOf, List.splitOn_cons_eq_if_modifyHead, ih]
    by_cases hdot : c = '.'
    · rw [if_pos hdot, if_pos (beq_iff_eq.2 hdot)]
    · rw [if_neg hdot, if_neg (mt beq_iff_eq.1 hdot)]
      cases hrest : rest.splitOn '.' with
      | nil => exact absurd hrest (List.splitOn_ne_nil '.' rest)
      | cons first others => rfl

theorem segments_append (p q : String) : segments (p ++ "." ++ q) = segments p ++ segments q := by
  have hchars : (p ++ "." ++ q).toList = p.toList ++ '.' :: q.toList := by
    rw [String.toList_append, String.toList_append, List.append_assoc]
    rfl
  rw [segments, hchars, segmentsOf_eq_splitOn, List.splitOn_append_cons_self, List.map_append,
    ← segmentsOf_eq_splitOn, ← segmentsOf_eq_splitOn]
  rfl

/-- A path without a dot is its own segment. -/
theorem segments_of_not_mem {p : String} (h : '.' ∉ p.toList) : segments p = [p] := by
  rw [segments, segmentsOf_eq_splitOn, List.splitOn_eq_singleton h, List.map_singleton,
    String.ofList_toList]

theorem segments_ne_nil (p : String) : segments p ≠ [] := by
  rw [segments, segmentsOf_eq_splitOn, ne_eq, List.map_eq_nil_iff]
  exact List.splitOn_ne_nil '.' p.toList

end Path

namespace Text

/-- A text spells a number in decimal digits. There may be zeros and a plus sign in front. -/
def Spells (s : String) (n : Nat) : Prop :=
  ∃ digits : List Char, (s.toList = digits ∨ s.toList = '+' :: digits) ∧
    digits ≠ [] ∧ (∀ c ∈ digits, c.isDigit) ∧ n = Nat.ofDigitChars 10 digits 0

theorem splitSign_cases (cs : List Char) :
    (∃ rest, cs = '+' :: rest ∧ splitSign cs = (some '+', rest)) ∨
      (∃ rest, cs = '-' :: rest ∧ splitSign cs = (some '-', rest)) ∨
      cs.head? ≠ some '+' ∧ cs.head? ≠ some '-' ∧ splitSign cs = (none, cs) := by
  by_cases hplus : cs.head? = some '+'
  · obtain ⟨rest, rfl⟩ := List.head?_eq_some_iff.1 hplus
    exact .inl ⟨rest, rfl, rfl⟩
  · by_cases hminus : cs.head? = some '-'
    · obtain ⟨rest, rfl⟩ := List.head?_eq_some_iff.1 hminus
      exact .inr (.inl ⟨rest, rfl, rfl⟩)
    · exact .inr (.inr ⟨hplus, hminus, splitSign_of_ne hplus hminus⟩)

/-- A number below a bound is read from what spells it. -/
theorem natural?_eq_some {bound n : Nat} {s : String} :
    natural? 10 bound s = some n ↔ Spells s n ∧ n < bound := by
  have hread : ∀ digits, (digitsValue? 10 digits).filter (· < bound) = some n ↔
      (digits ≠ [] ∧ (∀ c ∈ digits, c.isDigit) ∧ n = Nat.ofDigitChars 10 digits 0) ∧ n < bound := by
    intro digits
    rw [Option.filter_eq_some_iff, digitsValue?_eq_some, decide_eq_true_eq]
  have hsign : ∀ c rest, ¬c.isDigit → ¬∀ d ∈ c :: rest, Char.isDigit d :=
    fun c rest hc h => hc (h c List.mem_cons_self)
  rw [natural?, Spells]
  rcases splitSign_cases s.toList with ⟨rest, hs, hsplit⟩ | ⟨rest, hs, hsplit⟩ |
    ⟨hplus, -, hsplit⟩
  · rw [hsplit, hs]
    refine (hread rest).trans (and_congr_left' ⟨fun h => ⟨rest, .inr rfl, h⟩, ?_⟩)
    rintro ⟨digits, rfl | hdigits, h⟩
    · exact absurd h.2.1 (hsign '+' rest (by decide))
    · obtain rfl := (List.cons.inj hdigits).2
      exact h
  · rw [hsplit, hs]
    refine iff_of_false nofun ?_
    rintro ⟨⟨digits, rfl | hdigits, h⟩, -⟩
    · exact absurd h.2.1 (hsign '-' rest (by decide))
    · exact absurd (List.cons.inj hdigits).1 (by decide)
  · rw [hsplit]
    refine (hread s.toList).trans (and_congr_left' ⟨fun h => ⟨s.toList, .inl rfl, h⟩, ?_⟩)
    rintro ⟨digits, rfl | hdigits, h⟩
    · exact h
    · exact absurd (congrArg List.head? hdigits) hplus

end Text

namespace Value

theorem follow?_append (v : Value) (segments more : List String) :
    v.follow? (segments ++ more) = (v.follow? segments).bind (·.follow? more) := by
  induction segments generalizing v with
  | nil => rfl
  | cons segment rest ih =>
    rw [List.cons_append, follow?, follow?, Option.bind_assoc]
    exact congrArg _ (funext ih)

theorem getPath?_append (v : Value) (p q : String) :
    v.getPath? (p ++ "." ++ q) = (v.getPath? p).bind (·.getPath? q) := by
  rw [getPath?, Path.segments_append, follow?_append]
  rfl

theorem getPath?_of_not_mem (v : Value) {p : String} (h : '.' ∉ p.toList) :
    v.getPath? p = v.get? p := by
  rw [getPath?, Path.segments_of_not_mem h, follow?]
  exact Option.bind_fun_some (v.get? p)

theorem get?_array_eq_some {items : List Value} {segment : String} {w : Value} :
    (array items).get? segment = some w ↔
      ∃ n, Text.Spells segment n ∧ n < 2 ^ 64 ∧ items[n]? = some w := by
  rw [get?, Option.bind_eq_some_iff]
  refine exists_congr fun n => ?_
  rw [Text.natural?_eq_some, and_assoc]

end Value

/-- The walk that starts at the fields of a document is the walk that starts at the document. -/
theorem OrderedMap.getPath?_eq (d : Document) (p : String) :
    d.getPath? p = (Value.document d).getPath? p := by
  rw [OrderedMap.getPath?, Value.getPath?]
  cases h : Path.segments p with
  | nil => exact absurd h (Path.segments_ne_nil p)
  | cons first rest => rfl

/-- **Paths compose.** A path of two parts with a dot between them leads where the second part leads
from the end of the first, and nowhere if the first part does; the parts may be empty. A path that
starts at the fields of a document leads where it leads from the document as a value. A path without
a dot is a look-up, and in an array this finds an item exactly by the spellings of its index, as far
as the index is below `2 ^ 64`. -/
theorem getPath?_composes (v : Value) (d : Document) (items : List Value) (p q : String) :
    v.getPath? (p ++ "." ++ q) = (v.getPath? p).bind (·.getPath? q) ∧
      d.getPath? p = (Value.document d).getPath? p ∧
      ('.' ∉ p.toList → v.getPath? p = v.get? p) ∧
      ∀ w, (Value.array items).get? p = some w ↔
        ∃ n, Text.Spells p n ∧ n < 2 ^ 64 ∧ items[n]? = some w :=
  ⟨v.getPath?_append p q, d.getPath?_eq p, v.getPath?_of_not_mem,
    fun _ => Value.get?_array_eq_some⟩

/-- A document with texts in an array. -/
def taggedDocument : Document :=
  .ofList [("user", .document (.ofList [("tags", .array [.string "a", .string "b"])]))]

/-- The second of the texts is found by an index with a sign and a zero in front. -/
theorem getPath?_composes_signed :
    '.' ∉ "+01".toList ∧
      (Value.array [.string "a", .string "b"]).getPath? "+01" = some (.string "b") ∧
      taggedDocument.getPath? ("user.tags" ++ "." ++ "+01") = some (.string "b") := by
  have hdot : '.' ∉ "+01".toList := by decide
  have hspells : Text.Spells "+01" 1 := ⟨['0', '1'], .inr rfl, by decide, by simp, rfl⟩
  have hitem : (Value.array [.string "a", .string "b"]).getPath? "+01" = some (.string "b") := by
    obtain ⟨-, -, hlookup, hindex⟩ := getPath?_composes (.array [.string "a", .string "b"])
      taggedDocument [.string "a", .string "b"] "+01" ""
    rw [hlookup hdot]
    exact (hindex _).2 ⟨1, hspells, by decide, rfl⟩
  have htags : (Value.document taggedDocument).getPath? "user.tags" =
      some (.array [.string "a", .string "b"]) := rfl
  obtain ⟨-, hwalk, -⟩ := getPath?_composes .null taggedDocument [] ("user.tags" ++ "." ++ "+01") ""
  obtain ⟨hcompose, -⟩ := getPath?_composes (.document taggedDocument) taggedDocument []
    "user.tags" "+01"
  refine ⟨hdot, hitem, ?_⟩
  rw [hwalk, hcompose, htags]
  exact hitem

/-- Zeros in front do not count, and an index of `2 ^ 64` is none. -/
example : (Value.array [.null]).getPath? "00000000000000000000000" = some .null ∧
    (Value.array [.null]).getPath? "18446744073709551616" = none := ⟨rfl, rfl⟩

end Bson
