import Bson.Proofs.Grammar.Texts
import Bson.Proofs.Reading.Spans

/-!
# Indices and places in arrays

* `Frame.index_eq_ok`: the keys that are taken for an index are those of `IsIndex`; they have no
  zero byte (`Frame.indexKey`).
* `Frame.place_eq_ok`: putting an item at an index is `placed`, as long as there is no gap wider
  than the bytes that follow.
* `isIndex_toString`, `indexOf_toString`: a number in decimal digits is an index and names itself.
-/

namespace Bson

namespace Text

theorem digit?_ten (c : Char) :
    digit? 10 c = if c.isDigit then some (c.toNat - '0'.toNat) else none := by
  have hz : '0'.toNat = 48 := rfl
  -- letters count from ten on
  have letter : ∀ k, (some (k + 10)).filter (· < 10) = none := by
    intro k
    rw [Option.filter_some]
    exact if_neg (by simp)
  unfold digit? digitValue
  split
  · rename_i h
    rw [Char.isDigit, Bool.and_eq_true, decide_eq_true_eq, decide_eq_true_eq] at h
    have hle : c.toNat ≤ 57 := UInt32.le_iff_toNat_le.1 h.2
    simp only [Option.filter, decide_eq_true_eq]
    exact if_pos (by omega)
  · split
    · exact letter _
    · split
      · exact letter _
      · rfl

theorem digitsFrom?_eq_some {n : Nat} {cs : List Char} {acc : Nat} :
    digitsFrom? 10 acc cs = some n ↔
      (∀ c ∈ cs, c.isDigit) ∧ n = Nat.ofDigitChars 10 cs acc := by
  induction cs generalizing acc with
  | nil =>
    rw [digitsFrom?, Nat.ofDigitChars_nil, Option.some.injEq]
    exact ⟨fun h => ⟨nofun, h.symm⟩, fun h => h.2.symm⟩
  | cons c cs ih =>
    rw [digitsFrom?, digit?_ten, Nat.ofDigitChars_cons]
    split
    · rename_i h
      simp [ih, h]
    · rename_i h
      simp [h]

/-- A number is spelled by at least one digit and nothing else. -/
theorem digitsValue?_eq_some {n : Nat} {cs : List Char} :
    digitsValue? 10 cs = some n ↔
      cs ≠ [] ∧ (∀ c ∈ cs, c.isDigit) ∧ n = Nat.ofDigitChars 10 cs 0 := by
  rw [digitsValue?]
  split
  · rename_i he
    exact ⟨nofun, fun h => absurd (List.isEmpty_iff.1 he) h.1⟩
  · rename_i he
    rw [digitsFrom?_eq_some]
    exact ⟨fun h => ⟨fun hnil => he (List.isEmpty_iff.2 hnil), h⟩, fun h => h.2⟩

end Text

namespace Grammar

theorem isIndex_toString {n : Nat} (h : n < 2 ^ 32) : IsIndex (toString n) := by
  have hchars : (toString n).toList = Nat.toDigits 10 n := by
    rw [Nat.toString_eq_ofList_toDigits, String.toList_ofList]
  refine ⟨fun he => ?_, fun c hc => ?_, ?_⟩
  · rw [he] at hchars
    exact Nat.toDigits_ne_nil hchars.symm
  · rw [hchars] at hc
    exact Nat.isDigit_of_mem_toDigits (b := 10) (by decide) (by decide) hc
  · rwa [hchars, Nat.ofDigitChars_ten_toDigits]

theorem indexOf_toString (n : Nat) : indexOf (toString n) = n := by
  rw [indexOf, Nat.toString_eq_ofList_toDigits, String.toList_ofList,
    Nat.ofDigitChars_ten_toDigits]

end Grammar

namespace Frame

open Grammar

theorem index_eq_ok {key k : String} {n : Nat} :
    index key = .ok (k, n) ↔ IsIndex key ∧ k = key ∧ n = indexOf key := by
  have hvalue : ∀ m, Text.digitsValue? 10 key.toList = some m ↔
      key ≠ "" ∧ (∀ c ∈ key.toList, c.isDigit) ∧ m = indexOf key := by
    intro m
    rw [Text.digitsValue?_eq_some, ne_eq, String.toList_eq_nil_iff, indexOf]
  have hopen : index key = .ok (k, n) ↔
      k = key ∧ (Text.digitsValue? 10 key.toList).filter (· < 2 ^ 32) = some n := by
    unfold index
    split
    · rename_i m hm
      rw [hm, Except.ok.injEq, Prod.mk.injEq, Option.some.injEq, eq_comm (a := key)]
    · rename_i hm
      rw [hm]
      exact ⟨nofun, fun h => nomatch h.2⟩
  rw [hopen, Option.filter_eq_some_iff, hvalue, IsIndex, decide_eq_true_eq]
  constructor
  · rintro ⟨rfl, ⟨hne, hd, rfl⟩, hlt⟩
    exact ⟨⟨hne, hd, hlt⟩, rfl, rfl⟩
  · rintro ⟨⟨hne, hd, hlt⟩, rfl, rfl⟩
    exact ⟨rfl, ⟨hne, hd, rfl⟩, hlt⟩

/-- A key that is taken for an index has no zero byte. -/
theorem indexKey (key : String) (n : Nat) (h : index key = .ok (key, n)) :
    NulFree key ∧ IsIndex key := by
  have hkey := (index_eq_ok.1 h).1
  exact ⟨nulFree_of_isDigit hkey.2.1, hkey⟩

theorem place_eq_ok {items items' : Array Value} {key : String} {n : Nat} {v : Value}
    {bytesLeft : Nat} :
    place items key n v bytesLeft = .ok items' ↔
      n ≤ items.size + bytesLeft ∧ items'.toList = placed items.toList n v := by
  unfold place placed
  rw [Array.length_toList]
  split
  · rename_i h
    rw [Except.ok.injEq, ← Array.toList_inj, Array.toList_set]
    exact ⟨fun he => ⟨by omega, he.symm⟩, fun he => he.2.symm⟩
  · rename_i h
    rw [minus_eq (by omega)]
    change (if _ then _ else _ : Except Error (Array Value)) = _ ↔ _
    split
    · rename_i hgap
      exact ⟨nofun, fun he => absurd he.1 (by omega)⟩
    · rename_i hgap
      change Except.ok _ = _ ↔ _
      rw [Except.ok.injEq, ← Array.toList_inj]
      simp only [Array.toList_push, Array.toList_append, Array.toList_replicate,
        List.append_assoc]
      exact ⟨fun he => ⟨by omega, he.symm⟩, fun he => he.2.symm⟩

end Frame

end Bson
